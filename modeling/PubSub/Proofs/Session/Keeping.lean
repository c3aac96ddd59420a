import PubSub.Proofs.Session.Transitions

/-!
# Keeping

A bus runs only as long as a name or an owner keeps it: whatever makes a session lose its hold of a bus also closes
the bus if nothing else keeps it, and nothing else changes who keeps what.
-/

namespace PubSub

/-- It may make an object, or subscribe one. -/
def Command.enrols : Command → Bool
  | .object _ _ _ _ _ | .subscribe _ _ _ _ => true
  | _ => false

/-- It may change who keeps what. -/
def Command.reassigns : Command → Bool
  | .openBus _ _ _ | .clone _ _ | .drop _ | .managed _ _ | .init _ | .destroy _ | .managedBus _ _ => true
  | _ => false

namespace Session

variable {s s' s'' : Session} {ctx : Context} {b : Bus} {id bus : Nat} {i : Invocation}

theorem isRunning_eq_true_iff : s.isRunning bus ↔ ∃ b, s.buses.get? bus = some b ∧ b.isOpen := by
  simp only [isRunning, Option.any_eq_true]

theorem isKept_eq_true_iff : s.isKept bus ↔
    (∃ h ∈ s.holds.values, h.keeps ∧ h.bus = bus) ∨ ∃ o ∈ s.owners.values, o.bus = some bus := by
  simp only [isKept, Bool.or_eq_true, List.any_eq_true, Bool.and_eq_true, decide_eq_true_eq]

/-- Nobody gets or loses hold of a bus, and no bus opens. -/
structure Calm (s s' : Session) : Prop where
  holds : s'.holds = s.holds
  owners : s'.owners = s.owners
  running : ∀ bus, s'.isRunning bus → s.isRunning bus

/-- No object is made, and nothing is subscribed. -/
structure Unenrolled (s s' : Session) : Prop where
  objects : s'.objects = s.objects
  rows : ∀ id b' k u, s'.buses.get? id = some b' → u ∈ b'.registry.row k →
    ∃ b, s.buses.get? id = some b ∧ u ∈ b.registry.row k

/-- Neither of both happens. -/
structure Quiet (s s' : Session) : Prop extends Calm s s', Unenrolled s s'

/-- Stops a bus if nothing keeps it. -/
def stopUnkept (s : Session) (b : Bus) : Session :=
  if b.isOpen && !s.isKept b.id then (s.putBus b.close).stopWorkers b.id else s

theorem dropUnkept_eq (s : Session) : s.dropUnkept = s.buses.values.foldl stopUnkept s :=
  rfl

namespace Calm

theorem refl (s : Session) : s.Calm s :=
  ⟨rfl, rfl, fun _ h => h⟩

theorem trans (h : s.Calm s') (h' : s'.Calm s'') : s.Calm s'' where
  holds := h'.holds.trans h.holds
  owners := h'.owners.trans h.owners
  running bus hrunning := h.running bus (h'.running bus hrunning)

theorem of_same (hholds : s'.holds = s.holds) (howners : s'.owners = s.owners) (hbuses : s'.buses = s.buses) :
    s.Calm s' :=
  ⟨hholds, howners, fun _ hrunning => isRunning_congr hbuses ▸ hrunning⟩

theorem isKept (h : s.Calm s') (bus : Nat) : s'.isKept bus = s.isKept bus := by
  simp only [Session.isKept, h.holds, h.owners]

theorem putBus (h : b.isOpen → s.isRunning b.id) : s.Calm (s.putBus b) where
  holds := rfl
  owners := rfl
  running bus hrunning := by
    simp only [isRunning, Session.putBus, Table.get?_put] at hrunning ⊢
    split at hrunning
    · obtain rfl : bus = b.id := ‹_›
      exact h hrunning
    · exact hrunning

theorem changed {b' : Bus} (hb : s.buses.get? b.id = some b) (h : b.Changes b') : s.Calm (s.putBus b') := by
  refine putBus ?_
  intro hopen
  rw [Bus.id_eq_of_changes h, isRunning, hb]
  exact Bus.isOpen_of_changes h hopen

end Calm

namespace Unenrolled

theorem refl (s : Session) : s.Unenrolled s :=
  ⟨rfl, fun _ b' _ _ hb' hu => ⟨b', hb', hu⟩⟩

theorem trans (h : s.Unenrolled s') (h' : s'.Unenrolled s'') : s.Unenrolled s'' where
  objects := h'.objects.trans h.objects
  rows id b' k u hb' hu := by
    obtain ⟨b, hb, hu⟩ := h'.rows id b' k u hb' hu
    exact h.rows id b k u hb hu

theorem of_same (hobjects : s'.objects = s.objects) (hbuses : s'.buses = s.buses) : s.Unenrolled s' :=
  ⟨hobjects, fun _ b' _ _ hb' hu => ⟨b', hbuses ▸ hb', hu⟩⟩

theorem putBus (h : ∀ k, ∀ u ∈ b.registry.row k, ∃ b₀, s.buses.get? b.id = some b₀ ∧ u ∈ b₀.registry.row k) :
    s.Unenrolled (s.putBus b) where
  objects := rfl
  rows id b' k u hb' hu := by
    simp only [Session.putBus, Table.get?_put] at hb'
    split at hb'
    · obtain rfl : id = b.id := ‹_›
      obtain rfl := Option.some.inj hb'
      exact h k u hu
    · exact ⟨b', hb', hu⟩

end Unenrolled

namespace Quiet

theorem refl (s : Session) : s.Quiet s :=
  ⟨.refl s, .refl s⟩

theorem trans (h : s.Quiet s') (h' : s'.Quiet s'') : s.Quiet s'' :=
  ⟨h.toCalm.trans h'.toCalm, h.toUnenrolled.trans h'.toUnenrolled⟩

theorem of_same (hholds : s'.holds = s.holds) (howners : s'.owners = s.owners) (hobjects : s'.objects = s.objects)
    (hbuses : s'.buses = s.buses) : s.Quiet s' :=
  ⟨.of_same hholds howners hbuses, .of_same hobjects hbuses⟩

theorem report (s : Session) (ns : List Notice) : s.Quiet (s.report ns) := by
  simp only [Session.report]
  split
  · exact of_same rfl rfl rfl rfl
  · exact refl s

theorem watch (s : Session) (publication : Nat) : s.Quiet (s.watch publication) := by
  simp only [Session.watch]
  split
  · exact refl s
  · split
    · exact refl s
    · refine trans ?_ (report ..)
      exact of_same rfl rfl rfl rfl

theorem unwatch (s : Session) (publication : Nat) : s.Quiet (s.unwatch publication) := by
  simp only [Session.unwatch]
  split
  · exact refl s
  · exact of_same rfl rfl rfl rfl

section Ending

theorem finish (s : Session) (id : Nat) (i : Invocation) (o : Outcome) : s.Quiet (s.finish id i o) := by
  simp only [Session.finish]
  split
  · exact of_same rfl rfl rfl rfl
  · refine trans ?_ (report ..)
    exact of_same rfl rfl rfl rfl

theorem conclude (s : Session) (id : Nat) (i : Invocation) (result : Except ListenerError (Option Value)) :
    s.Quiet (s.conclude id i result) := by
  simp only [Session.conclude]
  split
  · exact finish ..
  · split
    · exact finish ..
    · exact (report ..).trans (finish ..)

theorem leaveCall (s : Session) (i : Invocation) : s.Quiet (s.leaveCall i) := by
  simp only [Session.leaveCall]
  split
  · exact of_same rfl rfl rfl rfl
  · exact refl s

theorem abandonWait (s : Session) (id : Nat) (i : Invocation) : s.Quiet (s.abandonWait id i) := by
  simp only [Session.abandonWait]
  split
  · exact unwatch ..
  · exact of_same rfl rfl rfl rfl
  · exact refl s

theorem interrupt (s : Session) (id : Nat) (i : Invocation) : s.Quiet (s.interrupt id i) :=
  ((leaveCall s i).trans (abandonWait ..)).trans (finish ..)

theorem foldl {α : Type} {f : Session → α → Session} (h : ∀ (s : Session) (a : α), s.Quiet (f s a)) (as : List α)
    (s : Session) : s.Quiet (as.foldl f s) := by
  induction as generalizing s with
  | nil => exact refl s
  | cons a as ih => exact (h s a).trans (ih _)

theorem stopWorkers (s : Session) (bus : Nat) : s.Quiet (s.stopWorkers bus) := by
  refine foldl ?_ _ s
  intro s e
  split
  · exact interrupt ..
  · exact refl s

end Ending

theorem changed {b' : Bus} (hb : s.buses.get? b.id = some b) (h : b.Changes b')
    (hrow : ∀ k, ∀ u ∈ b'.registry.row k, u ∈ b.registry.row k) : s.Quiet (s.putBus b') := by
  refine ⟨.changed hb h, .putBus ?_⟩
  intro k u hu
  exact ⟨b, Bus.id_eq_of_changes h ▸ hb, hrow k u hu⟩

theorem close (s : Session) (b : Bus) : s.Quiet ((s.putBus b.close).stopWorkers b.id) := by
  refine trans ⟨.putBus ?_, .putBus ?_⟩ (stopWorkers ..)
  · intro hopen
    cases hopen
  · intro k u hu
    cases hu

theorem closeBus (s : Session) (b : Bus) : s.Quiet (s.closeBus b) := by
  simp only [Session.closeBus]
  split
  · exact (close s b).trans (report ..)
  · exact refl s

theorem stopUnkept (s : Session) (b : Bus) : s.Quiet (s.stopUnkept b) := by
  simp only [Session.stopUnkept]
  split
  · exact close s b
  · exact refl s

theorem dropUnkept (s : Session) : s.Quiet s.dropUnkept :=
  foldl stopUnkept _ s

section Publishing

theorem announced {notice : Option Notice} (h : notice.elim (.ok s) s.announce = .ok s') : s.Quiet s' := by
  cases notice with
  | none =>
    obtain rfl := Except.ok.inj h
    exact refl s
  | some n =>
    simp only [Option.elim_some, Session.announce] at h
    split at h
    · obtain ⟨line, -, rfl⟩ := map_eq_ok_iff.1 h
      exact report ..
    · obtain rfl := Except.ok.inj h
      exact refl s

theorem schedule (s : Session) (ctx : Context) (bus : Nat) (plan : Plan) : s.Quiet (s.schedule ctx bus plan).1 := by
  cases plan with
  | refused error => exact of_same rfl rfl rfl rfl
  | scheduled event targets =>
    rw [schedule_scheduled]
    refine trans ?_ (foldl ?_ targets _)
    · exact of_same rfl rfl rfl rfl
    · intro s t
      exact of_same rfl rfl rfl rfl

theorem publishOn (hb : s.buses.get? b.id = some b) (ctx : Context) (e : Event) :
    s.Quiet (s.publishOn ctx b e).1 := by
  simp only [Session.publishOn]
  split
  · exact refl s
  · rename_i d hd
    have hput := changed hb (.published hd) fun _ _ hu => hu
    split
    · exact hput
    · rename_i s₁ hs₁
      exact (hput.trans (announced hs₁)).trans (schedule ..)

theorem publish (hs : s.Proper) {p : Publish} {result : Except Crash Nat}
    (h : s.publish ctx p = some (s', result)) : s.Quiet s' := by
  simp only [Session.publish] at h
  split at h
  · cases h
  · split at h
    · obtain ⟨rfl, -⟩ := Prod.mk.inj (Option.some.inj h)
      exact publishOn (get?_of_bus? hs ‹_›) ctx _
    · cases h
    · split at h
      · cases h
      · obtain ⟨rfl, -⟩ := Prod.mk.inj (Option.some.inj h)
        exact of_same rfl rfl rfl rfl

theorem publishMessage (hs : s.Proper) (ctx : Context) (bus : String) (message : Message) :
    s.Quiet (s.publishMessage ctx bus message).1 := by
  simp only [Session.publishMessage]
  split
  · exact publishOn (get?_of_bus? hs ‹_›) ctx _
  · exact publishOn (get?_of_bus? hs ‹_›) ctx _
  · exact of_same rfl rfl rfl rfl
  · exact refl s

end Publishing

section Commands

theorem unsubscribe (hb : s.buses.get? b.id = some b) (handle : Handle) : s.Quiet (s.unsubscribe b handle).1 := by
  simp only [Session.unsubscribe]
  cases hu : b.unsubscribe handle with
  | error e => exact refl s
  | ok r =>
    refine (changed hb (.unsubscribed hu) ?_).trans (report ..)
    intro k u hmem
    rw [(Bus.unsubscribe_eq_ok_iff.1 hu).2.2.1] at hmem
    exact Bus.mem_row_removeAll hmem

theorem keysOn (hb : s.buses.get? b.id = some b) (cls : Name) : s.Quiet (s.keysOn b cls).1 := by
  simp only [Session.keysOn]
  split
  · exact refl s
  · cases hk : b.keysFor s.hierarchy.declared cls with
    | error c => exact refl s
    | ok r =>
      refine changed hb (.looked hk) ?_
      obtain ⟨known, -, hr⟩ := bind_eq_ok_iff.1 hk
      cases hr
      exact fun _ _ hu => hu

theorem startPublish (hs : s.Proper) (ctx : Context) (name : String) (p : Publish) :
    s.Quiet (s.startPublish ctx name p).1 := by
  simp only [Session.startPublish]
  split
  · exact refl s
  · exact publish hs ‹_›
  · refine trans (publish hs ‹_›) ?_
    exact of_same rfl rfl rfl rfl

theorem forget (s : Session) (name : String) (publication : Nat) : s.Quiet (s.forget name publication) :=
  (unwatch s publication).trans (of_same rfl rfl rfl rfl)

theorem provided {α : Type} {found : Option α} {act : α → Session × Answer}
    (hact : ∀ a, found = some a → s.Quiet (act a).1) : s.Quiet (s.provided found act).1 :=
  provided_cases (motive := fun r => s.Quiet r.1) (refl s) hact

end Commands

section Steps

theorem call (s : Session) (id : Nat) (i : Invocation) : s.Quiet (s.call id i) := by
  simp only [Session.call]
  split
  · exact conclude ..
  · exact conclude ..
  · exact of_same rfl rfl rfl rfl

theorem park (s : Session) (id : Nat) (i : Invocation) : s.Quiet (s.park id i) := by
  have hissue : s.Quiet s.issue.1 := of_same rfl rfl rfl rfl
  simp only [Session.park]
  split
  · exact (hissue.trans (watch ..)).trans (of_same rfl rfl rfl rfl)
  · exact of_same rfl rfl rfl rfl
  · exact of_same rfl rfl rfl rfl

theorem advance (hs : s.Proper) {p : Behaviour} (hcalm : ∀ command next, p ≠ .request command next)
    (h : s.advance id i p = some s') : s.Quiet s' := by
  have hfailed {s : Session} (cause : ListenerError) : s.Quiet (s.failed id i cause) :=
    (leaveCall s i).trans (conclude ..)
  have hput {s₁ : Session} (h : s.Quiet s₁) (j : Invocation) : s.Quiet (s₁.putInvocation id j) :=
    h.trans (of_same rfl rfl rfl rfl)
  cases p with
  | reply value =>
    obtain rfl := Option.some.inj h
    exact (leaveCall s i).trans (conclude ..)
  | fail fault =>
    obtain rfl := Option.some.inj h
    exact hfailed _
  | crash c =>
    obtain rfl := Option.some.inj h
    exact hfailed _
  | later rest =>
    obtain rfl := Option.some.inj h
    exact hput (leaveCall s i) _
  | request command next => exact absurd rfl (hcalm command next)
  | record entry next =>
    obtain rfl := Option.some.inj h
    exact of_same rfl rfl rfl rfl
  | arrive gate next =>
    obtain rfl := Option.some.inj h
    exact of_same rfl rfl rfl rfl
  | pass gate next =>
    simp only [Session.advance] at h
    split at h
    · obtain rfl := Option.some.inj h
      exact of_same rfl rfl rfl rfl
    · cases h
  | publish bus message next =>
    have hpublish := publishMessage hs i.context bus message
    simp only [Session.advance] at h
    split at h
    · rename_i s₁ c hs₁
      rw [hs₁] at hpublish
      obtain rfl := Option.some.inj h
      exact hpublish.trans (hfailed _)
    · rename_i s₁ publication hs₁
      rw [hs₁] at hpublish
      obtain rfl := Option.some.inj h
      exact hput hpublish _
  | await publication next =>
    simp only [Session.advance] at h
    cases hp : s.publications.get? publication with
    | none => simp [hp] at h
    | some p =>
      cases hresult : p.result? with
      | none => simp [hp, hresult] at h
      | some result =>
        obtain rfl : (s.watch publication).putInvocation id (i.goOn (next result)) = s' := by
          simpa [hp, hresult] using h
        exact hput (watch ..) _
  | forward publication next =>
    obtain rfl := Option.some.inj h
    exact of_same rfl rfl rfl rfl
  | workerName next =>
    obtain rfl := Option.some.inj h
    exact of_same rfl rfl rfl rfl

end Steps

end Quiet

section Requests

theorem Calm.subscribed (hb : s.buses.get? b.id = some b) (handle : Option String) (table : Option (List Nat))
    {result : Except BusError (Bus × Handle)} (h : ∀ b' handle, result = .ok (b', handle) → b.Changes b') :
    s.Calm (s.subscribed b handle table result).1 := by
  cases result with
  | error e => exact .refl s
  | ok r =>
    obtain ⟨addresses, hplaced⟩ := exists_placeAll (s.putBus r.1) b.id r.2.entries
    have hplace : (s.putBus r.1).Calm ((s.putBus r.1).placeAll b.id r.2.entries) := by
      rw [hplaced]
      exact .of_same rfl rfl rfl
    have hput := ((Calm.changed hb (h r.1 r.2 rfl)).trans hplace).trans
      (Quiet.report _ (b.optional (r.2.entries.map fun e => .subscribed e.1 e.2))).toCalm
    cases handle with
    | none => exact hput
    | some name => exact hput.trans (.of_same rfl rfl rfl)

theorem Calm.subscribe (hb : s.buses.get? b.id = some b) (o : Object) (route : Route) (handle : Option String) :
    s.Calm (s.subscribe b o route handle).1 := by
  unfold Session.subscribe
  split
  · exact subscribed hb _ _ fun _ _ => Bus.changes_of_subscribeHandlers
  · have hissue : s.Calm s.issue.1 := .of_same rfl rfl rfl
    simp only
    split
    · exact hissue
    · exact hissue.trans (subscribed (s := s.issue.1) hb _ _ fun _ _ => .subscribed)

theorem Quiet.perform (hs : s.Proper) (ctx : Context) {command : Command} (hkept : command.reassigns = false)
    (hlisted : command.enrols = false) : s.Quiet (s.perform ctx command).1 := by
  cases command with
  | openBus | clone | drop | managed | init | destroy | managedBus => cases hkept
  | object | subscribe => cases hlisted
  | declare later => exact of_same rfl rfl rfl rfl
  | close name => exact provided fun b _ => closeBus s b
  | keys name cls => exact provided fun b hb => keysOn (get?_of_bus? hs hb) cls
  | unsubscribe name handle =>
    exact provided fun b hb => provided fun handle _ => unsubscribe (get?_of_bus? hs hb) handle
  | start name p => exact startPublish hs ctx name p
  | forget name => exact provided fun publication _ => forget s name publication
  | release gate permits => exact of_same rfl rfl rfl rfl
  | count name type => cases type <;> exact refl s
  | alive | closed | debug | config | sameBus | handle | sameHandle | peak | calls => exact refl s

theorem Calm.perform (hs : s.Proper) (ctx : Context) {command : Command} (h : command.reassigns = false) :
    s.Calm (s.perform ctx command).1 := by
  cases hlisted : command.enrols with
  | false => exact (Quiet.perform hs ctx h hlisted).toCalm
  | true =>
    cases command with
    | object name label threadSafe script methods => exact .of_same rfl rfl rfl
    | subscribe name object route handle =>
      simp only [Session.perform, Session.provided]
      cases hb : s.bus? name with
      | none => exact .refl s
      | some b =>
        simp only [Option.elim_some]
        cases s.objects.get? object with
        | none => exact .refl s
        | some o => exact .subscribe (get?_of_bus? hs hb) o route handle
    | _ => cases hlisted

end Requests

/-- A bus that runs is kept. -/
def Kept (s : Session) : Prop :=
  ∀ bus, s.isRunning bus → s.isKept bus

theorem Kept.calm (h : s.Kept) (hcalm : s.Calm s') : s'.Kept := by
  intro bus hrunning
  rw [hcalm.isKept]
  exact h bus (hcalm.running bus hrunning)

section Dropping

theorem get?_dropUnkept (hkept : s.isKept bus) : s.dropUnkept.buses.get? bus = s.buses.get? bus := by
  rw [dropUnkept_eq]
  generalize s.buses.values = bs
  induction bs generalizing s with
  | nil => rfl
  | cons b bs ih =>
    rw [List.foldl_cons, ih (by rw [(Quiet.stopUnkept s b).isKept, hkept]), stopUnkept]
    split
    · rename_i hstop
      have hne : bus ≠ b.id := by
        rintro rfl
        simp [hkept] at hstop
      rw [buses_stopWorkers, putBus, Table.get?_put, if_neg (show ¬ bus = b.close.id from hne)]
    · rfl

private theorem stopped_of_mem {bs : List Bus} (hb : b ∈ bs) (hopen : b.isOpen) (hunkept : s.isKept b.id = false) :
    (bs.foldl stopUnkept s).isRunning b.id = false := by
  induction bs generalizing s with
  | nil => cases hb
  | cons b' bs ih =>
    rw [List.foldl_cons]
    rcases List.mem_cons.1 hb with rfl | hb
    · have hstopped : (s.stopUnkept b).isRunning b.id = false := by
        rw [stopUnkept, if_pos (by simp [hopen, hunkept]), isRunning, buses_stopWorkers, putBus]
        rw [show b.id = b.close.id from rfl, Table.get?_put, if_pos rfl]
        rfl
      -- stopping the other buses does not open this one again
      refine Bool.eq_false_iff.2 fun hrunning => ?_
      have hbefore := (Quiet.foldl Quiet.stopUnkept bs _).running b.id hrunning
      cases hstopped.symm.trans hbefore
    · refine ih hb ?_
      rw [(Quiet.stopUnkept s b').isKept, hunkept]

theorem kept_dropUnkept (hs : s.Proper) : s.dropUnkept.Kept := by
  intro bus hrunning
  have hcalm := Quiet.dropUnkept s
  rw [dropUnkept_eq] at hrunning hcalm ⊢
  obtain ⟨b, hb, hopen⟩ := isRunning_eq_true_iff.1 (hcalm.running bus hrunning)
  obtain ⟨rfl, -⟩ := hs.bus bus b hb
  rw [hcalm.isKept]
  by_contra hunkept
  have hstopped := stopped_of_mem ((Table.mem_values_iff hs.buses b).2 ⟨b.id, hb⟩) hopen (Bool.eq_false_iff.2 hunkept)
  cases hstopped.symm.trans hrunning

end Dropping

section Requests

theorem openBus_frame {config : Config} (h : s.openBus config = .ok (s', b)) :
    s'.holds = s.holds ∧ s'.owners = s.owners ∧ ∀ bus, s'.isRunning bus → bus = b.id ∨ s.isRunning bus := by
  obtain ⟨b', -, h⟩ := bind_eq_ok_iff.1 h
  obtain ⟨-, -, h⟩ := bind_eq_ok_iff.1 h
  cases h
  have hcalm := Quiet.report (s.issue.1.putBus b) (b.optional [.started])
  refine ⟨hcalm.holds, hcalm.owners, ?_⟩
  intro bus hrunning
  obtain ⟨b', hb', hopen⟩ := isRunning_eq_true_iff.1 (hcalm.running bus hrunning)
  rw [putBus, Table.get?_put] at hb'
  split at hb'
  · exact Or.inl ‹_›
  · exact Or.inr (isRunning_eq_true_iff.2 ⟨b', hb', hopen⟩)

theorem Kept.provided {α : Type} {found : Option α} {act : α → Session × Answer} (h : s.Kept)
    (hact : ∀ a, found = some a → (act a).1.Kept) : (s.provided found act).1.Kept :=
  provided_cases (motive := fun r => r.1.Kept) h hact

theorem kept_hold (hs : s.Proper) (name : String) (bus : Nat) : (s.hold name bus).Kept :=
  kept_dropUnkept (hs.aside (.rest ..))

private theorem Kept.initOwner (h : s.Kept) {name : String} {owner : Owner} (howner : s.owners.get? name = some owner) :
    (s.initOwner name owner).1.Kept := by
  simp only [Session.initOwner]
  cases hempty : owner.bus with
  | some id => exact h
  | none =>
    cases ho : s.openBus owner.config with
    | error answer => exact h
    | ok r =>
      obtain ⟨s₁, b⟩ := r
      obtain ⟨hholds, howners, hopened⟩ := openBus_frame ho
      refine Kept.calm ?_ (Quiet.report ..).toCalm
      intro bus hrunning
      rw [isKept_eq_true_iff]
      obtain ⟨hnew, hold⟩ := Table.mem_values_put s₁.owners name { owner with bus := some b.id }
      rcases hopened bus hrunning with rfl | hrunning
      · exact Or.inr ⟨_, hnew, rfl⟩
      rcases isKept_eq_true_iff.1 (h bus hrunning) with hheld | ⟨o, ho, hbus⟩
      · exact Or.inl (hholds ▸ hheld)
      · rcases hold o (howners ▸ ho) with ho | ho
        · exact Or.inr ⟨o, ho, hbus⟩
        · rw [howners, howner] at ho
          obtain rfl := Option.some.inj ho
          cases hempty.symm.trans hbus

private theorem Kept.destroyOwner (hs : s.Proper) (h : s.Kept) (name : String) (owner : Owner) :
    (s.destroyOwner name owner).Kept := by
  simp only [Session.destroyOwner]
  cases hb : owner.bus.bind s.buses.get? with
  | none => exact h
  | some b =>
    obtain ⟨id, -, hid⟩ := Option.bind_eq_some_iff.1 hb
    have hget : s.buses.get? b.id = some b := by rw [(hs.bus id b hid).1, hid]
    have hclosed := (hs.effects (effects_closeBus hs hget)).aside (aside_report _ [.destroyed])
    exact kept_dropUnkept (hclosed.aside (.rest ..))

theorem Kept.perform (hs : s.Proper) (h : s.Kept) (ctx : Context) (command : Command) :
    (s.perform ctx command).1.Kept := by
  by_cases hreassigns : command.reassigns
  swap
  · exact h.calm (.perform hs ctx (Bool.eq_false_iff.2 hreassigns))
  cases command with
  | openBus name base settings =>
    simp only [Session.perform]
    cases ho : s.openBus (settings.foldl Config.set base) with
    | error answer => exact h
    | ok r => exact kept_hold (hs.effects (effects_openBus (b := r.2) ho)) _ _
  | clone name copy => exact h.provided fun b _ => kept_hold hs copy b.id
  | drop name =>
    refine h.provided fun hold _ => ?_
    simp only [dropName]
    split
    · exact kept_dropUnkept (hs.aside (.rest ..))
    · exact h
  | managed name config => exact kept_dropUnkept (hs.aside (.rest ..))
  | init name => exact h.provided fun owner howner => h.initOwner howner
  | destroy name => exact h.provided fun owner _ => h.destroyOwner hs name owner
  | managedBus name bus =>
    refine h.provided fun owner _ => ?_
    cases owner.bus with
    | none => exact h
    | some id => exact kept_hold hs bus id
  | _ => cases hreassigns

end Requests

theorem quiet_or_request_of_step (hs : s.Proper) (h : s.step id = some s') :
    s.Quiet s' ∨ ∃ i command next, s.invocations.get? id = some i ∧ i.rest? = some (.request command next) ∧
      s' = (s.perform i.context command).1.putInvocation id (i.goOn (next (s.perform i.context command).2)) := by
  obtain ⟨i, hi, htakes⟩ := takes_of_step h
  cases htakes with
  | called => exact Or.inl (.call s id i)
  | @advanced p _ hrest hadvance =>
    by_cases hrequest : ∃ command next, p = .request command next
    · obtain ⟨command, next, rfl⟩ := hrequest
      obtain rfl := Option.some.inj hadvance
      exact Or.inr ⟨i, command, next, hi, hrest, rfl⟩
    · exact Or.inl (.advance hs (fun command next hp => hrequest ⟨command, next, hp⟩) hadvance)
  | parked => exact Or.inl (.park s id i)
  | interrupted => exact Or.inl ((Quiet.park s id i).trans (.interrupt ..))

theorem Kept.step (hs : s.Proper) (h : s.Kept) (hstep : s.step id = some s') : s'.Kept := by
  rcases quiet_or_request_of_step hs hstep with hquiet | ⟨i, command, next, -, -, rfl⟩
  · exact h.calm hquiet.toCalm
  · exact (h.perform hs i.context command).calm (.of_same rfl rfl rfl)

theorem Kept.transition (hs : s.Proper) (h : s.Kept) (ht : Transition s s') : s'.Kept := by
  cases ht with
  | perform command => exact h.perform hs _ command
  | define => exact h.calm (.of_same rfl rfl rfl)
  | publish hp => exact h.calm (Quiet.publish hs hp).toCalm
  | watch publication => exact h.calm (Quiet.watch s publication).toCalm
  | take name => exact h.calm (.of_same rfl rfl rfl)
  | gather => exact h.calm (.of_same rfl rfl rfl)
  | reallocate => exact h.calm (.of_same rfl rfl rfl)
  | step hstep => exact h.step hs hstep

/-- In every session that can be reached, buses that nothing keeps are closed. -/
theorem Reachable.kept (h : s.Reachable) : s.Kept := by
  obtain ⟨tracing, h⟩ := h
  induction h with
  | refl =>
    intro bus hrunning
    cases hrunning
  | tail hprior ht ih => exact ih.transition (Reachable.proper ⟨tracing, hprior⟩) ht

end Session
end PubSub
