import PubSub.Proofs.Session.Owners
import PubSub.Proofs.Session.Provenance

/-!
# Buses that run

A bus that runs goes on running unless it is closed by a name or by an owner that has it, or loses all that keeps it.
-/

namespace PubSub

namespace Bus

variable {b b' : Bus} {handle : Handle}

theorem isOpen_subscribe {bindings : List (Key × Callback)} (h : b.subscribe bindings = .ok (b', handle)) :
    b'.id = b.id ∧ b'.isOpen = b.isOpen := by
  obtain ⟨-, rfl, -⟩ := subscribe_eq_ok_iff.1 h
  exact ⟨rfl, rfl⟩

theorem isOpen_subscribeHandlers {target : String} {handlers : List (Key × Callback)}
    (h : b.subscribeHandlers target handlers = .ok (b', handle)) : b'.id = b.id ∧ b'.isOpen = b.isOpen := by
  simp only [subscribeHandlers] at h
  split at h
  · cases h
  · exact isOpen_subscribe h

theorem isOpen_unsubscribe {removed : List (Key × Nat)} (h : b.unsubscribe handle = .ok (b', removed)) :
    b'.id = b.id ∧ b'.isOpen = b.isOpen := by
  obtain ⟨-, -, rfl, -⟩ := unsubscribe_eq_ok_iff.1 h
  exact ⟨rfl, rfl⟩

theorem isOpen_keysFor {declared : Name → Except Crash Descriptor} {cls : Name} {r : Resolution}
    (h : b.keysFor declared cls = .ok (r, b')) : b'.id = b.id ∧ b'.isOpen = b.isOpen := by
  obtain ⟨known, -, h⟩ := bind_eq_ok_iff.1 h
  cases h
  exact ⟨rfl, rfl⟩

end Bus

namespace Session

variable {s s' : Session} {ctx : Context} {b b' : Bus} {bus id : Nat} {i : Invocation}

section Same

theorem isRunning_of_same (h : s'.buses = s.buses) : s'.isRunning = s.isRunning :=
  funext fun _ => isRunning_congr h

theorem isRunning_putBus (hb : s.buses.get? b.id = some b) (h : b'.id = b.id ∧ b'.isOpen = b.isOpen) :
    (s.putBus b').isRunning = s.isRunning := by
  funext bus
  simp only [isRunning, putBus, Table.get?_put, h.1]
  split
  · obtain rfl : bus = b.id := ‹_›
    rw [hb]
    exact h.2
  · rfl

theorem isRunning_provided {α : Type} {found : Option α} {act : α → Session × Answer}
    (hact : ∀ a, found = some a → (act a).1.isRunning = s.isRunning) :
    (s.provided found act).1.isRunning = s.isRunning :=
  provided_cases (motive := fun r => r.1.isRunning = s.isRunning) rfl hact

theorem isRunning_unsubscribe (hb : s.buses.get? b.id = some b) (handle : Handle) :
    (s.unsubscribe b handle).1.isRunning = s.isRunning := by
  simp only [unsubscribe]
  cases hu : b.unsubscribe handle with
  | error e => rfl
  | ok r => exact (isRunning_of_same (aside_report ..).buses).trans (isRunning_putBus hb (Bus.isOpen_unsubscribe hu))

theorem isRunning_keysOn (hb : s.buses.get? b.id = some b) (cls : Name) :
    (s.keysOn b cls).1.isRunning = s.isRunning := by
  simp only [keysOn]
  split
  · rfl
  · cases hk : b.keysFor s.hierarchy.declared cls with
    | error c => rfl
    | ok r => exact isRunning_putBus hb (Bus.isOpen_keysFor hk)

private theorem isRunning_subscribed (hb : s.buses.get? b.id = some b) (handle : Option String)
    (table : Option (List Nat)) {result : Except BusError (Bus × Handle)}
    (h : ∀ b' handle, result = .ok (b', handle) → b'.id = b.id ∧ b'.isOpen = b.isOpen) :
    (s.subscribed b handle table result).1.isRunning = s.isRunning := by
  cases result with
  | error e => rfl
  | ok r =>
    have hput := isRunning_putBus hb (h r.1 r.2 rfl)
    have hplaced := isRunning_of_same (buses_placeAll (s.putBus r.1) b.id r.2.entries)
    have hreported := isRunning_of_same (aside_report ((s.putBus r.1).placeAll b.id r.2.entries)
      (b.optional (r.2.entries.map fun e => .subscribed e.1 e.2))).buses
    cases handle <;> exact (hreported.trans hplaced).trans hput

theorem isRunning_subscribe (hb : s.buses.get? b.id = some b) (o : Object) (route : Route) (handle : Option String) :
    (s.subscribe b o route handle).1.isRunning = s.isRunning := by
  unfold Session.subscribe
  split
  · exact isRunning_subscribed hb _ _ fun _ _ => Bus.isOpen_subscribeHandlers
  · simp only
    split
    · rfl
    · exact isRunning_subscribed (s := s.issue.1) hb _ _ fun _ _ => Bus.isOpen_subscribe

theorem isRunning_publishOn (hb : s.buses.get? b.id = some b) (ctx : Context) (e : Event) :
    (s.publishOn ctx b e).1.isRunning = s.isRunning := by
  simp only [publishOn]
  split
  · rfl
  · rename_i d hd
    have hput : (s.putBus { b with matcher := d.matcher }).isRunning = s.isRunning := isRunning_putBus hb ⟨rfl, rfl⟩
    split
    · exact hput
    · rename_i s₁ hs₁
      have hannounced := (isRunning_of_same (aside_announced hs₁).buses).trans hput
      cases d.plan with
      | refused error => exact hannounced
      | scheduled event targets => exact (isRunning_of_same (schedule_frame ..).1).trans hannounced

theorem isRunning_publish (hs : s.Proper) {p : Publish} {result : Except Crash Nat}
    (h : s.publish ctx p = some (s', result)) : s'.isRunning = s.isRunning := by
  simp only [publish] at h
  split at h
  · cases h
  · split at h
    · obtain ⟨rfl, -⟩ := Prod.mk.inj (Option.some.inj h)
      exact isRunning_publishOn (get?_of_bus? hs ‹_›) ctx _
    · cases h
    · split at h
      · cases h
      · obtain ⟨rfl, -⟩ := Prod.mk.inj (Option.some.inj h)
        rfl

theorem isRunning_publishMessage (hs : s.Proper) (ctx : Context) (name : String) (message : Message) :
    (s.publishMessage ctx name message).1.isRunning = s.isRunning := by
  simp only [publishMessage]
  split
  · exact isRunning_publishOn (get?_of_bus? hs ‹_›) ctx _
  · exact isRunning_publishOn (get?_of_bus? hs ‹_›) ctx _
  · rfl
  · rfl

theorem isRunning_startPublish (hs : s.Proper) (ctx : Context) (name : String) (p : Publish) :
    (s.startPublish ctx name p).1.isRunning = s.isRunning := by
  simp only [startPublish]
  split
  · rfl
  · exact isRunning_publish hs ‹_›
  · rename_i s₁ publication hp
    have hpublished : s₁.isRunning = s.isRunning := isRunning_publish hs hp
    exact hpublished

theorem isRunning_perform (hs : s.Proper) (ctx : Context) {command : Command} (hreassigns : command.reassigns = false)
    (hclose : ∀ name, command ≠ .close name) : (s.perform ctx command).1.isRunning = s.isRunning := by
  cases command with
  | openBus | clone | drop | managed | init | destroy | managedBus => cases hreassigns
  | close name => exact absurd rfl (hclose name)
  | keys name cls => exact isRunning_provided fun b hb => isRunning_keysOn (get?_of_bus? hs hb) cls
  | subscribe name object route handle =>
    exact isRunning_provided fun b hb => isRunning_provided fun o _ =>
      isRunning_subscribe (get?_of_bus? hs hb) o route handle
  | unsubscribe name handle =>
    exact isRunning_provided fun b hb => isRunning_provided fun handle _ =>
      isRunning_unsubscribe (get?_of_bus? hs hb) handle
  | start name p => exact isRunning_startPublish hs ctx name p
  | forget name =>
    refine isRunning_provided fun publication _ => ?_
    simp only [forget, unwatch]
    split <;> rfl
  | count name type => cases type <;> rfl
  | declare | object | release | alive | closed | debug | config | sameBus | handle | sameHandle | peak | calls => rfl

end Same

section Steps

private theorem isRunning_advance (hs : s.Proper) {p : Behaviour} (hcalm : ∀ command next, p ≠ .request command next)
    (h : s.advance id i p = some s') : s'.isRunning = s.isRunning := by
  cases p with
  | request command next => exact absurd rfl (hcalm command next)
  | reply value =>
    obtain rfl := Option.some.inj h
    exact isRunning_of_same ((buses_conclude ..).trans (aside_leaveCall ..).buses)
  | fail fault =>
    obtain rfl := Option.some.inj h
    exact isRunning_of_same (buses_failed ..)
  | crash c =>
    obtain rfl := Option.some.inj h
    exact isRunning_of_same (buses_failed ..)
  | later rest =>
    obtain rfl := Option.some.inj h
    exact isRunning_of_same (aside_leaveCall s i).buses
  | pass gate next =>
    simp only [advance] at h
    split at h
    · obtain rfl := Option.some.inj h
      rfl
    · cases h
  | publish name message next =>
    have hmade := isRunning_publishMessage hs i.context name message
    simp only [advance] at h
    split at h
    · rename_i s₁ c hs₁
      rw [hs₁] at hmade
      obtain rfl := Option.some.inj h
      exact (isRunning_of_same (buses_failed ..)).trans hmade
    · rename_i s₁ publication hs₁
      rw [hs₁] at hmade
      obtain rfl := Option.some.inj h
      exact hmade
  | await publication next =>
    simp only [advance] at h
    obtain ⟨p, -, h⟩ := Option.bind_eq_some_iff.1 h
    obtain ⟨result, -, h⟩ := Option.bind_eq_some_iff.1 h
    obtain rfl := Option.some.inj h
    exact isRunning_of_same (buses_watch ..)
  | record | arrive | forward | workerName =>
    obtain rfl := Option.some.inj h
    rfl

theorem isRunning_or_request_of_step (hs : s.Proper) (h : s.step id = some s') :
    s'.isRunning = s.isRunning ∨ ∃ i command next, s.invocations.get? id = some i ∧
      i.rest? = some (.request command next) ∧
      s' = (s.perform i.context command).1.putInvocation id (i.goOn (next (s.perform i.context command).2)) := by
  obtain ⟨i, hi, htakes⟩ := takes_of_step h
  cases htakes with
  | called => exact Or.inl (isRunning_of_same (buses_call ..))
  | @advanced p _ hrest hadvance =>
    by_cases hrequest : ∃ command next, p = .request command next
    · obtain ⟨command, next, rfl⟩ := hrequest
      obtain rfl := Option.some.inj hadvance
      exact Or.inr ⟨i, command, next, hi, hrest, rfl⟩
    · exact Or.inl (isRunning_advance hs (fun command next hp => hrequest ⟨command, next, hp⟩) hadvance)
  | parked => exact Or.inl (isRunning_of_same (buses_park ..))
  | interrupted => exact Or.inl (isRunning_of_same ((interrupt_frame ..).1.trans (buses_park ..)))

end Steps

section Ending

theorem isRunning_closeBus_of_ne (hne : bus ≠ b.id) : (s.closeBus b).isRunning bus = s.isRunning bus := by
  simp only [closeBus]
  split
  · rw [isRunning_congr (aside_report ..).buses, isRunning_congr (buses_stopWorkers ..)]
    simp only [isRunning, putBus]
    rw [Table.get?_put, if_neg (show ¬ bus = b.close.id from hne)]
  · rfl

theorem running_dropUnkept (hrunning : s.isRunning bus) (hkept : s.dropUnkept.isKept bus) :
    s.dropUnkept.isRunning bus := by
  rw [(Quiet.dropUnkept s).isKept] at hkept
  rw [isRunning, get?_dropUnkept hkept]
  exact hrunning

theorem running_openBus (hs : s.Proper) {config : Config} (h : s.openBus config = .ok (s', b))
    (hrunning : s.isRunning bus) : s'.isRunning bus := by
  obtain ⟨-, hb, hbuses⟩ := opened_of_openBus h
  obtain ⟨b', hb', hopen⟩ := isRunning_eq_true_iff.1 hrunning
  refine isRunning_eq_true_iff.2 ⟨b', ?_, hopen⟩
  have hold := (hs.bus bus b' hb').2
  rw [hbuses, Table.get?_put, if_neg, hb']
  rw [hb]
  show bus ≠ s.issued + 1
  omega

theorem running_initOwner (hs : s.Proper) (hrunning : s.isRunning bus) (name : String) (owner : Owner) :
    (s.initOwner name owner).1.isRunning bus := by
  simp only [initOwner]
  split
  · exact hrunning
  · cases ho : s.openBus owner.config with
    | error answer => exact hrunning
    | ok r =>
      have hopened : r.1.isRunning bus := running_openBus hs ho hrunning
      rw [isRunning_congr (aside_report ..).buses]
      exact hopened

theorem running_destroyOwner (hs : s.Proper) (hrunning : s.isRunning bus) {name : String} {owner : Owner}
    (hother : owner.bus ≠ some bus) (hkept : (s.destroyOwner name owner).isKept bus) :
    (s.destroyOwner name owner).isRunning bus := by
  cases hb : owner.bus.bind s.buses.get? with
  | none =>
    rw [destroyOwner_of_none hb]
    exact hrunning
  | some b =>
    obtain ⟨id, hbus, hid⟩ := Option.bind_eq_some_iff.1 hb
    obtain ⟨rfl, -⟩ := hs.bus id b hid
    have hne : bus ≠ b.id := fun he => hother (he ▸ hbus)
    simp only [destroyOwner, hb] at hkept ⊢
    refine running_dropUnkept ?_ hkept
    show ((s.closeBus b).report [.destroyed]).isRunning bus
    rw [isRunning_congr (aside_report ..).buses, isRunning_closeBus_of_ne hne]
    exact hrunning

/-- The requests that end a bus although it is kept. -/
inductive EndsBus (s : Session) (bus : Nat) : Command → Prop
  | close {name : String} {b : Bus} (hb : s.bus? name = some b) (hid : b.id = bus) : s.EndsBus bus (.close name)
  | destroy {name : String} {owner : Owner} (howner : s.owners.get? name = some owner) (hbus : owner.bus = some bus) :
    s.EndsBus bus (.destroy name)

private theorem running_provided {α : Type} {found : Option α} {act : α → Session × Answer}
    (hrunning : s.isRunning bus) (hkept : (s.provided found act).1.isKept bus)
    (hact : ∀ a, found = some a → (act a).1.isKept bus → (act a).1.isRunning bus) :
    (s.provided found act).1.isRunning bus :=
  provided_cases (motive := fun r => r.1.isKept bus → r.1.isRunning bus) (fun _ => hrunning) hact hkept

/-- A bus that is still kept after any other request goes on running. -/
theorem running_perform (hs : s.Proper) (ctx : Context) {command : Command} (hrunning : s.isRunning bus)
    (hkept : (s.perform ctx command).1.isKept bus) (hends : ¬ s.EndsBus bus command) :
    (s.perform ctx command).1.isRunning bus := by
  by_cases hsame : command.reassigns = false ∧ ∀ name, command ≠ .close name
  · rw [isRunning_perform hs ctx hsame.1 hsame.2]
    exact hrunning
  cases command with
  | close name =>
    refine running_provided hrunning hkept fun b hb _ => ?_
    rw [isRunning_closeBus_of_ne fun he => hends (.close hb he.symm)]
    exact hrunning
  | openBus name base settings =>
    simp only [perform] at hkept ⊢
    cases ho : s.openBus (settings.foldl Config.set base) with
    | error answer => exact hrunning
    | ok r =>
      rw [ho] at hkept
      have hopened : r.1.isRunning bus := running_openBus hs ho hrunning
      exact running_dropUnkept hopened hkept
  | clone name copy => exact running_provided hrunning hkept fun b _ => running_dropUnkept hrunning
  | drop name =>
    refine running_provided hrunning hkept fun hold _ => ?_
    simp only [dropName]
    split
    · exact running_dropUnkept hrunning
    · exact fun _ => hrunning
  | managed name config => exact running_dropUnkept hrunning hkept
  | init name => exact running_provided hrunning hkept fun owner _ _ => running_initOwner hs hrunning name owner
  | destroy name =>
    refine running_provided hrunning hkept fun owner howner => ?_
    exact running_destroyOwner hs hrunning fun hbus => hends (.destroy howner hbus)
  | managedBus name copy =>
    refine running_provided hrunning hkept fun owner _ => ?_
    cases owner.bus with
    | none => exact fun _ => hrunning
    | some id => exact running_dropUnkept hrunning
  | _ => exact absurd ⟨rfl, fun _ hclose => by cases hclose⟩ hsame

end Ending

end Session
end PubSub
