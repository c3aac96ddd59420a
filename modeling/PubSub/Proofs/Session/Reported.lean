import PubSub.Proofs.Session.Transitions

/-!
# Reported failures

While notices are taken down, every failure of a listener that enters the outcomes of a publication is reported by a
notice of its own, and no other failure is. It does not matter whether somebody awaits the publication.
-/

namespace PubSub

def Notice.failure? : Notice → Option ListenerFailure
  | listenerFailed f => some f
  | _ => none

def Publication.failures (p : Publication) : List ListenerFailure :=
  p.outcomes.filterMap Outcome.failure?

theorem Bus.failure?_of_publish {b : Bus} {declared : Name → Except Crash Descriptor} {depth : Nat} {e : Event}
    {d : Dispatch} (h : b.publish declared depth e = .ok d) : ∀ n ∈ d.notice, n.failure? = none := by
  have hdeliver (e : Event) (keys : Resolution) (m : Matcher) (targets : List (Subscription × Option View)) :
      ∀ n ∈ (b.deliver depth e keys m targets).notice, n.failure? = none := by
    intro n hn
    simp only [deliver, Option.mem_def] at hn
    split at hn
    · cases hn
      rfl
    · cases hn
  intro n hn
  cases decides_of_publish h with
  | closed | uncarried => cases hn
  | tooDeep =>
    cases hn
    rfl
  | heard | carried => exact hdeliver _ _ _ _ n hn
  | unheard =>
    simp only [Option.mem_def] at hn
    split at hn
    · cases hn
      rfl
    · cases hn

namespace Session

def reported (s : Session) : List ListenerFailure :=
  s.notices.filterMap Notice.failure?

def failures (s : Session) : List ListenerFailure :=
  s.publications.values.flatMap Publication.failures

/-- Notices are taken down, and they report all failures. -/
structure Reports (s : Session) : Prop where
  tracing : s.tracing
  publication : ∀ id p, s.publications.get? id = some p → id ≤ s.issued
  reported : s.reported.Perm s.failures

theorem reports_start : (start true).Reports where
  tracing := rfl
  publication _ _ h := by cases h
  reported := .refl _

namespace Reports

variable {s s' : Session}

theorem of_same (h : s.Reports) (htracing : s'.tracing = s.tracing) (hissued : s.issued ≤ s'.issued)
    (hpublications : s'.publications = s.publications) (hnotices : s'.notices = s.notices) : s'.Reports where
  tracing := htracing ▸ h.tracing
  publication id p hp := Nat.le_trans (h.publication id p (hpublications ▸ hp)) hissued
  reported := by
    have hreported := h.reported
    simp only [Session.reported, failures] at hreported ⊢
    rw [hpublications, hnotices]
    exact hreported

variable (h : s.Reports)
include h

section Ending

theorem report {ns : List Notice} (hns : ∀ n ∈ ns, n.failure? = none) : (s.report ns).Reports := by
  have hnone : ns.filterMap Notice.failure? = [] := List.filterMap_eq_nil_iff.2 hns
  have hreported := h.reported
  rw [Session.report, if_pos h.tracing]
  refine ⟨h.tracing, h.publication, ?_⟩
  simp only [Session.reported, List.filterMap_append, hnone, List.append_nil] at hreported ⊢
  exact hreported

theorem record {id : Nat} {p p' : Publication} (hp : s.publications.get? id = some p) {ns : List Notice}
    (hfailures : p'.failures = p.failures ++ ns.filterMap Notice.failure?) :
    Reports { s with publications := s.publications.put id p', notices := s.notices ++ ns } := by
  obtain ⟨before, after, hvalues, hput⟩ := Table.values_put_of_some hp
  refine ⟨h.tracing, fun q q' hq => ?_, ?_⟩
  · simp only [Table.get?_put] at hq
    split at hq
    · obtain rfl : q = id := ‹_›
      exact h.publication q p hp
    · exact h.publication q q' hq
  · have hreported := h.reported
    simp only [Session.reported, failures, hvalues, List.flatMap_append, List.flatMap_cons] at hreported
    simp only [Session.reported, failures, hput, hfailures, List.filterMap_append, List.flatMap_append,
      List.flatMap_cons, List.append_assoc]
    -- the failures of the publication come before those of later ones, the reports of them after
    refine (hreported.append_right _).trans ?_
    simp only [List.append_assoc]
    exact .append_left _ (.append_left _ List.perm_append_comm)

theorem putPublication {id : Nat} {p p' : Publication} (hp : s.publications.get? id = some p)
    (hfailures : p'.failures = p.failures) : (s.putPublication id p').Reports :=
  (h.record hp (hfailures.trans (List.append_nil _).symm)).of_same rfl (Nat.le_refl _) rfl (List.append_nil _).symm

theorem openPublication {p : Publication} (hp : p.failures = []) :
    (s.issue.1.putPublication s.issue.2 p).Reports := by
  have hnew : s.publications.get? (s.issued + 1) = none := by
    cases hq : s.publications.get? (s.issued + 1) with
    | none => rfl
    | some q => exact absurd (h.publication _ q hq) (Nat.not_succ_le_self _)
  refine ⟨h.tracing, fun q q' hq => ?_, ?_⟩
  · simp only [Session.putPublication, issue, Table.get?_put] at hq
    split at hq
    · exact Nat.le_of_eq ‹_›
    · exact Nat.le_succ_of_le (h.publication q q' hq)
  · have hreported := h.reported
    simp only [Session.putPublication, issue, failures, Table.values_put_of_none hnew, List.flatMap_cons, hp]
    exact hreported

theorem watch (publication : Nat) : (s.watch publication).Reports := by
  unfold Session.watch
  split
  · exact h
  · rename_i p hp
    split
    · exact h
    · have hsame : p.await.failures = p.failures := rfl
      exact Reports.report (h.putPublication hp hsame) (List.forall_mem_map.2 fun o _ => rfl)

theorem unwatch (publication : Nat) : (s.unwatch publication).Reports := by
  unfold Session.unwatch
  split
  · exact h
  · rename_i p hp
    exact h.putPublication hp rfl

theorem finish (id : Nat) (i : Invocation) {o : Outcome} (ho : o.failure? = none) : (s.finish id i o).Reports := by
  have hgone : Reports { s with invocations := s.invocations.erase id } :=
    h.of_same rfl (Nat.le_refl _) rfl rfl
  cases hp : s.publications.get? i.publication with
  | none =>
    simp only [Session.finish, hp]
    exact hgone
  | some p =>
    simp only [Session.finish, hp]
    have hadded : (p.add id o).failures = p.failures := by
      simp [Publication.failures, ho]
    refine Reports.report (hgone.putPublication hp hadded) ?_
    split
    · exact List.forall_mem_singleton.2 rfl
    · exact List.forall_mem_nil _

/-- A failure is reported as it is recorded. -/
theorem finish_failed (id : Nat) {i : Invocation} {p : Publication} (hp : s.publications.get? i.publication = some p)
    (f : ListenerFailure) : ((s.report [.listenerFailed f]).finish id i (.failed f)).Reports := by
  have hadded : (p.add id (.failed f)).failures = p.failures ++ [Notice.listenerFailed f].filterMap Notice.failure? := by
    simp [Publication.failures, Outcome.failure?, Notice.failure?]
  -- a failure is no crash, so that a watched publication gives no notice of its own
  have hfinish : (s.report [.listenerFailed f]).finish id i (.failed f) =
      ({ s with
        invocations := s.invocations.erase id
        publications := s.publications.put i.publication (p.add id (.failed f))
        notices := s.notices ++ [.listenerFailed f] } : Session).report [] := by
    rw [Session.report, if_pos h.tracing]
    simp only [Session.finish, hp, Outcome.hasCrashed, Bool.and_false, Bool.false_eq_true, if_false]
    rfl
  rw [hfinish]
  refine Reports.report ?_ (List.forall_mem_nil _)
  exact (h.record hp hadded).of_same rfl (Nat.le_refl _) rfl rfl

theorem conclude (id : Nat) {i : Invocation} {p : Publication} (hp : s.publications.get? i.publication = some p)
    (result : Except ListenerError (Option Value)) : (s.conclude id i result).Reports := by
  unfold Session.conclude
  split
  · exact h.finish id i rfl
  · split
    · exact h.finish id i rfl
    · exact h.finish_failed id hp _

theorem leaveCall (i : Invocation) : (s.leaveCall i).Reports := by
  unfold Session.leaveCall
  split
  · exact h.of_same rfl (Nat.le_refl _) rfl rfl
  · exact h

theorem abandonWait (id : Nat) (i : Invocation) : (s.abandonWait id i).Reports := by
  unfold Session.abandonWait
  split
  · exact h.unwatch _
  · exact h.of_same rfl (Nat.le_refl _) rfl rfl
  · exact h

theorem interrupt (id : Nat) (i : Invocation) : (s.interrupt id i).Reports :=
  Reports.finish (Reports.abandonWait (h.leaveCall i) id i) id i rfl

omit h in
private theorem foldl {α : Type} {f : Session → α → Session} (hf : ∀ s a, s.Reports → (f s a).Reports) (l : List α)
    (h : s.Reports) : (l.foldl f s).Reports := by
  induction l generalizing s with
  | nil => exact h
  | cons a l ih => exact ih (hf s a h)

theorem stopWorkers (bus : Nat) : (s.stopWorkers bus).Reports := by
  refine foldl (fun s e h => ?_) _ h
  split
  · exact h.interrupt e.1 e.2
  · exact h

theorem putBus (b : Bus) : (s.putBus b).Reports :=
  h.of_same rfl (Nat.le_refl _) rfl rfl

theorem report_optional (b : Bus) {ns : List Notice} (hns : ∀ n ∈ ns, n.failure? = none) :
    (s.report (b.optional ns)).Reports := by
  refine h.report fun n hn => ?_
  unfold Bus.optional at hn
  split at hn
  · exact hns n hn
  · cases hn

theorem closeBus (b : Bus) : (s.closeBus b).Reports := by
  unfold Session.closeBus
  split
  · exact Reports.report_optional (Reports.stopWorkers (h.putBus b.close) b.id) b (List.forall_mem_singleton.2 rfl)
  · exact h

theorem dropUnkept : s.dropUnkept.Reports := by
  refine foldl (fun s b h => ?_) _ h
  split
  · exact Reports.stopWorkers (h.putBus b.close) b.id
  · exact h

end Ending

section Publishing

variable (ctx : Context)

theorem issue : s.issue.1.Reports :=
  h.of_same rfl (Nat.le_succ _) rfl rfl

theorem putInvocation (id : Nat) (i : Invocation) : (s.putInvocation id i).Reports :=
  h.of_same rfl (Nat.le_refl _) rfl rfl

theorem refuse (error : PublishError) : (s.refuse error).1.Reports :=
  h.openPublication rfl

theorem schedule (bus : Nat) (plan : Plan) : (s.schedule ctx bus plan).1.Reports := by
  cases plan with
  | refused error => exact h.refuse error
  | scheduled event targets =>
    exact foldl (fun s target h => h.issue.putInvocation _ _) targets (h.openPublication rfl)

omit ctx in
theorem announced {notice : Option Notice} (hnotice : ∀ n ∈ notice, n.failure? = none)
    (h₁ : notice.elim (.ok s) s.announce = .ok s') : s'.Reports := by
  cases notice with
  | none =>
    obtain rfl := Except.ok.inj h₁
    exact h
  | some n =>
    simp only [Option.elim_some, announce] at h₁
    split at h₁
    · obtain ⟨line, -, rfl⟩ := map_eq_ok_iff.1 h₁
      exact h.report (List.forall_mem_singleton.2 (hnotice n rfl))
    · obtain rfl := Except.ok.inj h₁
      exact h

theorem publishOn (b : Bus) (e : Event) : (s.publishOn ctx b e).1.Reports := by
  cases hd : b.publish s.hierarchy.declared ctx.depth e with
  | error c =>
    simp only [Session.publishOn, hd]
    exact h
  | ok d =>
    have hput := h.putBus { b with matcher := d.matcher }
    simp only [Session.publishOn, hd]
    split
    · exact hput
    · exact Reports.schedule (hput.announced (Bus.failure?_of_publish hd) ‹_›) ctx b.id d.plan

theorem publish {p : Publish} {result : Except Crash Nat} (hp : s.publish ctx p = some (s', result)) : s'.Reports := by
  unfold Session.publish at hp
  split at hp
  · cases hp
  · split at hp
    · obtain ⟨rfl, -⟩ := Prod.mk.inj (Option.some.inj hp)
      exact h.publishOn ctx _ _
    · cases hp
    · split at hp
      · cases hp
      · obtain ⟨rfl, -⟩ := Prod.mk.inj (Option.some.inj hp)
        exact h.refuse _

theorem publishMessage (bus : String) (message : Message) : (s.publishMessage ctx bus message).1.Reports := by
  unfold Session.publishMessage
  split
  · exact h.publishOn ctx _ _
  · exact h.publishOn ctx _ _
  · exact h.refuse _
  · exact h

end Publishing

section Commands

theorem subscribed (b : Bus) (handle : Option String) (table : Option (List Nat))
    (result : Except BusError (Bus × Handle)) : (s.subscribed b handle table result).1.Reports := by
  cases result with
  | error e => exact h
  | ok x =>
    have hminor : ∀ n ∈ x.2.entries.map (fun e => Notice.subscribed e.1 e.2), n.failure? = none :=
      List.forall_mem_map.2 fun e _ => rfl
    obtain ⟨addresses, hplaced⟩ := exists_placeAll (s.putBus x.1) b.id x.2.entries
    have hput : Reports ((s.putBus x.1).placeAll b.id x.2.entries) := by
      rw [hplaced]
      exact (h.putBus x.1).of_same rfl (Nat.le_refl _) rfl rfl
    have hreported := Reports.report_optional hput b hminor
    cases handle with
    | none => exact hreported
    | some name => exact hreported.of_same rfl (Nat.le_refl _) rfl rfl

theorem subscribe (b : Bus) (o : Object) (route : Route) (handle : Option String) :
    (s.subscribe b o route handle).1.Reports := by
  unfold Session.subscribe
  split
  · exact h.subscribed ..
  · dsimp only
    split
    · exact h.issue
    · exact Reports.subscribed h.issue ..

theorem unsubscribe (b : Bus) (handle : Handle) : (s.unsubscribe b handle).1.Reports := by
  unfold Session.unsubscribe
  split
  · exact h
  · exact Reports.report_optional (h.putBus _) b (List.forall_mem_map.2 fun e _ => rfl)

theorem hold (name : String) (bus : Nat) : (s.hold name bus).Reports :=
  dropUnkept (h.of_same rfl (Nat.le_refl _) rfl rfl)

theorem openBus {config : Config} {b : Bus} (hopened : s.openBus config = .ok (s', b)) : s'.Reports := by
  simp only [Session.openBus, bind_eq_ok_iff, pure_eq_ok_iff] at hopened
  obtain ⟨b', -, -, -, hsame⟩ := hopened
  obtain ⟨rfl, -⟩ := Prod.mk.inj hsame
  exact Reports.report_optional (Reports.putBus h.issue b') b' (List.forall_mem_singleton.2 rfl)

theorem initOwner (name : String) (owner : Owner) : (s.initOwner name owner).1.Reports := by
  unfold Session.initOwner
  split
  · exact h
  · split
    · exact h
    · rename_i s₁ b hopened
      have howner : Reports { s₁ with owners := s₁.owners.put name { owner with bus := some b.id } } :=
        (h.openBus hopened).of_same rfl (Nat.le_refl _) rfl rfl
      exact Reports.report howner (List.forall_mem_singleton.2 rfl)

theorem destroyOwner (name : String) (owner : Owner) : (s.destroyOwner name owner).Reports := by
  unfold Session.destroyOwner
  split
  · exact h
  · have hnone : Notice.destroyed.failure? = none := rfl
    have hreported := Reports.report (h.closeBus ‹_›) (List.forall_mem_singleton.2 hnone)
    exact dropUnkept (of_same hreported rfl (Nat.le_refl _) rfl rfl)

theorem dropName (name : String) (hold : Hold) : (s.dropName name hold).1.Reports := by
  unfold Session.dropName
  split
  · exact dropUnkept (h.of_same rfl (Nat.le_refl _) rfl rfl)
  · exact h

theorem keysOn (b : Bus) (cls : Name) : (s.keysOn b cls).1.Reports := by
  unfold Session.keysOn
  split
  · exact h
  · split
    · exact h
    · exact h.putBus _

theorem startPublish (ctx : Context) (name : String) (p : Publish) : (s.startPublish ctx name p).1.Reports := by
  unfold Session.startPublish
  split
  · exact h
  · exact h.publish ctx ‹_›
  · rename_i s₁ publication hpublished
    have hpublished := h.publish ctx hpublished
    exact hpublished.of_same rfl (Nat.le_refl _) rfl rfl

theorem provided {α : Type} {found : Option α} {act : α → Session × Answer} (hact : ∀ a, (act a).1.Reports) :
    (s.provided found act).1.Reports :=
  provided_cases (motive := fun r => r.1.Reports) h fun a _ => hact a

theorem perform (ctx : Context) (command : Command) : (s.perform ctx command).1.Reports := by
  cases command with
  | declare later => exact h.of_same rfl (Nat.le_refl _) rfl rfl
  | openBus name base settings =>
    simp only [Session.perform]
    split
    · exact h
    · exact Reports.hold (h.openBus ‹_›) name _
  | clone name copy => exact h.provided fun b => h.hold copy b.id
  | drop name => exact h.provided fun hold => h.dropName name hold
  | close name => exact h.provided fun b => h.closeBus b
  | count name type => cases type <;> exact h
  | keys name cls => exact h.provided fun b => h.keysOn b cls
  | object name label threadSafe script methods => exact of_same h.issue rfl (Nat.le_refl _) rfl rfl
  | subscribe name object route handle => exact h.provided fun b => h.provided fun o => h.subscribe b o route handle
  | unsubscribe name handle => exact h.provided fun b => h.provided fun receipt => h.unsubscribe b receipt
  | start name p => exact h.startPublish ctx name p
  | forget name => exact h.provided fun publication => of_same (h.unwatch publication) rfl (Nat.le_refl _) rfl rfl
  | release gate permits => exact h.of_same rfl (Nat.le_refl _) rfl rfl
  | managed name config => exact dropUnkept (h.of_same rfl (Nat.le_refl _) rfl rfl)
  | init name => exact h.provided fun owner => h.initOwner name owner
  | destroy name => exact h.provided fun owner => h.destroyOwner name owner
  | managedBus name bus =>
    refine h.provided fun owner => ?_
    split
    · exact h
    · exact h.hold bus _
  | alive | closed | debug | config | sameBus | handle | sameHandle | peak | calls => exact h

end Commands

section Steps

variable {id : Nat} {i : Invocation}

theorem failed {p : Publication} (hp : s.publications.get? i.publication = some p) (cause : ListenerError) :
    (s.failed id i cause).Reports :=
  conclude (h.leaveCall i) id ((aside_leaveCall s i).publications ▸ hp) _

theorem changeActivity (object : Nat) (f : Activity → Activity) : (s.changeActivity object f).Reports :=
  h.of_same rfl (Nat.le_refl _) rfl rfl

theorem changeGate (gate : String) (f : Gate → Gate) : (s.changeGate gate f).Reports :=
  h.of_same rfl (Nat.le_refl _) rfl rfl

theorem call {p : Publication} (hp : s.publications.get? i.publication = some p) : (s.call id i).Reports := by
  unfold Session.call
  dsimp only
  split
  · exact h.conclude id hp _
  · exact h.conclude id hp _
  · exact Reports.putInvocation (h.changeActivity ..) id _

omit h in
private theorem publication_of_crashed (hs : s.Proper) {ctx : Context} {bus : String} {message : Message} {c : Crash}
    (hc : s.publishMessage ctx bus message = (s', .error c)) {p : Publication}
    (hp : s.publications.get? id = some p) : ∃ p', s'.publications.get? id = some p' := by
  rcases publishMessage_cases hs ctx bus message with ⟨_, -, heffects⟩ | hnone | ⟨_, hok, -⟩
  · rw [hc] at heffects
    have hextends : s.Extends (· = .outermost) s' := .effects heffects
    obtain ⟨p', hp', -⟩ := hextends.publication _ p hp
    exact ⟨p', hp'⟩
  · rw [hc] at hnone
    cases hnone
  · rw [hc] at hok
    cases hok

theorem advance (hs : s.Proper) {p : Publication} (hp : s.publications.get? i.publication = some p)
    {behaviour : Behaviour} (ha : s.advance id i behaviour = some s') : s'.Reports := by
  cases behaviour with
  | reply value =>
    obtain rfl := Option.some.inj ha
    exact conclude (h.leaveCall i) id ((aside_leaveCall s i).publications ▸ hp) _
  | fail fault =>
    obtain rfl := Option.some.inj ha
    exact h.failed hp _
  | crash c =>
    obtain rfl := Option.some.inj ha
    exact h.failed hp _
  | later rest =>
    obtain rfl := Option.some.inj ha
    exact Reports.putInvocation (h.leaveCall i) id _
  | request command next =>
    obtain rfl := Option.some.inj ha
    exact Reports.putInvocation (h.perform i.context command) id _
  | record entry next =>
    obtain rfl := Option.some.inj ha
    exact h.of_same rfl (Nat.le_refl _) rfl rfl
  | arrive gate next =>
    obtain rfl := Option.some.inj ha
    exact Reports.putInvocation (h.changeGate gate _) id _
  | pass gate next =>
    simp only [Session.advance] at ha
    split at ha
    · obtain rfl := Option.some.inj ha
      exact Reports.putInvocation (h.changeGate gate _) id _
    · cases ha
  | publish bus message next =>
    have hreports := h.publishMessage i.context bus message
    cases hpublished : s.publishMessage i.context bus message with
    | mk s₁ result =>
      simp only [Session.advance, hpublished] at ha
      rw [hpublished] at hreports
      cases result with
      | ok publication =>
        obtain rfl := Option.some.inj ha
        exact Reports.putInvocation hreports id _
      | error c =>
        obtain rfl := Option.some.inj ha
        obtain ⟨p₁, hp₁⟩ := publication_of_crashed hs hpublished hp
        exact hreports.failed hp₁ _
  | await publication next =>
    obtain ⟨result, -, hresult⟩ := Option.bind_eq_some_iff.1 ha
    obtain ⟨outcome, -, hs'⟩ := Option.bind_eq_some_iff.1 hresult
    obtain rfl := Option.some.inj hs'
    exact Reports.putInvocation (h.watch publication) id _
  | forward publication next =>
    obtain rfl := Option.some.inj ha
    exact h.of_same rfl (Nat.le_refl _) rfl rfl
  | workerName next =>
    obtain rfl := Option.some.inj ha
    exact h.putInvocation id _

theorem park : (s.park id i).Reports := by
  have hissued := h.issue
  unfold Session.park
  dsimp only
  split
  · exact Reports.putInvocation (hissued.watch _) id _
  · exact Reports.putInvocation (hissued.changeGate _ _) id _
  · exact hissued.putInvocation id _

theorem step (hs : s.Proper) (hstep : s.step id = some s') : s'.Reports := by
  obtain ⟨i, hi, htakes⟩ := takes_of_step hstep
  obtain ⟨p, hp⟩ := hs.belongs id i hi
  cases htakes with
  | called => exact h.call hp
  | advanced _ hadvance => exact h.advance hs hp hadvance
  | parked => exact h.park
  | interrupted => exact Reports.interrupt h.park id i

end Steps

end Reports
end Session
end PubSub
