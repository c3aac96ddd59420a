import PubSub.Proofs.Operations
import PubSub.Proofs.Session.Transitions

/-!
# Refusals

What a request leaves behind that is refused, or that ends in a crash of some type's declaration: nothing that any bus
or listener could tell. A publish that fails at once leaves a publication that says so.
-/

namespace PubSub

/-- A refusal, or the crash of a declaration. -/
inductive Answer.Fails : Answer → Prop
  | refused (error : BusError) (table : Option (List Nat)) : Fails (.refused error table)
  | mismatched (parent : Key) : Fails (.crashed (.castMismatch parent))

theorem Event.unprintable_of_debug {e : Event} {c : Crash} (h : e.debug = .error c) : c = .unprintable := by
  induction e with
  | value p =>
    simp only [debug] at h
    split at h
    · exact (Except.error.inj h).symm
    · cases h
  | dead e ih =>
    rcases bind_eq_error_iff.1 h with h | ⟨text, -, h⟩
    · exact ih h
    · cases h

theorem Notice.unprintable_of_line {n : Notice} {c : Crash} (h : n.line = .error c) : c = .unprintable := by
  rcases bind_eq_error_iff.1 h with h | ⟨fields, -, h⟩
  · cases n with
    | publishing | unheard | depthReached =>
      rcases bind_eq_error_iff.1 h with h | ⟨text, -, h⟩
      · exact Event.unprintable_of_debug h
      · cases h
    | started | closed | subscribed | unsubscribed | listenerFailed | listenerCrashed | initialized | destroyed =>
      cases h
  · cases h

theorem Publication.underWay_not_failed (scheduled : Nat) (error : PublishError) :
    (underWay scheduled).result? ≠ some (.error error) := by
  cases scheduled with
  | zero =>
    intro h
    cases Option.some.inj h
  | succ scheduled =>
    intro h
    cases h

namespace Session

variable {s s' : Session} {b : Bus} {ctx : Context} {e : Event} {publication : Nat} {error : PublishError}

section Publishing

private theorem announced_of_ok {notice : Option Notice} (h : notice.elim (.ok s) s.announce = .ok s') :
    s' = { s with notices := s'.notices } := by
  cases notice with
  | none =>
    obtain rfl := Except.ok.inj h
    rfl
  | some n =>
    simp only [Option.elim_some, announce] at h
    split at h
    · obtain ⟨line, -, rfl⟩ := map_eq_ok_iff.1 h
      simp only [report]
      split <;> rfl
    · obtain rfl := Except.ok.inj h
      rfl

private theorem announced_of_error {notice : Option Notice} {c : Crash}
    (h : notice.elim (.ok s) s.announce = .error c) : c = .unprintable := by
  cases notice with
  | none => cases h
  | some n =>
    simp only [Option.elim_some, announce] at h
    split at h
    · exact Notice.unprintable_of_line (map_eq_error_iff.1 h)
    · cases h

theorem publishOn_of_mismatch {parent : Key} (h : s.publishOn ctx b e = (s', .error (.castMismatch parent))) :
    s' = s := by
  simp only [publishOn] at h
  split at h
  · cases h
    rfl
  · split at h
    · rename_i c hc
      cases h
      cases announced_of_error hc
    · cases h

/-- All that is left of a publish that failed at once. -/
structure LeftBehind (ctx : Context) (s s' : Session) (publication : Nat) (error : PublishError) : Prop where
  reason : error = .closed ∨ ∃ limit, error = .depthExceeded ctx.depth limit
  buses : s'.buses = s.buses
  invocations : s'.invocations = s.invocations
  publication : publication = (s.refuse error).2
  rest : s' = { (s.refuse error).1 with notices := s'.notices }

theorem leftBehind_refuse (ctx : Context) (s : Session) :
    LeftBehind ctx s (s.refuse .closed).1 (s.refuse .closed).2 .closed :=
  ⟨Or.inl rfl, rfl, rfl, rfl, rfl⟩

def FailedAtOnce (s : Session) (publication : Nat) (error : PublishError) : Prop :=
  ∃ q, s.publications.get? publication = some q ∧ q.result? = some (.error error)

private theorem failedAtOnce_refuse (h : (s.refuse .closed).1.FailedAtOnce (s.refuse .closed).2 error) :
    error = .closed := by
  obtain ⟨q, hq, hresult⟩ := h
  obtain rfl := Option.some.inj (((Table.get?_put ..).trans (if_pos rfl)).symm.trans hq)
  cases hresult
  rfl

theorem leftBehind_of_publishOn (hb : s.buses.get? b.id = some b) (h : s.publishOn ctx b e = (s', .ok publication))
    (hfailed : s'.FailedAtOnce publication error) : LeftBehind ctx s s' publication error := by
  obtain ⟨q, hq, hresult⟩ := hfailed
  simp only [publishOn] at h
  split at h
  · cases h
  rename_i d hd
  split at h
  · cases h
  rename_i s₁ hannounced
  cases hplan : d.plan with
  | refused error' =>
    obtain ⟨hmatcher, hreason⟩ := Bus.refused_of_publish hd hplan
    have hsame : s.putBus { b with matcher := d.matcher } = s := by
      rw [hmatcher, putBus, Table.put_of_get? hb]
    rw [hsame] at hannounced
    obtain ⟨rfl, hp⟩ := Prod.mk.inj h
    obtain rfl := Except.ok.inj hp
    rw [hplan] at hq ⊢
    obtain rfl := Option.some.inj (((Table.get?_put ..).trans (if_pos rfl)).symm.trans hq)
    obtain rfl : error' = error := by simpa [Publication.result?, Publication.refused] using hresult
    rw [announced_of_ok hannounced]
    exact ⟨hreason, rfl, rfl, rfl, rfl⟩
  | scheduled event targets =>
    obtain ⟨rfl, hp⟩ := Prod.mk.inj h
    obtain rfl := Except.ok.inj hp
    rw [hplan] at hq
    have hunderWay : some (Publication.underWay targets.length) = some q :=
      (((get?_publications_schedule ..).trans (if_pos rfl)).symm.trans hq)
    obtain rfl := Option.some.inj hunderWay
    exact absurd hresult (Publication.underWay_not_failed _ _)

theorem mismatch_of_publish {p : Publish} {parent : Key}
    (h : s.publish ctx p = some (s', .error (.castMismatch parent))) : s' = s := by
  simp only [publish] at h
  split at h
  · cases h
  · split at h
    · exact publishOn_of_mismatch (Option.some.inj h)
    · cases h
    · split at h <;> cases h

theorem mismatch_of_publishMessage {bus : String} {message : Message} {parent : Key}
    (h : s.publishMessage ctx bus message = (s', .error (.castMismatch parent))) : s' = s := by
  have hpublishOn {b : Bus} {e : Event}
      (h : ((s.publishOn ctx b e).1, (s.publishOn ctx b e).2.map some) = (s', .error (.castMismatch parent))) :
      s' = s := by
    obtain ⟨hs', hcrash⟩ := Prod.mk.inj h
    exact publishOn_of_mismatch (Prod.ext hs' (map_eq_error_iff.1 hcrash))
  simp only [publishMessage] at h
  split at h
  · exact hpublishOn h
  · exact hpublishOn h
  · cases h
  · cases h

theorem leftBehind_of_publish (hs : s.Proper) {p : Publish} (h : s.publish ctx p = some (s', .ok publication))
    (hfailed : s'.FailedAtOnce publication error) : LeftBehind ctx s s' publication error := by
  simp only [publish] at h
  split at h
  · cases h
  · split at h
    · exact leftBehind_of_publishOn (get?_of_bus? hs ‹_›) (Option.some.inj h) hfailed
    · cases h
    · split at h
      · cases h
      · cases h
        obtain rfl := failedAtOnce_refuse hfailed
        exact leftBehind_refuse ctx s

theorem leftBehind_of_publishMessage (hs : s.Proper) {bus : String} {message : Message}
    (h : s.publishMessage ctx bus message = (s', .ok (some publication)))
    (hfailed : s'.FailedAtOnce publication error) : LeftBehind ctx s s' publication error := by
  have hpublishOn {b : Bus} {e : Event} (hb : s.bus? bus = some b)
      (h : ((s.publishOn ctx b e).1, (s.publishOn ctx b e).2.map some) = (s', .ok (some publication))) :
      LeftBehind ctx s s' publication error := by
    obtain ⟨hs', hok⟩ := Prod.mk.inj h
    obtain ⟨publication', hpublication, hsome⟩ := map_eq_ok_iff.1 hok
    obtain rfl := Option.some.inj hsome
    exact leftBehind_of_publishOn (get?_of_bus? hs hb) (Prod.ext hs' hpublication) hfailed
  simp only [publishMessage] at h
  split at h
  · exact hpublishOn ‹_› h
  · exact hpublishOn ‹_› h
  · cases h
    obtain rfl := failedAtOnce_refuse hfailed
    exact leftBehind_refuse ctx s
  · cases h

end Publishing

section Commands

/-- If the answer is a failure, at most a new identity was given out. -/
private def Harmless (s : Session) (r : Session × Answer) : Prop :=
  r.2.Fails → r.1 = { s with issued := r.1.issued }

private theorem harmless_of_ok (s' : Session) : Harmless s (s', .ok) := by
  intro h
  cases h

private theorem harmless_same (answer : Answer) : Harmless s (s, answer) := by
  intro _
  rfl

private theorem harmless_provided {α : Type} {found : Option α} {act : α → Session × Answer}
    (h : ∀ a, Harmless s (act a)) : Harmless s (s.provided found act) :=
  provided_cases (harmless_same _) fun a _ => h a

private theorem harmless_dropName (name : String) (hold : Hold) : Harmless s (s.dropName name hold) := by
  simp only [dropName]
  split
  · exact harmless_of_ok _
  · exact harmless_same _

private theorem harmless_keysOn (b : Bus) (cls : Name) : Harmless s (s.keysOn b cls) := by
  simp only [keysOn]
  split
  · exact harmless_same _
  · split
    · exact harmless_same _
    · intro h
      cases h

private theorem harmless_subscribed (b : Bus) (handle : Option String) (table : Option (List Nat))
    (result : Except BusError (Bus × Handle)) : Harmless s (s.subscribed b handle table result) := by
  cases result with
  | error e => exact harmless_same _
  | ok p =>
    intro h
    cases h

private theorem harmless_subscribe (b : Bus) (o : Object) (route : Route) (handle : Option String) :
    Harmless s (s.subscribe b o route handle) := by
  unfold Session.subscribe
  split
  · exact harmless_subscribed _ _ _ _
  · simp only
    split
    · intro h
      cases h
    · intro h
      rw [harmless_subscribed _ _ _ _ h]
      rfl

private theorem harmless_unsubscribe (b : Bus) (handle : Handle) : Harmless s (s.unsubscribe b handle) := by
  simp only [Session.unsubscribe]
  split
  · exact harmless_same _
  · exact harmless_of_ok _

private theorem harmless_initOwner (name : String) (owner : Owner) : Harmless s (s.initOwner name owner) := by
  simp only [initOwner]
  split
  · exact harmless_same _
  · split
    · exact harmless_same _
    · exact harmless_of_ok _

private theorem harmless_startPublish (name : String) (p : Publish) : Harmless s (s.startPublish ctx name p) := by
  simp only [startPublish]
  split
  · exact harmless_same _
  · rename_i s' c hcrash
    intro h
    cases h
    rw [mismatch_of_publish hcrash]
  · intro h
    cases h

theorem perform_of_failure (command : Command) (h : (s.perform ctx command).2.Fails) :
    (s.perform ctx command).1 = { s with issued := (s.perform ctx command).1.issued } := by
  have hharmless : Harmless s (s.perform ctx command) := by
    cases command with
    | declare | object | release | managed => exact harmless_of_ok _
    | openBus name base settings =>
      simp only [perform]
      split
      · exact harmless_same _
      · exact harmless_of_ok _
    | clone name copy => exact harmless_provided fun b => harmless_of_ok _
    | drop name => exact harmless_provided (harmless_dropName name)
    | close name => exact harmless_provided fun b => harmless_of_ok _
    | keys name cls => exact harmless_provided fun b => harmless_keysOn b cls
    | subscribe name object route handle =>
      exact harmless_provided fun b => harmless_provided fun o => harmless_subscribe b o route handle
    | unsubscribe name handle => exact harmless_provided fun b => harmless_provided (harmless_unsubscribe b)
    | start name p => exact harmless_startPublish name p
    | forget name => exact harmless_provided fun publication => harmless_of_ok _
    | init name => exact harmless_provided (harmless_initOwner name)
    | destroy name => exact harmless_provided fun owner => harmless_of_ok _
    | managedBus name bus =>
      refine harmless_provided fun owner => ?_
      cases owner.bus with
      | none => exact harmless_same _
      | some id =>
        intro h
        cases h
    | count name type => cases type <;> exact harmless_same _
    | alive | closed | debug | config | sameBus | handle | sameHandle | peak | calls => exact harmless_same _
  exact hharmless h

end Commands

/-- Whatever is refused, and whatever ends because a declaration casts to the wrong type, leaves all buses and all
invocations as they are: a request, at most, has given out an identity. A publish that fails at once fails because its
bus is closed, or because it is too deep; it leaves a publication that says so, and at most a notice. A bus by itself
answers all later operations as if those that failed had never been made. -/
theorem failures_leave_no_trace (hs : s.Reachable) :
    (∀ ctx command, (s.perform ctx command).2.Fails →
      (s.perform ctx command).1 = { s with issued := (s.perform ctx command).1.issued }) ∧
    (∀ ctx p s' parent, s.publish ctx p = some (s', .error (.castMismatch parent)) → s' = s) ∧
    (∀ ctx bus message s' parent, s.publishMessage ctx bus message = (s', .error (.castMismatch parent)) →
      s' = s) ∧
    (∀ ctx p s' publication, s.publish ctx p = some (s', .ok publication) →
      ∀ error, s'.FailedAtOnce publication error → LeftBehind ctx s s' publication error) ∧
    (∀ ctx bus message s' publication, s.publishMessage ctx bus message = (s', .ok (some publication)) →
      ∀ error, s'.FailedAtOnce publication error → LeftBehind ctx s s' publication error) ∧
    ∀ b : Bus, (∀ op, (b.operate op).2.fails → (b.operate op).1 = b) ∧
      ∀ ops, b.operateAll (b.successes ops) = ((b.operateAll ops).1, (b.operateAll ops).2.filter (!·.fails)) := by
  refine ⟨fun ctx => perform_of_failure, ?_, ?_, ?_, ?_, ?_⟩
  · intro ctx p s' parent
    exact mismatch_of_publish
  · intro ctx bus message s' parent
    exact mismatch_of_publishMessage
  · intro ctx p s' publication h error
    exact leftBehind_of_publish hs.proper h
  · intro ctx bus message s' publication h error
    exact leftBehind_of_publishMessage hs.proper h
  · intro b
    refine ⟨?_, b.operateAll_successes⟩
    intro op
    exact Bus.operate_of_failure

/-- A class that casts to a type other than its supertype, a bus, and an object without handlers. -/
private def miscast : Session :=
  let s := ((start false).perform .outermost
    (.declare [(.composite 0, ⟨false, none, [⟨.interface 0, 0, .interface 1⟩], []⟩)])).1
  let s := (s.perform .outermost (.openBus "bus" .default [])).1
  (s.perform .outermost (.object "listener" "Listener" true .idle [])).1

private theorem reachable_miscast : miscast.Reachable :=
  ⟨false, .tail (.tail (.single (.perform ..)) (.perform ..)) (.perform ..)⟩

theorem miscast_fails_without_trace :
    (miscast.perform .outermost (.keys "bus" (.composite 0))).2 = .crashed (.castMismatch (.named (.interface 0))) ∧
    (miscast.perform .outermost (.keys "bus" (.composite 0))).1.buses = miscast.buses ∧
    (miscast.perform .outermost (.subscribe "bus" "listener" .handlers none)).2 =
      .refused (.noHandlers "Obj") (some []) ∧
    (miscast.perform .outermost (.subscribe "bus" "listener" .handlers none)).1.buses = miscast.buses ∧
    ∃ s' parent, miscast.publish .outermost ⟨"bus", .held, ⟨.composite 0, 0, "", false⟩⟩ =
      some (s', .error (.castMismatch parent)) ∧ s' = miscast := by
  obtain ⟨hperform, hpublish, -⟩ := failures_leave_no_trace reachable_miscast
  have hkeys : (miscast.perform .outermost (.keys "bus" (.composite 0))).2 =
      .crashed (.castMismatch (.named (.interface 0))) := rfl
  have hsubscribe : (miscast.perform .outermost (.subscribe "bus" "listener" .handlers none)).2 =
      .refused (.noHandlers "Obj") (some []) := rfl
  have hcrash : miscast.publish .outermost ⟨"bus", .held, ⟨.composite 0, 0, "", false⟩⟩ =
      some (miscast, .error (.castMismatch (.named (.interface 0)))) := rfl
  refine ⟨hkeys, ?_, hsubscribe, ?_, _, _, hcrash, hpublish _ _ _ _ hcrash⟩
  · rw [hperform .outermost (.keys "bus" (.composite 0)) (hkeys ▸ .mismatched _)]
  · rw [hperform .outermost (.subscribe "bus" "listener" .handlers none) (hsubscribe ▸ .refused _ _)]

end Session
end PubSub
