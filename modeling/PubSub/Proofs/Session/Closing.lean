import PubSub.Proofs.Outcomes
import PubSub.Proofs.Session.Fates
import PubSub.Proofs.Session.Keeping

/-!
# Closing

A bus that is closed, or that nothing keeps any more, never opens again. It has no subscriptions, and whatever it is
asked for it refuses as closed. An open bus refuses nothing for that reason.
-/

namespace PubSub

namespace Bus

variable {b : Bus}

theorem subscribe_of_closed (hclosed : b.isOpen = false) (bindings : List (Key × Callback)) :
    b.subscribe bindings = .error .closed := by
  simp [subscribe, hclosed]

theorem subscribeHandlers_of_closed (hclosed : b.isOpen = false) (target : String) (handlers : List (Key × Callback)) :
    b.subscribeHandlers target handlers = .error .closed := by
  simp [subscribeHandlers, hclosed, subscribe_of_closed]

theorem unsubscribe_of_closed (hclosed : b.isOpen = false) (handle : Handle) :
    b.unsubscribe handle = .error (if handle.bus = b.id then .closed else .foreignHandle) := by
  simp only [unsubscribe, hclosed]
  by_cases hown : handle.bus = b.id <;> simp [hown]

theorem publish_of_closed (hclosed : b.isOpen = false) (declared : Name → Except Crash Descriptor) (depth : Nat)
    (e : Event) : b.publish declared depth e = .ok ⟨b.matcher, none, .refused .closed⟩ := by
  simp [publish, hclosed]

theorem Shut.count (h : b.Shut) : b.subscriptionCount = 0 ∧ ∀ k, b.registry.count k = 0 := by
  obtain ⟨-, hrows⟩ := h
  simp [subscriptionCount, Registry.size, Registry.count, Registry.row, hrows, Table.values, Table.empty, Table.get?]

theorem ne_closed_of_open (hopen : b.isOpen) :
    (∀ bindings, b.subscribe bindings ≠ .error .closed) ∧
    (∀ target handlers, b.subscribeHandlers target handlers ≠ .error .closed) ∧
    ∀ handle, b.unsubscribe handle ≠ .error .closed := by
  refine ⟨?_, ?_, ?_⟩
  · intro bindings
    simp [subscribe, hopen]
  · intro target handlers
    simp only [subscribeHandlers, subscribe, hopen]
    split <;> simp
  · intro handle
    simp only [unsubscribe, hopen]
    split <;> simp

theorem refusal_ne_closed (hopen : b.isOpen) {declared : Name → Except Crash Descriptor} {depth : Nat} {e : Event}
    {d : Dispatch} (hd : b.publish declared depth e = .ok d) : d.plan.refusal? ≠ some .closed := by
  cases decides_of_publish hd with
  | closed hclosed => cases hopen.symm.trans hclosed
  | tooDeep | heard | unheard | carried | uncarried => simp [Plan.refusal?, deliver]

end Bus

/-- A publish that was not refused as closed never fails as closed. -/
theorem Publication.result?_ne_closed {q : Publication} (h : q.refusal ≠ some .closed) :
    q.result? ≠ some (.error .closed) := by
  have hjoin : Delivery.join q.observed ≠ .error .closed := by
    simp only [Delivery.join]
    split
    · simp
    · split <;> simp
  simp only [result?]
  split
  · rename_i error hrefusal
    intro hclosed
    cases hclosed
    exact h hrefusal
  · split
    · simp
    · simpa using hjoin

namespace Session

variable {s s' : Session} {b b' : Bus} {ctx : Context}

/-- How a closed bus answers. A publish that it refuses has failed already and invokes nobody, also if it is made through
a name that does not keep the bus. -/
structure Refuses (s : Session) (b : Bus) : Prop where
  isOpen : b.isOpen = false
  count : b.subscriptionCount = 0 ∧ ∀ k, b.registry.count k = 0
  subscribe : ∀ o route handle binding, route ≠ .handlers → o.binding? (s.issued + 1) route = some binding →
    s.subscribe b o route handle = (s.issue.1, .refused .closed none)
  handlers : ∀ o handle, s.subscribe b o .handlers handle = (s, .refused .closed (some []))
  unsubscribe : ∀ handle, s.unsubscribe b handle =
    (s, .refused (if handle.bus = b.id then .closed else .foreignHandle) none)
  publish : ∀ ctx e, s.publishOn ctx b e = ((s.refuse .closed).1, .ok (s.refuse .closed).2)
  named : ∀ name hold, s.holds.get? name = some hold → hold.bus = b.id → ∀ ctx recipe,
    (∀ access, access = .weak ∨ s.isKept b.id → recipe.cls.isPublishable →
      s.publish ctx ⟨name, access, recipe⟩ = some ((s.refuse .closed).1, .ok (s.refuse .closed).2)) ∧
    s.publishMessage ctx name (.recipe recipe) = ((s.refuse .closed).1, .ok (some (s.refuse .closed).2))
  failed : (s.refuse .closed).1.buses = s.buses ∧ (s.refuse .closed).1.invocations = s.invocations ∧
    ∃ q, (s.refuse .closed).1.publications.get? (s.refuse .closed).2 = some q ∧ q.result? = some (.error .closed)
  close : s.closeBus b = s

theorem publishOn_of_closed (hb : s.buses.get? b.id = some b) (hclosed : b.isOpen = false) (ctx : Context) (e : Event) :
    s.publishOn ctx b e = ((s.refuse .closed).1, .ok (s.refuse .closed).2) := by
  have hsame : s.putBus { b with matcher := b.matcher } = s := by
    rw [putBus, Table.put_of_get? hb]
  simp only [publishOn, Bus.publish_of_closed hclosed, hsame]
  rfl

theorem bus?_of_hold (hb : s.buses.get? b.id = some b) {name : String} {hold : Hold}
    (hhold : s.holds.get? name = some hold) (hbus : hold.bus = b.id) :
    s.bus? name = if s.isKept b.id then some b else none := by
  simp only [bus?, hhold, Option.bind_eq_bind, Option.bind_some, hbus, hb]

theorem refuses_of_shut (hb : s.buses.get? b.id = some b) (hshut : b.Shut) : s.Refuses b where
  isOpen := hshut.1
  count := hshut.count
  subscribe o route handle binding hroute hbinding := by
    have hclosed := Bus.subscribe_of_closed hshut.1 [binding]
    unfold Session.subscribe
    split
    · exact absurd rfl hroute
    · simp only
      split
      · rename_i hnone
        cases hnone.symm.trans hbinding
      · rename_i found hfound
        obtain rfl := Option.some.inj (hfound.symm.trans hbinding)
        rw [hclosed]
        rfl
  handlers o handle := by
    simp only [Session.subscribe, Bus.subscribeHandlers_of_closed hshut.1, hshut.1, subscribed]
    rfl
  unsubscribe handle := by
    simp only [Session.unsubscribe, Bus.unsubscribe_of_closed hshut.1]
  publish := publishOn_of_closed hb hshut.1
  named name hold hhold hbus ctx recipe := by
    have hclosed := publishOn_of_closed hb hshut.1 ctx (s.make recipe)
    have hname := bus?_of_hold hb hhold hbus
    by_cases hkept : s.isKept b.id
    · rw [if_pos hkept] at hname
      refine ⟨?_, ?_⟩
      · intro access _ hpublishable
        simp only [Session.publish, hpublishable, hname, hclosed]
        rfl
      · simp only [publishMessage, hname, hclosed]
        rfl
    · rw [if_neg hkept] at hname
      refine ⟨?_, ?_⟩
      · intro access haccess hpublishable
        obtain rfl := haccess.resolve_right hkept
        simp only [Session.publish, hpublishable, hname, hhold]
        rfl
      · simp only [publishMessage, hname]
  failed := ⟨rfl, rfl, _, (Table.get?_put ..).trans (if_pos rfl), rfl⟩
  close := by
    rw [closeBus, hshut.1]
    rfl

/-- The publish does not fail as closed, not even if buses are closed later. -/
def NeverClosed (s : Session) (publication : Nat) : Prop :=
  ∀ s', Moves s s' → ∀ q, s'.publications.get? publication = some q → q.result? ≠ some (.error .closed)

theorem neverClosed_of_publishOn (hs : s.Proper) (hb : s.buses.get? b.id = some b) (hopen : b.isOpen) {e : Event}
    {publication : Nat} (h : s.publishOn ctx b e = (s', .ok publication)) : s'.NeverClosed publication := by
  have hs' := hs.acts (acts_publishOn ctx hb e)
  rw [h] at hs'
  obtain ⟨d, q, hd, hq, hrefusal⟩ := refusal_of_publishOn h
  intro s'' hm q'' hq''
  -- why a publish was refused stays as it was, and an open bus does not refuse as closed
  obtain ⟨q', hq', hcontinues, -⟩ := publication_of_moves hs' hm hq
  obtain rfl := Option.some.inj (hq'.symm.trans hq'')
  refine Publication.result?_ne_closed ?_
  rw [hcontinues, hrefusal]
  exact Bus.refusal_ne_closed hopen hd

private theorem refuses_of_later (hs : s.Proper) (hb : s.buses.get? b.id = some b) (hshut : b.Shut) (hm : Moves s s') :
    ∃ b', s'.buses.get? b.id = some b' ∧ b'.id = b.id ∧ b'.registry.issued = b.registry.issued ∧ s'.Refuses b' := by
  obtain ⟨b', hb', hbecomes⟩ := has_of_moves hs hm hb
  obtain ⟨hshut', hsame⟩ := hshut.becomes hbecomes
  exact ⟨b', hb', hbecomes.id, congrArg Registry.issued hsame, refuses_of_shut (hbecomes.id ▸ hb') hshut'⟩

private theorem get?_closeBus (hopen : b.isOpen) : (s.closeBus b).buses.get? b.id = some b.close := by
  rw [closeBus, if_pos hopen, (aside_report ..).buses, buses_stopWorkers]
  exact (Table.get?_put ..).trans (if_pos rfl)

/-- A bus that is closed through some name refuses everything from then on, whatever happens: it stays closed and
empty, gives out no more ids, does not ask for handlers, and fails all publishes at once. So does a bus that nothing
keeps any more. As long as a bus is open, nothing that it is asked for fails as closed. -/
theorem closing_is_final (hs : s.Reachable) (hb : s.buses.get? b.id = some b) :
    (∀ ctx name, s.bus? name = some b → ∀ s', Moves (s.perform ctx (.close name)).1 s' →
      ∃ b', s'.buses.get? b.id = some b' ∧ b'.id = b.id ∧ b'.registry.issued = b.registry.issued ∧ s'.Refuses b') ∧
    (s.isKept b.id = false → ∀ s', Moves s s' →
      ∃ b', s'.buses.get? b.id = some b' ∧ b'.id = b.id ∧ b'.registry.issued = b.registry.issued ∧ s'.Refuses b') ∧
    (b.isOpen →
      (∀ bindings, b.subscribe bindings ≠ .error .closed) ∧
      (∀ target handlers, b.subscribeHandlers target handlers ≠ .error .closed) ∧
      (∀ handle, b.unsubscribe handle ≠ .error .closed) ∧
      (∀ ctx e s' p, s.publishOn ctx b e = (s', .ok p) → s'.NeverClosed p) ∧
      ∀ name hold, s.holds.get? name = some hold → hold.bus = b.id → ∀ ctx recipe s' p,
        s.publish ctx ⟨name, .weak, recipe⟩ = some (s', .ok p) → s'.NeverClosed p) := by
  refine ⟨?_, ?_, ?_⟩
  · intro ctx name hname s' hm
    have hperform : (s.perform ctx (.close name)).1 = s.closeBus b := by
      simp only [perform, provided, hname]
      rfl
    rw [hperform] at hm
    have hs' := hs.proper.effects (effects_closeBus hs.proper hb)
    cases hopen : b.isOpen with
    | false =>
      rw [closeBus, hopen] at hm
      exact refuses_of_later hs.proper hb (hs.shut hb hopen) hm
    | true =>
      exact refuses_of_later (b := b.close) hs' (get?_closeBus hopen) b.shut_close hm
  · intro hunkept s' hm
    have hclosed : b.isOpen = false := by
      refine Bool.eq_false_iff.2 fun hopen => ?_
      have hkept := hs.kept b.id (isRunning_eq_true_iff.2 ⟨b, hb, hopen⟩)
      cases hunkept.symm.trans hkept
    exact refuses_of_later hs.proper hb (hs.shut hb hclosed) hm
  · intro hopen
    obtain ⟨hsubscribe, hhandlers, hunsubscribe⟩ := Bus.ne_closed_of_open hopen
    have hpublish {ctx : Context} {e : Event} {s' : Session} {p : Nat} (h : s.publishOn ctx b e = (s', .ok p)) :=
      neverClosed_of_publishOn hs.proper hb hopen h
    refine ⟨hsubscribe, hhandlers, hunsubscribe, fun ctx e s' p => hpublish, ?_⟩
    intro name hold hhold hbus ctx recipe s' p h
    have hname := bus?_of_hold hb hhold hbus
    rw [if_pos (hs.kept b.id (isRunning_eq_true_iff.2 ⟨b, hb, hopen⟩))] at hname
    simp only [Session.publish, hname] at h
    split at h
    · cases h
    · exact hpublish (Option.some.inj h)

/-- A bus, an object that is subscribed, and a second name for the bus. -/
private def served : Session :=
  let s := ((start false).perform .outermost (.openBus "bus" .default [])).1
  let s := (s.perform .outermost (.object "listener" "Listener" true .idle [])).1
  let s := (s.perform .outermost (.subscribe "bus" "listener" (.shared (.simple 0)) none)).1
  (s.perform .outermost (.clone "bus" "copy")).1

private def servedBus : Bus :=
  (served.buses.get? 1).getD ⟨0, .default, false, .empty, .empty⟩

private def dropped : Session :=
  let s := (served.perform .outermost (.drop "bus")).1
  (s.perform .outermost (.drop "copy")).1

private def droppedBus : Bus :=
  (dropped.buses.get? 1).getD ⟨0, .default, false, .empty, .empty⟩

theorem served_closes : servedBus.subscriptionCount = 1 ∧
    (∀ bindings, servedBus.subscribe bindings ≠ .error .closed) ∧
    (∃ b', (served.perform .outermost (.close "copy")).1.buses.get? 1 = some b' ∧
      (served.perform .outermost (.close "copy")).1.Refuses b') ∧
    ∃ b', dropped.buses.get? 1 = some b' ∧ dropped.Refuses b' := by
  have hserved : served.Reachable :=
    ⟨false, .tail (.tail (.tail (.single (.perform ..)) (.perform ..)) (.perform ..)) (.perform ..)⟩
  have hdropped : dropped.Reachable := hserved.trans (.tail (.single (.perform ..)) (.perform ..))
  obtain ⟨hclose, -, hopen⟩ := closing_is_final hserved (b := servedBus) rfl
  obtain ⟨-, hdrop, -⟩ := closing_is_final hdropped (b := droppedBus) rfl
  obtain ⟨b₁, hb₁, -, -, hrefuses₁⟩ := hclose .outermost "copy" rfl _ .refl
  obtain ⟨b₂, hb₂, -, -, hrefuses₂⟩ := hdrop rfl _ .refl
  exact ⟨rfl, (hopen rfl).1, ⟨b₁, hb₁, hrefuses₁⟩, b₂, hb₂, hrefuses₂⟩

end Session
end PubSub
