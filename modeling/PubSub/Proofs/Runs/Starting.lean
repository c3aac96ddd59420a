import PubSub.Proofs.Runs.Tenures
import PubSub.Proofs.Session.Closing
import PubSub.Proofs.Session.Slots

/-!
# Starting an owner

An owner that is asked to start and says that all is well has a bus. It has opened it just now, or it has found it in
its slot; and there it may have been closed under one of the names that the bus was given.
-/

namespace PubSub

namespace Session

variable {s s' : Session} {name : String} {b : Bus}

/-- Under this name neither subscriptions nor publishes fail as closed. -/
structure Welcomes (s : Session) (name : String) : Prop where
  subscribe : ∀ ctx object route handle table,
    (s.perform ctx (.subscribe name object route handle)).2 ≠ .refused .closed table
  unsubscribe : ∀ ctx handle table, (s.perform ctx (.unsubscribe name handle)).2 ≠ .refused .closed table
  publish : ∀ ctx access recipe s' p, s.publish ctx ⟨name, access, recipe⟩ = some (s', .ok p) → s'.NeverClosed p
  message : ∀ ctx message s' p, s.publishMessage ctx name message = (s', .ok (some p)) → s'.NeverClosed p

private theorem subscribed_ne_closed {handle : Option String} {table : Option (List Nat)}
    {result : Except BusError (Bus × Handle)} (h : result ≠ .error .closed) (table' : Option (List Nat)) :
    (s.subscribed b handle table result).2 ≠ .refused .closed table' := by
  cases result with
  | error e =>
    intro heq
    cases heq
    exact h rfl
  | ok r =>
    intro heq
    cases heq

theorem welcomes_of_open (hs : s.Proper) (hb : s.bus? name = some b) (hopen : b.isOpen) : s.Welcomes name := by
  obtain ⟨hsubscribe, hhandlers, hunsubscribe⟩ := Bus.ne_closed_of_open hopen
  have hget := get?_of_bus? hs hb
  refine ⟨?_, ?_, ?_, ?_⟩
  · intro ctx object route handle table
    simp only [perform, provided, hb, Option.elim_some]
    cases s.objects.get? object with
    | none =>
      intro heq
      cases heq
    | some o =>
      simp only [Option.elim_some]
      unfold Session.subscribe
      split
      · exact subscribed_ne_closed (hhandlers _ _) table
      · simp only
        split
        · intro heq
          cases heq
        · exact subscribed_ne_closed (hsubscribe _) table
  · intro ctx handle table
    simp only [perform, provided, hb, Option.elim_some]
    cases s.handles.get? handle with
    | none =>
      intro heq
      cases heq
    | some handle =>
      simp only [Option.elim_some, Session.unsubscribe]
      split
      · rename_i e he
        intro heq
        cases heq
        exact hunsubscribe handle he
      · intro heq
        cases heq
  · intro ctx access recipe s' p h
    simp only [Session.publish, hb] at h
    split at h
    · cases h
    · exact neverClosed_of_publishOn hs hget hopen (Option.some.inj h)
  · intro ctx message s' p h
    have hpublished {e : Event} (h : ((s.publishOn ctx b e).1, (s.publishOn ctx b e).2.map some) =
        (s', .ok (some p))) : s'.NeverClosed p := by
      obtain ⟨rfl, hresult⟩ := Prod.mk.inj h
      obtain ⟨q, hq, hsome⟩ := map_eq_ok_iff.1 hresult
      obtain rfl := Option.some.inj hsome
      exact neverClosed_of_publishOn hs hget hopen (Prod.ext rfl hq)
    cases message with
    | recipe r =>
      simp only [publishMessage, hb] at h
      exact hpublished h
    | event e =>
      simp only [publishMessage, hb] at h
      exact hpublished h

end Session

namespace Run

variable {r : Run} {name : String} {t u id : Nat}

/-- The bus has been asked to close while that owner had it in its slot. -/
def ClosedBefore (r : Run) (t : Nat) (name : String) (id : Nat) : Prop :=
  ∃ u < t, r.slot? u name = some id ∧ Session.AskedToClose id (r.session u) (r.session (u + 1))

theorem Closed.later (h : r.Closed u id) (hle : u ≤ t) : r.Closed t id := by
  induction hle with
  | refl => exact h
  | step _ ih => exact ih.next

theorem ClosedBefore.closed (h : r.ClosedBefore t name id) : r.Closed t id := by
  obtain ⟨u, hlt, -, hasked⟩ := h
  obtain ⟨b, hb⟩ := hasked.exists_bus (r.proper u)
  obtain ⟨b', hb', -⟩ := Session.has_of_moves (r.proper u) (moves_of_le (Nat.le_succ u)) hb
  refine Closed.later (u := u + 1) ⟨b', hb', Bool.eq_false_iff.2 fun hopen => ?_⟩ hlt
  cases (hasked.not_running (r.proper u)).symm.trans (Session.isRunning_eq_true_iff.2 ⟨b', hb', hopen⟩)

theorem ClosedBefore.next (h : r.ClosedBefore t name id) : r.ClosedBefore (t + 1) name id := by
  obtain ⟨u, hlt, hslot, hasked⟩ := h
  exact ⟨u, Nat.lt_succ_of_lt hlt, hslot, hasked⟩

theorem running_or_closedBefore (hslot : r.slot? t name = some id) :
    (r.session t).isRunning id ∨ r.ClosedBefore t name id := by
  induction t with
  | zero =>
    obtain ⟨tracing, hstart⟩ := r.start
    rw [slot?, owner?, hstart] at hslot
    cases hslot
  | succ t ih =>
    rcases r.next t with hsame | hnext
    · rw [slot?, owner?, hsame] at hslot
      rw [hsame]
      exact (ih hslot).imp_right ClosedBefore.next
    · rcases (Session.assigns_transition (r.proper t) hnext).slot? hslot with hbefore | ⟨-, hrunning⟩
      · rcases ih hbefore with hrunning | hclosed
        · rcases Session.running_or_askedToClose (r.reachable t) hnext hbefore hslot hrunning with hon | hasked
          · exact Or.inl hon
          · exact Or.inr ⟨t, Nat.lt_succ_self t, hbefore, hasked⟩
        · exact Or.inr hclosed.next
      · exact Or.inl hrunning

theorem exists_bus_of_slot? (hslot : r.slot? t name = some id) :
    ∃ b, (r.session t).buses.get? id = some b ∧ (b.isOpen ↔ ¬ r.ClosedBefore t name id) := by
  by_cases hclosed : r.ClosedBefore t name id
  · obtain ⟨b, hb, hshut⟩ := hclosed.closed
    exact ⟨b, hb, by simp [hshut, hclosed]⟩
  · obtain ⟨b, hb, hopen⟩ := Session.isRunning_eq_true_iff.1 ((running_or_closedBefore hslot).resolve_right hclosed)
    exact ⟨b, hb, by simp [hopen, hclosed]⟩

theorem not_closedBefore_of_new (h : (r.session t).issued < id) : ¬ r.ClosedBefore t name id := by
  rintro ⟨u, hlt, hslot, -⟩
  have hissued := (r.reachable u).apart.issued name id hslot
  have hlater := (extends_of_le (r := r) (Nat.le_of_lt hlt)).issued
  omega

private theorem started {ctx : Context} {s' : Session} (h : (r.session t).perform ctx (.init name) = (s', .ok)) :
    ∃ config b, s'.owners.get? name = some ⟨config, some b.id⟩ ∧ s'.buses.get? b.id = some b ∧
      (r.owner? t name = some ⟨config, none⟩ ∧ b = ⟨(r.session t).issued + 1, config, true, .empty, .empty⟩ ∨
        r.owner? t name = some ⟨config, some b.id⟩ ∧ s' = r.session t) := by
  have hs := r.proper t
  cases howner : (r.session t).owners.get? name with
  | none =>
    simp only [Session.perform, Session.provided, howner] at h
    cases h
  | some owner =>
    obtain ⟨config, slot⟩ := owner
    cases slot with
    | some id =>
      have hslot : r.slot? t name = some id := by
        rw [slot?, owner?, howner]
        rfl
      obtain ⟨b, hb, -⟩ := exists_bus_of_slot? hslot
      obtain ⟨rfl, -⟩ := hs.bus id b hb
      simp only [Session.perform, Session.provided, howner, Option.elim_some, Session.initOwner] at h
      obtain ⟨rfl, -⟩ := Prod.mk.inj h
      exact ⟨config, b, howner, hb, Or.inr ⟨howner, rfl⟩⟩
    | none =>
      have hserves := Session.serves hs howner (fun hfull => absurd rfl hfull) (fun id hid => by cases hid)
      cases hvalid : config.validate with
      | error e =>
        rw [(hserves.invalid e hvalid).2 ctx] at h
        cases h
      | ok =>
        cases hworkers : config.startWorkers with
        | error c =>
          rw [hserves.unstartable rfl hvalid c hworkers ctx] at h
          cases h
        | ok =>
          obtain ⟨s₁, hinit, -, hbuses, howner'⟩ := hserves.opens rfl hvalid hworkers ctx
          obtain ⟨rfl, -⟩ := Prod.mk.inj (hinit.symm.trans h)
          refine ⟨config, _, howner', ?_, Or.inl ⟨howner, rfl⟩⟩
          rw [hbuses, Table.get?_put, if_pos rfl]

/-- After a start that succeeds, at any moment of a run and whoever asks for it, the owner hands out a bus. If its
slot was empty this is a new one. If not, the start has done nothing, and the bus is the one that was there. It is
open, and refuses nothing as closed, unless somebody asked it to close under one of its names while it was in the
slot; then it refuses everything. -/
theorem start_leaves_bus_in_slot {ctx : Context} {s' : Session}
    (h : (r.session t).perform ctx (.init name) = (s', .ok)) (ctx' : Context) (copy : String) :
    ∃ s'' b, s'.perform ctx' (.managedBus name copy) = (s'', .flag true) ∧ s''.bus? copy = some b ∧
      s'.slot? name = some b.id ∧
      (∀ config, r.owner? t name = some ⟨config, none⟩ →
        b = ⟨(r.session t).issued + 1, config, true, .empty, .empty⟩) ∧
      (∀ id, r.slot? t name = some id → s' = r.session t ∧ b.id = id) ∧
      (b.isOpen ↔ ¬ r.ClosedBefore t name b.id) ∧
      (b.isOpen → s''.Welcomes copy) ∧ (b.isOpen = false → s''.Refuses b) := by
  obtain ⟨config, b, howner, hb, hcases⟩ := started h
  have hs' : s'.Proper := by
    have hacts : (r.session t).Acts ctx ((r.session t).perform ctx (.init name)).1 :=
      Session.acts_perform (r.proper t) (.init name)
    rw [h] at hacts
    exact (r.proper t).acts hacts
  have hs'' : (s'.hold copy b.id).Proper := hs'.effects (Session.effects_hold hs' copy b.id)
  have hcopy : (s'.hold copy b.id).bus? copy = some b := (Session.bus?_hold copy b.id).trans hb
  refine ⟨s'.hold copy b.id, b, ?_, hcopy, ?_, ?_, ?_, ?_, Session.welcomes_of_open hs'' hcopy, ?_⟩
  · simp only [Session.perform, Session.provided, howner, Option.elim_some]
  · simp only [Session.slot?, howner, Option.bind_some]
  · intro config' hempty
    rcases hcases with ⟨hempty', hnew⟩ | ⟨hfull, -⟩
    · obtain ⟨rfl, -⟩ := Owner.mk.inj (Option.some.inj (hempty.symm.trans hempty'))
      exact hnew
    · cases hempty.symm.trans hfull
  · intro id hslot
    rcases hcases with ⟨hempty, -⟩ | ⟨hfull, hsame⟩
    · rw [slot?, hempty] at hslot
      cases hslot
    · rw [slot?, hfull] at hslot
      exact ⟨hsame, Option.some.inj hslot⟩
  · rcases hcases with ⟨-, hnew⟩ | ⟨hfull, hsame⟩
    · have hopen : b.isOpen := by rw [hnew]
      refine ⟨fun _ => not_closedBefore_of_new ?_, fun _ => hopen⟩
      rw [hnew]
      exact Nat.lt_succ_self _
    · have hslot : r.slot? t name = some b.id := by
        rw [slot?, hfull]
        rfl
      obtain ⟨b', hb', hiff⟩ := exists_bus_of_slot? hslot
      rw [← hsame, hb] at hb'
      obtain rfl := Option.some.inj hb'
      exact hiff
  · intro hclosed
    refine Session.refuses_of_shut (Session.get?_of_bus? hs'' hcopy) ?_
    rcases hcases with ⟨-, hnew⟩ | ⟨-, hsame⟩
    · rw [hnew] at hclosed
      cases hclosed
    · exact (r.reachable t).shut (hsame ▸ hb) hclosed

/-- An owner whose bus is closed under its name "first". -/
private def shutDown : Run :=
  .scripted false [.perform (.managed "owner" .default), .perform (.init "owner"),
    .perform (.managedBus "owner" "first"), .perform (.object "listener" "Listener" true .idle []),
    .perform (.close "first")]

private def shutDownBus : Bus :=
  ((shutDown.session 4).bus? "first").getD ⟨0, .default, false, .empty, .empty⟩

private def begun (t : Nat) : Session :=
  ((shutDown.session t).perform .outermost (.init "owner")).1

/-- Its first start leaves an open bus in the slot, a later one the closed one. -/
theorem shut_down_owner_starts :
    (∃ s'' b, (begun 1).perform .outermost (.managedBus "owner" "second") = (s'', .flag true) ∧
      s''.bus? "second" = some b ∧ s''.Welcomes "second") ∧
    ∃ s'' b, (begun 5).perform .outermost (.managedBus "owner" "second") = (s'', .flag true) ∧
      s''.bus? "second" = some b ∧ s''.Refuses b := by
  have hfirst : (shutDown.session 1).perform .outermost (.init "owner") = (begun 1, .ok) := Prod.ext rfl rfl
  have hlater : (shutDown.session 5).perform .outermost (.init "owner") = (begun 5, .ok) := Prod.ext rfl rfl
  refine ⟨?_, ?_⟩
  · obtain ⟨s'', b, hgiven, hb, -, hnew, -, -, hwelcomes, -⟩ := start_leaves_bus_in_slot hfirst .outermost "second"
    exact ⟨s'', b, hgiven, hb, hwelcomes (by rw [hnew .default rfl])⟩
  · obtain ⟨s'', b, hgiven, hb, -, -, hfull, hopen, -, hrefuses⟩ :=
      start_leaves_bus_in_slot hlater .outermost "second"
    obtain ⟨-, hid⟩ := hfull 1 rfl
    have hfirst : (shutDown.session 4).bus? "first" = some shutDownBus := rfl
    have hclosed : shutDown.ClosedBefore 5 "owner" b.id := hid ▸ ⟨4, by decide, rfl, .program hfirst rfl⟩
    exact ⟨s'', b, hgiven, hb, hrefuses (Bool.eq_false_iff.2 fun h => hopen.1 h hclosed)⟩

/-- So a start may say that all is well, and the bus that the owner hands out right after it fails as closed. -/
theorem start_does_not_reopen :
    (shutDown.session 5).perform .outermost (.init "owner") = (begun 5, .ok) ∧
    ∃ s' b, (begun 5).perform .outermost (.managedBus "owner" "second") = (s', .flag true) ∧
      s'.bus? "second" = some b ∧ b.isOpen = false ∧
      (s'.perform .outermost (.subscribe "second" "listener" (.shared (.simple 0)) none)).2 = .refused .closed none ∧
      ∃ s'' p q, s'.publish .outermost ⟨"second", .held, ⟨.simple 0, 0, "", false⟩⟩ = some (s'', .ok p) ∧
        s''.publications.get? p = some q ∧ q.result? = some (.error .closed) :=
  ⟨Prod.ext rfl rfl, _, _, rfl, rfl, rfl, rfl, _, _, _, rfl, rfl, rfl⟩

end Run
end PubSub
