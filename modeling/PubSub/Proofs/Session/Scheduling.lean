import PubSub.Proofs.Tables
import PubSub.Session.Publishing

/-!
# Scheduling

A publish that is scheduled gets the next identity, and its invocations get those that follow, in the order of the
subscriptions. Nothing else changes.
-/

namespace PubSub.Session

variable {ctx : Context} {bus publication : Nat} {event : Event}

def invocation (ctx : Context) (bus publication : Nat) (event : Event) (s : Session)
    (target : Subscription × Option View) : Invocation :=
  ⟨publication, bus, target.1, s.address ⟨bus, target.1.id⟩, target.2, event, ctx, .fresh, false⟩

theorem invocation_congr {s s' : Session} (h : s'.addresses = s.addresses) (target : Subscription × Option View) :
    invocation ctx bus publication event s' target = invocation ctx bus publication event s target := by
  simp only [invocation, address, h]

def invokeAll (ctx : Context) (bus publication : Nat) (event : Event) (s : Session)
    (targets : List (Subscription × Option View)) : Session :=
  targets.foldl (invoke ctx bus publication event) s

theorem invokeAll_cons (s : Session) (t : Subscription × Option View) (ts : List (Subscription × Option View)) :
    s.invokeAll ctx bus publication event (t :: ts) =
      invokeAll ctx bus publication event
        (s.issue.1.putInvocation s.issue.2 (invocation ctx bus publication event s t)) ts :=
  rfl

theorem invokeAll_frame (ctx : Context) (bus publication : Nat) (event : Event) (s : Session)
    (ts : List (Subscription × Option View)) :
    (s.invokeAll ctx bus publication event ts).hierarchy = s.hierarchy ∧
    (s.invokeAll ctx bus publication event ts).buses = s.buses ∧
    (s.invokeAll ctx bus publication event ts).publications = s.publications ∧
    (s.invokeAll ctx bus publication event ts).addresses = s.addresses ∧
    (s.invokeAll ctx bus publication event ts).tracing = s.tracing ∧
    (s.invokeAll ctx bus publication event ts).issued = s.issued + ts.length := by
  induction ts generalizing s with
  | nil => exact ⟨rfl, rfl, rfl, rfl, rfl, rfl⟩
  | cons t ts ih =>
    obtain ⟨hh, hb, hp, ha, ht, hn⟩ := ih (s.issue.1.putInvocation s.issue.2 (invocation ctx bus publication event s t))
    rw [invokeAll_cons]
    refine ⟨hh, hb, hp, ha, ht, ?_⟩
    rw [hn, List.length_cons]
    show s.issued + 1 + ts.length = s.issued + (ts.length + 1)
    omega

/-- No invocation has an identity that is yet to be given out. -/
def InvocationsIssued (s : Session) : Prop :=
  ∀ id i, s.invocations.get? id = some i → id ≤ s.issued

private theorem invocationsIssued_invoke {s : Session} (hs : s.InvocationsIssued) (i : Invocation) :
    (s.issue.1.putInvocation s.issue.2 i).InvocationsIssued := by
  intro id j hj
  simp only [putInvocation, issue, Table.get?_put] at hj ⊢
  split at hj
  · omega
  · have := hs id j hj
    omega

theorem get?_invokeAll {s : Session} (hs : s.InvocationsIssued)
    (ts : List (Subscription × Option View)) (id : Nat) :
    (s.invokeAll ctx bus publication event ts).invocations.get? id =
      if id ≤ s.issued then s.invocations.get? id
      else (ts[id - s.issued - 1]?).map (invocation ctx bus publication event s) := by
  induction ts generalizing s with
  | nil =>
    by_cases hid : id ≤ s.issued
    · simp [hid, invokeAll]
    · cases hi : s.invocations.get? id with
      | none => simp [hid, invokeAll, hi]
      | some i => exact absurd (hs id i hi) hid
  | cons t ts ih =>
    rw [invokeAll_cons, ih (invocationsIssued_invoke hs _)]
    simp only [putInvocation, issue, Table.get?_put]
    by_cases hid : id ≤ s.issued
    · have hle : id ≤ s.issued + 1 := by omega
      have hne : ¬ id = s.issued + 1 := by omega
      simp only [hid, hle, hne, if_true, if_false]
    by_cases heq : id = s.issued + 1
    · subst heq
      have hpos : s.issued + 1 - s.issued - 1 = 0 := by omega
      rw [if_pos (Nat.le_refl _), if_pos rfl, if_neg hid, hpos]
      rfl
    · have hle : ¬ id ≤ s.issued + 1 := by omega
      have hpos : id - s.issued - 1 = id - (s.issued + 1) - 1 + 1 := by omega
      rw [if_neg hle, if_neg hid, hpos, List.getElem?_cons_succ]
      exact Option.map_congr fun target _ => invocation_congr rfl target

theorem tally_invokeAll {s : Session} (hs : s.InvocationsIssued) (q : Nat)
    (ts : List (Subscription × Option View)) :
    (s.invokeAll ctx bus publication event ts).invocations.tally (·.publication = q)
      = s.invocations.tally (·.publication = q) + if publication = q then ts.length else 0 := by
  induction ts generalizing s with
  | nil => simp [invokeAll]
  | cons t ts ih =>
    have hfree : s.invocations.get? s.issue.2 = none := by
      cases hi : s.invocations.get? s.issue.2 with
      | none => rfl
      | some i => exact absurd (hs _ i hi) (by simp [issue])
    have hone := Table.tally_put_new hfree (invocation ctx bus publication event s t) (·.publication = q)
    rw [invokeAll_cons, ih (invocationsIssued_invoke hs _)]
    show (s.invocations.put s.issue.2 _).tally _ + _ = _
    rw [hone]
    by_cases hq : publication = q
    · simp only [invocation, hq, if_true, decide_true, Bool.toNat_true, List.length_cons]
      omega
    · simp [invocation, hq]

theorem schedule_scheduled (s : Session) (ts : List (Subscription × Option View)) :
    s.schedule ctx bus (.scheduled event ts)
      = ((s.issue.1.putPublication s.issue.2 (.underWay ts.length)).invokeAll ctx bus s.issue.2 event ts, s.issue.2) :=
  rfl

/-- The invocations after a publish: those before, and one for each subscription in turn. -/
theorem get?_schedule {s : Session} (hs : s.InvocationsIssued) (ts : List (Subscription × Option View)) (id : Nat) :
    (s.schedule ctx bus (.scheduled event ts)).1.invocations.get? id =
      if id ≤ s.issued + 1 then s.invocations.get? id
      else (ts[id - (s.issued + 1) - 1]?).map (invocation ctx bus (s.issued + 1) event s) := by
  have hissued : (s.issue.1.putPublication s.issue.2 (.underWay ts.length)).InvocationsIssued := by
    intro id i hi
    exact Nat.le_succ_of_le (hs id i hi)
  exact get?_invokeAll hissued ts id

theorem tally_schedule {s : Session} (hs : s.InvocationsIssued) (ts : List (Subscription × Option View)) (q : Nat) :
    (s.schedule ctx bus (.scheduled event ts)).1.invocations.tally (·.publication = q)
      = s.invocations.tally (·.publication = q) + if s.issued + 1 = q then ts.length else 0 := by
  have hissued : (s.issue.1.putPublication s.issue.2 (.underWay ts.length)).InvocationsIssued := by
    intro id i hi
    exact Nat.le_succ_of_le (hs id i hi)
  exact tally_invokeAll hissued q ts

theorem get?_publications_schedule (ctx : Context) (bus : Nat) (event : Event) (s : Session)
    (ts : List (Subscription × Option View)) (id : Nat) :
    (s.schedule ctx bus (.scheduled event ts)).1.publications.get? id =
      if id = s.issued + 1 then some (.underWay ts.length) else s.publications.get? id := by
  rw [schedule_scheduled, (invokeAll_frame ..).2.2.1]
  exact Table.get?_put ..

theorem schedule_frame (ctx : Context) (bus : Nat) (event : Event) (s : Session)
    (ts : List (Subscription × Option View)) :
    (s.schedule ctx bus (.scheduled event ts)).1.buses = s.buses ∧
    (s.schedule ctx bus (.scheduled event ts)).1.addresses = s.addresses ∧
    (s.schedule ctx bus (.scheduled event ts)).1.tracing = s.tracing ∧
    (s.schedule ctx bus (.scheduled event ts)).1.issued = s.issued + 1 + ts.length := by
  rw [schedule_scheduled]
  obtain ⟨-, hb, -, ha, ht, hn⟩ := invokeAll_frame ctx bus s.issue.2 event
    (s.issue.1.putPublication s.issue.2 (.underWay ts.length)) ts
  exact ⟨hb, ha, ht, hn⟩

end PubSub.Session
