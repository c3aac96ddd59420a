import PubSub.Proofs.Runs.Ancestors
import PubSub.Proofs.Session.Turns

/-!
# Serialization

Calls of one subscription take turns, unless the subscription allows them to overlap. Exempt are the invocations that an
earlier invocation of their own subscription brought about, and those that pass for such ones: their subscription has
the address of one that brought them about and is gone. So calls that overlap nevertheless do so because one of them
comes from the subscription itself, or seems to.
-/

namespace PubSub.Run

variable {r : Run} {t t' a b : Nat} {i j : Invocation}

/-- An earlier invocation of the same subscription brought this one about, perhaps through further ones. -/
def Recurs (r : Run) (b : Nat) (j : Invocation) : Prop :=
  ∃ a t i, a < b ∧ r.invocation? t a = some i ∧ i.bus = j.bus ∧ i.subscription = j.subscription ∧ r.BringsAbout a b

/-- An invocation of another subscription brought this one about, at whose address the own subscription is now. -/
def Inherits (r : Run) (b : Nat) (j : Invocation) : Prop :=
  ∃ a t i, r.BringsAbout a b ∧ r.invocation? t a = some i ∧ i.address = j.address ∧ i.caller ≠ j.caller

/-- It needs no turn of its subscription. -/
def Exempt (r : Run) (b : Nat) (j : Invocation) : Prop :=
  j.subscription.callback.threadSafe ∨ r.Recurs b j ∨ r.Inherits b j

theorem not_inherits_of_lineHeld (hj : r.invocation? t b = some j) (hheld : r.LineHeld t b) : ¬ r.Inherits b j := by
  rintro ⟨a, t', i, habout, hi, haddress, hother⟩
  exact hother (caller_eq_of_address hi hj haddress (hheld a t' i (Or.inr habout) hi))

theorem address_mem_callers_iff_recurs (hj : r.invocation? t b = some j) :
    j.address ∈ j.origin.callers ↔ r.Recurs b j ∨ r.Inherits b j := by
  rw [mem_callers_iff hj]
  constructor
  · rintro ⟨a, t', i, habout, hi, haddress⟩
    by_cases hcaller : i.caller = j.caller
    · exact Or.inl ⟨a, t', i, habout.lt, hi, (Caller.mk.inj hcaller).1, subscription_eq_of_caller hi hj hcaller, habout⟩
    · exact Or.inr ⟨a, t', i, habout, hi, haddress, hcaller⟩
  · rintro (⟨a, t', i, -, hi, hbus, hsub, habout⟩ | ⟨a, t', i, habout, hi, haddress, -⟩)
    · refine ⟨a, t', i, habout, hi, address_eq_of_caller hi hj ?_⟩
      simp only [Invocation.caller, hbus, hsub]
    · exact ⟨a, t', i, habout, hi, haddress⟩

theorem bypasses_iff_exempt (hj : r.invocation? t b = some j) : j.bypasses ↔ r.Exempt b j := by
  rw [Invocation.bypasses, Bool.or_eq_true, List.contains_iff_mem, address_mem_callers_iff_recurs hj, Exempt]

theorem holdsTurn_iff (hj : r.invocation? t b = some j) : j.holdsTurn ↔ j.isCalling ∧ ¬ r.Exempt b j := by
  rw [Invocation.holdsTurn, Bool.and_eq_true, Bool.not_eq_true', ← bypasses_iff_exempt hj, Bool.not_eq_true]

theorem exempt_of_overlap (hi : r.invocation? t a = some i) (hj : r.invocation? t b = some j) (hne : a ≠ b)
    (hbus : j.bus = i.bus) (hsub : j.subscription = i.subscription)
    (hcalling : i.isCalling) (hcalling' : j.isCalling) : r.Exempt a i ∨ r.Exempt b j := by
  have hcaller : i.caller = j.caller := by
    simp only [Invocation.caller, hbus, hsub]
  by_contra hnone
  obtain ⟨hnot, hnot'⟩ := not_or.1 hnone
  have hheld : i.holdsTurn := (holdsTurn_iff hi).2 ⟨hcalling, hnot⟩
  have hheld' : j.holdsTurn := (holdsTurn_iff hj).2 ⟨hcalling', hnot'⟩
  exact hne ((r.reachable t).exclusive a i b j hi hj hcaller hheld hheld')

private theorem begins_iff (hi : r.invocation? t a = some i) (hrest : i.rest? = none) :
    ((r.session t).proceed a i).isSome ↔ r.Exempt a i ∨ (r.session t).turnIsFree i := by
  rw [← bypasses_iff_exempt hi, ← Bool.or_eq_true]
  simp only [Session.proceed, hrest]
  split
  · simp [*]
  · simp [*]

private theorem kept_iff (hi : r.invocation? t a = some i) : (r.session t).turnIsFree i = false ↔
    ∃ b j, r.invocation? t b = some j ∧ j.bus = i.bus ∧ j.subscription = i.subscription ∧
      (j.isCalling ∧ ¬ r.Exempt b j ∨ j.isAheadOf i) := by
  rw [Session.turnIsFree_eq_false_iff (r.proper t)]
  constructor
  · intro hkept
    rcases hkept with ⟨b, j, hj, hcaller, hkeeps⟩
    refine ⟨b, j, hj, (Caller.mk.inj hcaller).1, subscription_eq_of_caller hj hi hcaller, ?_⟩
    exact hkeeps.imp_left (holdsTurn_iff hj).1
  · intro hkept
    rcases hkept with ⟨b, j, hj, hbus, hsub, hkeeps⟩
    refine ⟨b, j, hj, ?_, hkeeps.imp_left (holdsTurn_iff hj).2⟩
    simp only [Invocation.caller, hbus, hsub]

/-- In whatever way a program and its listeners go on, and at any moment: if two calls of a subscription that is not
thread-safe overlap, then one of them was brought about by an earlier invocation of the subscription, or by one of a
subscription that is gone and has left its address to this one. An invocation is called no matter who has the turn if it
is exempt, that is, thread-safe or brought about in this way, and otherwise as soon as the turn is free. Where all the
subscriptions that brought it about are still there, it does not inherit the address of any of them, and the calls that
overlap come from the subscription itself. It has the turn in its callback only, unless it is exempt; while it has left
its reply for later it keeps nobody waiting. -/
theorem calls_take_turns (r : Run) (t a : Nat) (i : Invocation) (hi : r.invocation? t a = some i) :
    (i.subscription.callback.threadSafe = false → i.isCalling → ∀ b j, r.invocation? t b = some j → a ≠ b →
      j.isCalling → j.bus = i.bus → j.subscription = i.subscription →
        (r.Recurs a i ∨ r.Recurs b j ∨ r.Inherits a i ∨ r.Inherits b j) ∧
        (r.LineHeld t a → r.LineHeld t b → r.Recurs a i ∨ r.Recurs b j)) ∧
    (r.LineHeld t a → ¬ r.Inherits a i) ∧
    (i.rest? = none → (((r.session t).proceed a i).isSome ↔ r.Exempt a i ∨ (r.session t).turnIsFree i)) ∧
    ((r.session t).turnIsFree i = false ↔ ∃ b j, r.invocation? t b = some j ∧ j.bus = i.bus ∧
      j.subscription = i.subscription ∧ (j.isCalling ∧ ¬ r.Exempt b j ∨ j.isAheadOf i)) ∧
    (i.holdsTurn ↔ i.isCalling ∧ ¬ r.Exempt a i) ∧
    (∀ rest, i.stage = .deferring rest → i.holdsTurn = false ∧ ∀ j, i.isAheadOf j = false) := by
  refine ⟨?_, not_inherits_of_lineHeld hi, begins_iff hi, kept_iff hi, holdsTurn_iff hi, ?_⟩
  · intro hserial hcalling b j hj hne hcalling' hbus hsub
    have hexempt := exempt_of_overlap hi hj hne hbus hsub hcalling hcalling'
    simp only [Exempt, hsub, hserial, Bool.false_eq_true, false_or] at hexempt
    refine ⟨by tauto, ?_⟩
    intro hheld hheld'
    have hnot := not_inherits_of_lineHeld hi hheld
    have hnot' := not_inherits_of_lineHeld hj hheld'
    tauto
  · intro rest hstage
    refine ⟨by simp [Invocation.holdsTurn, Invocation.isCalling, hstage], ?_⟩
    intro j
    simp [Invocation.isAheadOf, hstage]

/-- In the echo the second call comes from the first one. -/
theorem echo_overlaps : ∃ i j, echo.invocation? 8 5 = some i ∧ echo.invocation? 8 7 = some j ∧
    i.subscription.callback.threadSafe = false ∧ i.isCalling ∧ j.isCalling ∧ j.bus = i.bus ∧
    j.subscription = i.subscription ∧ (echo.Recurs 5 i ∨ echo.Recurs 7 j) := by
  have hsole (t' : Nat) : (echo.session t').invocations.values.all (·.caller = ⟨1, 1⟩) :=
    forall_scripted (P := fun s => s.invocations.values.all (·.caller = ⟨1, 1⟩)) (by decide) t'
  have hheld {a t' : Nat} {i : Invocation} (hi : echo.invocation? t' a = some i) :
      (echo.session 8).holdsOn i.caller := by
    have hmem := (Table.mem_values_iff (echo.proper t').invocations i).2 ⟨a, hi⟩
    have hcaller : i.caller = ⟨1, 1⟩ := by simpa using List.all_eq_true.1 (hsole t') i hmem
    rw [hcaller]
    rfl
  refine ⟨_, _, rfl, rfl, rfl, rfl, rfl, rfl, rfl, ?_⟩
  exact ((calls_take_turns echo 8 5 _ rfl).1 rfl rfl 7 _ rfl (by decide) rfl rfl rfl).2
    (fun _ _ _ _ hi => hheld hi) fun _ _ _ _ hi => hheld hi

/-- In the heir the third listener is called twice at once, although neither call comes from an earlier one. -/
theorem heir_overlaps : ¬ ∀ (r : Run) (t a b : Nat) (i j : Invocation), r.invocation? t a = some i →
    r.invocation? t b = some j → a ≠ b → i.subscription.callback.threadSafe = false → i.isCalling → j.isCalling →
    j.bus = i.bus → j.subscription = i.subscription → r.Recurs a i ∨ r.Recurs b j := by
  intro hclaim
  have hfirst : ∃ i, heir.invocation? 18 13 = some i ∧ i.origin.callers = [] ∧ i.isCalling ∧ i.caller = ⟨1, 3⟩ ∧
      i.subscription.callback.threadSafe = false := ⟨_, rfl, rfl, rfl, rfl, rfl⟩
  have hsecond : ∃ j, heir.invocation? 18 15 = some j ∧ j.isCalling ∧ j.caller = ⟨1, 3⟩ := ⟨_, rfl, rfl, rfl⟩
  obtain ⟨i, hi, horigin, hcalling, hcaller, hserial⟩ := hfirst
  obtain ⟨j, hj, hcalling', hcaller'⟩ := hsecond
  have hsame : j.caller = i.caller := hcaller'.trans hcaller.symm
  have hrecurs := hclaim heir 18 13 15 i j hi hj (by decide) hserial hcalling hcalling' (Caller.mk.inj hsame).1
    (subscription_eq_of_caller hj hi hsame)
  rcases hrecurs with ⟨a, t, k, -, hk, -, -, habout⟩ | ⟨a, t, k, hlt, hk, -, hsub, habout⟩
  · have hmem := (mem_callers_iff hi k.address).2 ⟨a, t, k, habout, hk, rfl⟩
    rw [horigin] at hmem
    cases hmem
  · have hcauses : heir.Causes 10 15 := ⟨16, rfl, rfl, rfl⟩
    obtain ⟨c, hrest, hcauses'⟩ := Relation.TransGen.tail'_iff.1 habout
    obtain rfl := hcauses.unique hcauses'
    have hline := (Relation.reflTransGen_iff_eq_or_transGen.1 hrest).imp_left Eq.symm
    exact id_ne_of_line_heir hline hk (hsub ▸ (Caller.mk.inj hcaller').2)

end PubSub.Run
