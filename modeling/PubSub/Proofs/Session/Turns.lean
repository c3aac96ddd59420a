import PubSub.Proofs.Session.Transitions

/-!
# Turns

Who has the turn of a subscription is in its callback, and has the turn alone. A move lets one invocation have a turn at
most, and only if that is free.
-/

namespace PubSub

namespace Invocation

variable {i : Invocation}

theorem bypasses_goOn (i : Invocation) (p : Behaviour) : (i.goOn p).bypasses = i.bypasses := by
  simp only [goOn]
  split <;> rfl

theorem holdsTurn_goOn {p : Behaviour} (hrest : i.rest? = some p) (p' : Behaviour) :
    (i.goOn p').holdsTurn = i.holdsTurn := by
  simp only [holdsTurn, bypasses_goOn]
  cases hstage : i.stage <;> simp_all [rest?, goOn, isCalling]

theorem holdsTurn_park (i : Invocation) (ticket : Nat) : (i.park ticket).holdsTurn = i.holdsTurn := by
  cases hstage : i.stage <;> simp [park, holdsTurn, isCalling, bypasses, hstage]

end Invocation

namespace Session

variable {s s' : Session} {id : Nat} {i : Invocation}

theorem turnIsFree_eq_false_iff (hs : s.Proper) (i : Invocation) : s.turnIsFree i = false ↔
    ∃ id j, s.invocations.get? id = some j ∧ j.caller = i.caller ∧ (j.holdsTurn ∨ j.isAheadOf i) := by
  rw [turnIsFree, Bool.not_eq_false', List.any_eq_true]
  simp only [Bool.and_eq_true, decide_eq_true_eq, Bool.or_eq_true, Table.mem_values_iff hs.invocations]
  constructor
  · intro hkept
    rcases hkept with ⟨j, ⟨id, hj⟩, hcaller, hkeeps⟩
    exact ⟨id, j, hj, hcaller, hkeeps⟩
  · intro hkept
    rcases hkept with ⟨id, j, hj, hcaller, hkeeps⟩
    exact ⟨j, ⟨id, hj⟩, hcaller, hkeeps⟩

private theorem eq_of_put {s : Session} {i i' : Invocation}
    (h : (s.putInvocation id i).invocations.get? id = some i') : i = i' := by
  rw [putInvocation, Table.get?_put, if_pos rfl] at h
  exact Option.some.inj h

private theorem turn_of_progress {i' : Invocation} (hi : s.invocations.get? id = some i) (h : Progress id s s')
    (hi' : s'.invocations.get? id = some i') (hholds : i'.holdsTurn) : i.holdsTurn ∨ s.turnIsFree i := by
  cases h with
  | parked hi₀ _ =>
    obtain rfl := Option.some.inj (hi.symm.trans hi₀)
    obtain rfl := eq_of_put hi'
    exact Or.inl ((i.holdsTurn_park _).symm.trans hholds)
  | called hi₀ _ hturn _ =>
    obtain rfl := Option.some.inj (hi.symm.trans hi₀)
    obtain rfl := eq_of_put hi'
    simp only [Invocation.holdsTurn, Invocation.bypasses_goOn, Bool.and_eq_true, Bool.not_eq_true'] at hholds
    rw [hholds.2, Bool.false_or] at hturn
    exact Or.inr hturn
  | wentOn hi₀ hrest _ | awaited hi₀ hrest _ _ | published hi₀ hrest _ =>
    obtain rfl := Option.some.inj (hi.symm.trans hi₀)
    obtain rfl := eq_of_put hi'
    exact Or.inl ((Invocation.holdsTurn_goOn hrest _).symm.trans hholds)
  | left hi₀ _ =>
    obtain rfl := eq_of_put hi'
    simp [Invocation.holdsTurn, Invocation.isCalling] at hholds
  | finished hi₀ o =>
    rw [get?_finish] at hi'
    cases hi'

private theorem not_holdsTurn_of_fresh {j : Invocation} (h : j.stage = .fresh) : ¬ j.holdsTurn := by
  simp [Invocation.holdsTurn, Invocation.isCalling, h]

private theorem turn_of_move (hs : s.Proper) (h : Move s s') :
    ∃ mover, ∀ id i', s'.invocations.get? id = some i' → i'.holdsTurn →
      ∃ i, s.invocations.get? id = some i ∧ i.caller = i'.caller ∧ (i.holdsTurn ∨ (id = mover ∧ s.turnIsFree i)) := by
  have hsame {id : Nat} {i' : Invocation} (hi' : s.invocations.get? id = some i' ∨ (s.issued < id ∧ i'.stage = .fresh))
      (hholds : i'.holdsTurn) : ∃ i, s.invocations.get? id = some i ∧ i.caller = i'.caller ∧ i.holdsTurn := by
    rcases hi' with hi' | ⟨-, hfresh⟩
    · exact ⟨i', hi', rfl, hholds⟩
    · exact absurd hholds (not_holdsTurn_of_fresh hfresh)
  cases h with
  | effect he =>
    refine ⟨0, ?_⟩
    intro id i' hi' hholds
    exact ⟨i', invocation_of_effect he hi', rfl, Or.inl hholds⟩
  | publish hp =>
    refine ⟨0, ?_⟩
    intro id i' hi' hholds
    obtain ⟨i, hi, hcaller, hheld⟩ := hsame ((publishing_of_publishes hs hp).invocation hi') hholds
    exact ⟨i, hi, hcaller, Or.inl hheld⟩
  | progress mover hp =>
    refine ⟨mover, ?_⟩
    intro id i' hi' hholds
    by_cases hid : id = mover
    · subst hid
      obtain ⟨i, hi⟩ := hp.exists_invocation
      have hcaller : i.caller = i'.caller := by
        rcases (Carries.progress hs hi hp).invocation id i' hi' with ⟨i₀, hi₀, hc⟩ | ⟨hnew, -⟩
        · obtain rfl := Option.some.inj (hi.symm.trans hi₀)
          exact hc.caller.symm
        · have := hs.issued id i hi
          omega
      exact ⟨i, hi, hcaller, (turn_of_progress hi hp hi' hholds).imp_right fun hfree => ⟨rfl, hfree⟩⟩
    · obtain ⟨i, hi, hcaller, hheld⟩ := hsame (invocation_of_progress hs hp hid hi') hholds
      exact ⟨i, hi, hcaller, Or.inl hheld⟩

/-- No two invocations have the turn of one subscription. -/
def Exclusive (s : Session) : Prop :=
  ∀ a i b j, s.invocations.get? a = some i → s.invocations.get? b = some j → i.caller = j.caller → i.holdsTurn →
    j.holdsTurn → a = b

theorem Exclusive.move (hs : s.Proper) (h : s.Exclusive) (hm : Move s s') : s'.Exclusive := by
  obtain ⟨mover, hturn⟩ := turn_of_move hs hm
  have hfree {id : Nat} {i j : Invocation} (hi : s.invocations.get? id = some i) (hheld : i.holdsTurn)
      (hcaller : i.caller = j.caller) : s.turnIsFree j = false :=
    (turnIsFree_eq_false_iff hs j).2 ⟨id, i, hi, hcaller, Or.inl hheld⟩
  intro a i' b j' hi' hj' hcaller hholds hholds'
  obtain ⟨i, hi, hci, hbefore⟩ := hturn a i' hi' hholds
  obtain ⟨j, hj, hcj, hbefore'⟩ := hturn b j' hj' hholds'
  have hsame : i.caller = j.caller := hci.trans (hcaller.trans hcj.symm)
  rcases hbefore with hheld | ⟨rfl, hi_free⟩ <;> rcases hbefore' with hheld' | ⟨rfl, hj_free⟩
  · exact h a i b j hi hj hsame hheld hheld'
  · cases hj_free.symm.trans (hfree hi hheld hsame)
  · cases hi_free.symm.trans (hfree hj hheld' hsame.symm)
  · rfl

/-- Whoever has a turn has it alone, in every session that can be reached. -/
theorem Reachable.exclusive (h : s.Reachable) : s.Exclusive := by
  refine h.of_moves ?_ ?_
  · intro tracing a i b j hi
    cases hi
  · intro tracing s s' hprior hm hexclusive
    exact hexclusive.move ((proper_start tracing).moves hprior) hm

end Session
end PubSub
