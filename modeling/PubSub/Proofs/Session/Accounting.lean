import PubSub.Proofs.Outcomes
import PubSub.Proofs.Session.Transitions

/-!
# Accounting

A publication scheduled as many invocations as have ended or are still to end. So it is resolved exactly when none of
its invocations is left, and a delivery that it reports counts all of them.
-/

namespace PubSub

theorem Delivery.delivered_of_join {outcomes : List Outcome} {d : Delivery} (h : join outcomes = .ok d) :
    d.delivered = outcomes.length := by
  unfold join at h
  split at h
  · cases h
  · simp only at h
    split at h
    · cases h
    · obtain rfl := Except.ok.inj h
      rfl

namespace Session

variable {s s' : Session}

/-- The outcomes of each publication and its invocations that have not ended add up to all that it scheduled, which is
nothing if it was refused. -/
def Balanced (s : Session) : Prop :=
  ∀ q p, s.publications.get? q = some p → (∀ error, p.refusal = some error → error.isRefusal ∧ p.scheduled = 0) ∧
    p.ends.length + s.invocations.tally (·.publication = q) = p.scheduled

private theorem tally_putInvocation {id : Nat} {i i' : Invocation} (hi : s.invocations.get? id = some i)
    (hpub : i'.publication = i.publication) (q : Nat) :
    (s.putInvocation id i').invocations.tally (·.publication = q) = s.invocations.tally (·.publication = q) := by
  have hput := Table.tally_put hi i' (·.publication = q)
  simp only [hpub] at hput
  exact Nat.add_right_cancel hput

namespace Balanced

private theorem of_same (h : s.Balanced) (hi : s'.invocations = s.invocations) (hp : s'.publications = s.publications) :
    s'.Balanced := by
  simp only [Balanced]
  rw [hi, hp]
  exact h

private theorem putInvocation (h : s.Balanced) {id : Nat} {i i' : Invocation} (hi : s.invocations.get? id = some i)
    (hpub : i'.publication = i.publication) : (s.putInvocation id i').Balanced := by
  intro q p hp
  rw [tally_putInvocation hi hpub]
  exact h q p hp

private theorem flag (h : s.Balanced) {id : Nat} {p : Publication} (hp : s.publications.get? id = some p)
    {p' : Publication} (hp' : p' = p.await ∨ p' = p.leave) : (s.putPublication id p').Balanced := by
  intro q p'' hp''
  simp only [putPublication, Table.get?_put] at hp''
  split at hp''
  · obtain rfl : q = id := ‹_›
    obtain rfl := Option.some.inj hp''
    rcases hp' with rfl | rfl <;> exact h q p hp
  · exact h q p'' hp''

private theorem publishing (hs : s.Proper) (h : s.Balanced) {ctx : Context} {publication : Nat}
    (hp : s.Publishing ctx s' publication) : s'.Balanced := by
  obtain ⟨p₀, hp₀, hends, hrefused, htally⟩ := hp.opened
  intro q p hq
  rw [htally q]
  by_cases hown : publication = q
  · subst hown
    obtain rfl := Option.some.inj (hp₀.symm.trans hq)
    have hnone : s.invocations.tally (·.publication = publication) = 0 := by
      rw [← Nat.not_lt.trans Nat.le_zero, Table.tally_pos_iff hs.invocations]
      intro hsome
      rcases hsome with ⟨id, i, hi, heq⟩
      obtain ⟨p', hp'⟩ := hs.belongs id i hi
      have := hs.publication _ p' hp'
      have := hp.fresh
      simp only [decide_eq_true_eq] at heq
      omega
    refine ⟨hrefused, ?_⟩
    rw [hends, hnone, if_pos rfl]
    simp
  · rw [if_neg hown]
    exact h q p ((hp.publications q (Ne.symm hown)).symm.trans hq)

private theorem finish (hs : s.Proper) (h : s.Balanced) {id : Nat} {i : Invocation}
    (hi : s.invocations.get? id = some i) (o : Outcome) : (s.finish id i o).Balanced := by
  obtain ⟨p, hp⟩ := hs.belongs id i hi
  obtain ⟨-, -, -, hinvocations, hpublications⟩ := finish_frame s id i o
  rw [hp, Option.elim_some] at hpublications
  intro q p' hp'
  have herase := Table.tally_erase hs.invocations hi (·.publication = q)
  rw [hpublications, Table.get?_put] at hp'
  rw [hinvocations]
  by_cases hown : q = i.publication
  · rw [if_pos hown] at hp'
    obtain rfl := Option.some.inj hp'
    obtain ⟨hrefused, hbalance⟩ := h q p (hown ▸ hp)
    refine ⟨hrefused, ?_⟩
    simp only [hown, decide_true, Bool.toNat_true] at herase hbalance ⊢
    simp only [Publication.add, List.length_append, List.length_singleton]
    omega
  · rw [if_neg hown] at hp'
    obtain ⟨hrefused, hbalance⟩ := h q p' hp'
    refine ⟨hrefused, ?_⟩
    have hne : ¬ i.publication = q := Ne.symm hown
    simp only [hne, decide_false, Bool.toNat_false] at herase
    omega

private theorem effect (hs : s.Proper) (h : s.Balanced) (he : Effect s s') : s'.Balanced := by
  cases he with
  | aside ha => exact h.of_same ha.invocations ha.publications
  | declared => exact h
  | opened => exact h
  | changed => exact h
  | flagged hp hp' => exact h.flag hp hp'
  | interrupted hi _ _ _ => exact finish hs h hi _

private theorem progress (hs : s.Proper) (h : s.Balanced) {id : Nat} (hp : Progress id s s') : s'.Balanced := by
  cases hp with
  | @parked i hi _ => exact putInvocation (s := s.issue.1) h hi (i.publication_park _)
  | @called i _ hi _ _ _ => exact h.putInvocation hi (i.publication_goOn _)
  | @wentOn i _ _ hi _ _ => exact h.putInvocation hi (i.publication_goOn _)
  | left hi _ => exact h.putInvocation hi rfl
  | @awaited i _ _ _ _ hi _ _ _ => exact h.putInvocation hi (i.publication_goOn _)
  | @published s₁ i _ _ _ _ hi _ hp =>
    have hi₁ : s₁.invocations.get? id = some i := (hs.get?_of_publishes hp (hs.issued id i hi)).trans hi
    exact (publishing hs h (publishing_of_publishes hs hp)).putInvocation hi₁ (i.publication_goOn _)
  | finished hi o => exact finish hs h hi o

theorem move (hs : s.Proper) (h : s.Balanced) (hm : Move s s') : s'.Balanced := by
  cases hm with
  | effect he => exact h.effect hs he
  | publish hp => exact publishing hs h (publishing_of_publishes hs hp)
  | progress id hp => exact h.progress hs hp

theorem moves (hs : s.Proper) (h : s.Balanced) (hm : Moves s s') : s'.Balanced := by
  induction hm with
  | refl => exact h
  | tail hprior hm ih => exact ih.move (hs.moves hprior) hm

end Balanced

theorem Reachable.balanced (h : s.Reachable) : s.Balanced := by
  refine h.of_moves ?_ ?_
  · intro tracing q p hp
    cases hp
  · intro tracing s s' hprior hm hbalanced
    exact hbalanced.move ((proper_start tracing).moves hprior) hm

theorem unresolved_iff (hs : s.Proper) (hb : s.Balanced) {q : Nat} {p : Publication}
    (hp : s.publications.get? q = some p) :
    p.result? = none ↔ ∃ id i, s.invocations.get? id = some i ∧ i.publication = q := by
  obtain ⟨hrefused, hbalance⟩ := hb q p hp
  have hpos := Table.tally_pos_iff hs.invocations (·.publication = q)
  simp only [decide_eq_true_eq] at hpos
  rw [← hpos]
  simp only [Publication.result?]
  cases hrefusal : p.refusal with
  | some error =>
    obtain ⟨-, hnone⟩ := hrefused error hrefusal
    simp only [reduceCtorEq, false_iff]
    omega
  | none =>
    simp only
    split
    · simp only [true_iff]
      omega
    · simp only [reduceCtorEq, false_iff]
      omega

theorem outcomes_of_resolved (hb : s.Balanced) {q : Nat} {p : Publication} (hp : s.publications.get? q = some p)
    (hresult : p.result?.isSome) : p.outcomes.length = p.scheduled := by
  rw [p.length_outcomes]
  obtain ⟨hrefused, hbalance⟩ := hb q p hp
  simp only [Publication.result?] at hresult
  cases hrefusal : p.refusal with
  | some error =>
    obtain ⟨-, hnone⟩ := hrefused error hrefusal
    omega
  | none =>
    simp only [hrefusal] at hresult
    split at hresult
    · cases hresult
    · omega

/-- A delivery counts all invocations of its publication. -/
theorem delivered_eq_scheduled (hb : s.Balanced) {q : Nat} {p : Publication} (hp : s.publications.get? q = some p)
    {d : Delivery} (hd : p.result? = some (.ok d)) : d.delivered = p.scheduled := by
  obtain ⟨-, hbalance⟩ := hb q p hp
  simp only [Publication.result?] at hd
  split at hd
  · cases hd
  · split at hd
    · cases hd
    · have hobserved := p.observed_perm.length_eq
      have := Delivery.delivered_of_join (Option.some.inj hd)
      rw [p.length_outcomes] at hobserved
      omega

end Session
end PubSub
