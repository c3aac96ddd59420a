import PubSub.Proofs.Runs.Basic
import PubSub.Proofs.Session.Addresses

/-!
# Lineage

Who brought about an invocation: the one whose step published the event, the one that had published that one's event,
and so on, up to a publish of the program. An invocation knows the addresses of the subscriptions of just these. An
address stands for one subscription as long as that is not gone.
-/

namespace PubSub.Run

variable {r : Run} {t t' a b : Nat} {i j : Invocation}

/-- A step of one invocation makes the other. -/
def Causes (r : Run) (a b : Nat) : Prop :=
  ∃ t, (r.session t).step a = some (r.session (t + 1)) ∧ r.invocation? t b = none ∧ (r.invocation? (t + 1) b).isSome

/-- A step of the first invocation makes the last one, or one that brings it about. -/
abbrev BringsAbout (r : Run) : Nat → Nat → Prop :=
  Relation.TransGen r.Causes

private theorem made_of_step (hstep : (r.session t).step a = some (r.session (t + 1)))
    (hi : r.invocation? t a = some i) (hnone : r.invocation? t b = none) (hj : r.invocation? (t + 1) b = some j) :
    a < b ∧ j.origin = i.context := by
  obtain ⟨i', hi', hsteps⟩ := Session.stepsTo_of_step (r.proper t) hstep
  obtain rfl := Option.some.inj (hi.symm.trans hi')
  rcases (hsteps.extends (r.proper t)).invocation b j hj with ⟨j₀, hj₀, -⟩ | ⟨hnew, -, horigin⟩
  · cases hnone.symm.trans hj₀
  · exact ⟨Nat.lt_of_le_of_lt (issued_of_invocation? hi) hnew, horigin⟩

theorem exists_invocation_of_step {s' : Session} (hstep : (r.session t).step a = some s') :
    ∃ i, r.invocation? t a = some i := by
  obtain ⟨i, hi, -⟩ := Session.stepsTo_of_step (r.proper t) hstep
  exact ⟨i, hi⟩

theorem Causes.lt (h : r.Causes a b) : a < b := by
  obtain ⟨t, hstep, hnone, hsome⟩ := h
  obtain ⟨i, hi⟩ := exists_invocation_of_step hstep
  obtain ⟨j, hj⟩ := Option.isSome_iff_exists.1 hsome
  exact (made_of_step hstep hi hnone hj).1

theorem Causes.exists_maker (h : r.Causes a b) : ∃ t i, r.invocation? t a = some i := by
  obtain ⟨t, hstep, -, -⟩ := h
  exact ⟨t, exists_invocation_of_step hstep⟩

theorem BringsAbout.lt (h : r.BringsAbout a b) : a < b := by
  induction h with
  | single h => exact h.lt
  | tail _ h ih => exact Nat.lt_trans ih h.lt

theorem published_or_caused (hj : r.invocation? t b = some j) :
    j.origin = .outermost ∨ ∃ a t' i, t' < t ∧ r.invocation? t' a = some i ∧ r.Causes a b ∧ j.origin = i.context := by
  induction t generalizing j with
  | zero =>
    obtain ⟨tracing, hstart⟩ := r.start
    rw [invocation?, hstart] at hj
    cases hj
  | succ t ih =>
    cases hbefore : r.invocation? t b with
    | some j₀ =>
      have hsame : j.origin = j₀.origin := (continues hbefore hj).origin
      rw [hsame]
      refine (ih hbefore).imp_right ?_
      intro hcaused
      rcases hcaused with ⟨a, t', i, hlt, hmade⟩
      exact ⟨a, t', i, Nat.lt_succ_of_lt hlt, hmade⟩
    | none =>
      rcases r.cases_next t with hacts | ⟨a, i, hstep, hi, -⟩
      · rcases (Session.Extends.acts (r.proper t) hacts).invocation b j hj with ⟨j₀, hj₀, -⟩ | ⟨-, -, horigin⟩
        · cases hbefore.symm.trans hj₀
        · exact Or.inl horigin
      · have hcauses : r.Causes a b := ⟨t, hstep, hbefore, by simp [hj]⟩
        exact Or.inr ⟨a, t, i, Nat.lt_succ_self t, hi, hcauses, (made_of_step hstep hi hbefore hj).2⟩

theorem Causes.origin (h : r.Causes a b) {t t' : Nat} (hi : r.invocation? t a = some i)
    (hj : r.invocation? t' b = some j) : j.origin = i.context := by
  obtain ⟨t₀, hstep, hnone, hsome⟩ := h
  obtain ⟨i₀, hi₀⟩ := exists_invocation_of_step hstep
  obtain ⟨j₀, hj₀⟩ := Option.isSome_iff_exists.1 hsome
  have hmade : j₀.origin = i₀.context := (made_of_step hstep hi₀ hnone hj₀).2
  rw [(continues hj₀ hj).origin, hmade, (continues hi hi₀).context]

private theorem address_mem_callers (h : r.BringsAbout a b) {t t' : Nat} (hi : r.invocation? t a = some i)
    (hj : r.invocation? t' b = some j) : i.address ∈ j.origin.callers := by
  induction h generalizing t' j with
  | single h =>
    rw [h.origin hi hj]
    exact List.mem_append_right _ (List.mem_singleton.2 rfl)
  | tail hprior h ih =>
    obtain ⟨t₁, k, hk⟩ := h.exists_maker
    rw [h.origin hk hj]
    exact List.mem_append_left _ (ih hk)

theorem mem_callers_iff (hj : r.invocation? t b = some j) (address : Nat) : address ∈ j.origin.callers ↔
    ∃ a t' i, r.BringsAbout a b ∧ r.invocation? t' a = some i ∧ i.address = address := by
  constructor
  · intro hc
    induction t using Nat.strongRecOn generalizing b j with
    | _ t ih =>
      rcases published_or_caused hj with horigin | ⟨a, t', i, hlt, hi, hcauses, horigin⟩
      · rw [horigin] at hc
        cases hc
      · rw [horigin] at hc
        rcases List.mem_append.1 hc with hc | hc
        · obtain ⟨a', t'', i', habout, hi'⟩ := ih t' hlt hi hc
          exact ⟨a', t'', i', habout.tail hcauses, hi'⟩
        · exact ⟨a, t', i, .single hcauses, hi, (List.mem_singleton.1 hc).symm⟩
  · rintro ⟨a, t', i, habout, hi, rfl⟩
    exact address_mem_callers habout hi hj

theorem subscription_eq_of_caller (hi : r.invocation? t a = some i) (hj : r.invocation? t' b = some j)
    (hcaller : i.caller = j.caller) : i.subscription = j.subscription := by
  have hlater {t t' a b : Nat} {i j : Invocation} (hle : t ≤ t') (hi : r.invocation? t a = some i)
      (hj : r.invocation? t' b = some j) (hcaller : i.caller = j.caller) : j.subscription = i.subscription := by
    have hknows := ((r.reachable t).roster.invocation a i hi).moves (r.proper t) (moves_of_le hle)
    exact hknows.invocation b j hj hcaller.symm
  rcases Nat.le_total t t' with hle | hle
  · exact (hlater hle hi hj hcaller).symm
  · exact hlater hle hj hi hcaller.symm

section Addresses

theorem addresses_of_le (h : t ≤ t') {c : Caller} {address : Nat}
    (ha : (r.session t).addresses.get? c = some address) : (r.session t').addresses.get? c = some address :=
  Session.addresses_of_moves (moves_of_le h) ha

theorem address_of_invocation (hi : r.invocation? t a = some i) :
    (r.session t).addresses.get? i.caller = some i.address :=
  (r.reachable t).housed.invocation a i hi

theorem address_eq_of_caller (hi : r.invocation? t a = some i) (hj : r.invocation? t' b = some j)
    (hcaller : i.caller = j.caller) : i.address = j.address := by
  have hat : (r.session (max t t')).addresses.get? i.caller = some i.address :=
    addresses_of_le (Nat.le_max_left ..) (address_of_invocation hi)
  have hat' : (r.session (max t t')).addresses.get? j.caller = some j.address :=
    addresses_of_le (Nat.le_max_right ..) (address_of_invocation hj)
  rw [hcaller] at hat
  exact Option.some.inj (hat.symm.trans hat')

theorem caller_eq_of_address (hi : r.invocation? t' a = some i) (hj : r.invocation? t b = some j)
    (haddress : i.address = j.address) (hheld : (r.session t).holdsOn i.caller) : i.caller = j.caller := by
  have hhoused := (r.reachable t).housed
  obtain ⟨address, hat⟩ := (r.reachable t).exists_address hheld
  have hsame : address = i.address := by
    have hearly := addresses_of_le (Nat.le_max_left t t') hat
    have hlate := addresses_of_le (Nat.le_max_right t t') (address_of_invocation hi)
    exact Option.some.inj (hearly.symm.trans hlate)
  have hheld' : (r.session t).holdsOn j.caller := (r.reachable t).holdsOn_of_invocation hj
  exact hhoused.apart _ _ _ (hsame ▸ hat) (haddress ▸ address_of_invocation hj) hheld hheld'

/-- The subscriptions of an invocation and of those that brought it about are still there. -/
def LineHeld (r : Run) (t b : Nat) : Prop :=
  ∀ a t' i, a = b ∨ r.BringsAbout a b → r.invocation? t' a = some i → (r.session t).holdsOn i.caller

/-- An invocation hands down where the subscriptions are, or were, of itself and of those that brought it about. -/
theorem mem_context_callers_iff (hi : r.invocation? t b = some i) (address : Nat) : address ∈ i.context.callers ↔
    ∃ a u j, (a = b ∨ r.BringsAbout a b) ∧ r.invocation? u a = some j ∧ j.address = address := by
  rw [Invocation.context, List.mem_append, List.mem_singleton, mem_callers_iff hi]
  constructor
  · rintro (⟨a, u, j, habout, hj⟩ | rfl)
    · exact ⟨a, u, j, Or.inr habout, hj⟩
    · exact ⟨b, t, i, Or.inl rfl, hi, rfl⟩
  · rintro ⟨a, u, j, rfl | habout, hj, rfl⟩
    · exact Or.inr (address_eq_of_caller hj hi (continues hi hj).caller)
    · exact Or.inl ⟨a, u, j, habout, hj, rfl⟩

end Addresses

end PubSub.Run
