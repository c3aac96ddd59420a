import PubSub.Proofs.Runs.Basic
import PubSub.Proofs.Session.Roster
import PubSub.Proofs.Session.Settling

/-!
# Endings

A publish begins without outcomes. From then on each of its invocations adds one when it ends, by a step of its own or
because it is abandoned, and nothing else does.
-/

namespace PubSub.Run

variable {r : Run} {t t' q : Nat} {p : Publication}

/-- At that moment the invocation ends with that outcome. -/
def EndsAt (r : Run) (t : Nat) (e : Nat × Outcome) : Prop :=
  (r.session t).Abandons (r.session (t + 1)) e ∨ (r.session t).Concludes (r.session (t + 1)) e

/-- Just these invocations of the publish have ended so far, with these outcomes in this order. -/
structure Endings (r : Run) (t q : Nat) (p : Publication) (es : List (Nat × Outcome)) : Prop where
  ends : p.ends = es
  once : (es.map Prod.fst).Nodup
  ended : ∀ a, a ∈ es.map Prod.fst ↔
    (∃ t' i, r.invocation? t' a = some i ∧ i.publication = q) ∧ r.invocation? t a = none
  moment : ∀ e ∈ es, ∃ u < t, r.EndsAt u e ∧ r.invocation? (u + 1) e.1 = none

theorem Endings.outcomes {es : List (Nat × Outcome)} (h : r.Endings t q p es) : p.outcomes = es.map Prod.snd := by
  rw [Publication.outcomes, h.ends]

theorem bus_issued {a : Nat} {i : Invocation} (hi : r.invocation? t a = some i) : i.bus ≤ (r.session t).issued :=
  ((r.reachable t).roster.invocation a i hi).issued

private theorem settles_next (hq : q ≤ (r.session t).issued) :
    ∃ es, (r.session t).Settles q (r.session (t + 1)) es ∧ ∀ e ∈ es, r.EndsAt t e := by
  have hs := r.proper t
  have hbus : ∀ a i, (r.session t).invocations.get? a = some i → i.bus ≤ (r.session t).issued := fun _ _ => bus_issued
  rcases r.cases_next t with hacts | ⟨id, i, -, hi, hsteps⟩
  · obtain ⟨es, hes, habandons⟩ := (Session.spares_acts hs hbus hq hacts).settles
    exact ⟨es, hes, fun e he => Or.inl (habandons e he)⟩
  · exact Session.settles_stepsTo hs hbus hq hi hsteps

private theorem settles_of_le (hq : q ≤ (r.session t).issued) (h : t ≤ t') :
    ∃ es, (r.session t).Settles q (r.session t') es ∧
      ∀ e ∈ es, ∃ u < t', r.EndsAt u e ∧ r.invocation? (u + 1) e.1 = none := by
  induction h with
  | refl =>
    refine ⟨[], .refl _, ?_⟩
    intro e he
    cases he
  | @step t' hle ih =>
    have hext := extends_of_le (r := r) hle
    have hnext := extends_of_le (r := r) (Nat.le_succ t')
    obtain ⟨es, hes, hends⟩ := ih
    obtain ⟨es', hes', hends'⟩ := settles_next (Nat.le_trans hq hext.issued)
    refine ⟨es ++ es', hes.trans (r.proper t) hq hext hnext hes', ?_⟩
    intro e he
    rcases List.mem_append.1 he with hold | hnew
    · obtain ⟨u, hu, hend, hgone⟩ := hends e hold
      exact ⟨u, Nat.lt_succ_of_lt hu, hend, hgone⟩
    · obtain ⟨-, hgone⟩ := (hes'.ended e.1).1 (List.mem_map_of_mem hnew)
      exact ⟨t', Nat.lt_succ_self t', hends' e hnew, hgone⟩

private theorem exists_opened (hp : r.publication? t q = some p) : ∃ t₀ ≤ t, ∃ p₀, r.publication? t₀ q = some p₀ ∧
    p₀.ends = [] ∧ ∀ t' < t₀, r.publication? t' q = none := by
  induction t generalizing p with
  | zero =>
    obtain ⟨tracing, hstart⟩ := r.start
    rw [publication?, hstart] at hp
    cases hp
  | succ t ih =>
    cases hbefore : r.publication? t q with
    | some p₀ =>
      obtain ⟨t₀, hle, hopened⟩ := ih hbefore
      exact ⟨t₀, Nat.le_succ_of_le hle, hopened⟩
    | none =>
      have hfresh : (∃ p₀, r.publication? t q = some p₀) ∨ p.ends = [] := by
        rcases r.cases_next t with hacts | ⟨id, i, -, -, hsteps⟩
        · exact Session.opened_of_acts (r.proper t) hacts hp
        · exact Session.opened_of_stepsTo (r.proper t) hsteps hp
      have hnone : p.ends = [] := by
        rcases hfresh with ⟨p₀, hp₀⟩ | hnone
        · cases hbefore.symm.trans hp₀
        · exact hnone
      refine ⟨t + 1, Nat.le_refl _, p, hp, hnone, ?_⟩
      intro t' hlt
      cases hp' : r.publication? t' q with
      | none => rfl
      | some p' =>
        obtain ⟨p₀, hp₀, -⟩ := publication?_of_le (Nat.le_of_lt_succ hlt) hp'
        cases hbefore.symm.trans hp₀

/-- The outcomes of a publication are those of its invocations that have ended, one from each. -/
theorem exists_endings (hp : r.publication? t q = some p) : ∃ es, r.Endings t q p es := by
  obtain ⟨t₀, hle, p₀, hp₀, hnone, hbefore⟩ := exists_opened hp
  have hq : q ≤ (r.session t₀).issued := (r.proper t₀).publication q p₀ hp₀
  obtain ⟨es, hes, hends⟩ := settles_of_le hq hle
  refine ⟨es, ?_, hes.once, ?_, hends⟩
  · obtain ⟨p', hp', hsame⟩ := hes.ends p₀ hp₀
    obtain rfl := Option.some.inj (hp.symm.trans hp')
    rw [hsame, hnone, List.nil_append]
  · intro a
    rw [hes.ended a]
    refine and_congr_left fun _ => ?_
    constructor
    · intro hthere
      exact ⟨t₀, hthere⟩
    · intro hsometime
      rcases hsometime with ⟨t', i, hi, hpub⟩
      -- a publish has no invocations before it begins, and no new ones afterwards
      have hle' : t₀ ≤ t' := by
        by_contra hlt
        obtain ⟨p', hp'⟩ := (r.proper t').belongs a i hi
        rw [hpub] at hp'
        cases (hbefore t' (Nat.lt_of_not_le hlt)).symm.trans hp'
      exact invocation?_of_made hle' hp₀ hi hpub

end PubSub.Run
