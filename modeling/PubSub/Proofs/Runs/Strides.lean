import Mathlib.Data.Set.Finite.Lattice
import PubSub.Proofs.Runs.Failures
import PubSub.Proofs.Runs.Lineage

/-!
# Strides

Between its own steps an invocation stays as it is. Each of its steps ends it, stops it where it has to wait, or leaves
it with less to do, so it takes finitely many, however the others go on.
-/

namespace PubSub

/-- A part of what the first behaviour has to do is all that the second one has. -/
inductive Behaviour.Leads : Behaviour → Behaviour → Prop
  | follows {p p' : Behaviour} (h : p.Follows p') : Leads p p'
  | later (rest : Behaviour) : Leads (.later rest) rest
  | published (bus : String) (message : Message) (next : Option Nat → Behaviour) (publication : Nat) :
    Leads (.publish bus message next) (next (some publication))
  | awaited (publication : Nat) (next : Except PublishError Delivery → Behaviour)
    (result : Except PublishError Delivery) :
    Leads (.await publication next) (next result)

theorem Behaviour.acc_leads (p : Behaviour) : Acc (fun p' p => Leads p p') p := by
  induction p with
  | reply | fail | crash =>
    refine .intro _ fun p' h => ?_
    cases h with
    | follows h => cases h
  | later rest ih =>
    refine .intro _ fun p' h => ?_
    cases h with
    | follows h => cases h
    | later => exact ih
  | record entry next ih | arrive gate next ih | pass gate next ih | forward publication next ih =>
    refine .intro _ fun p' h => ?_
    cases h with
    | follows h =>
      cases h
      exact ih
  | request command next ih =>
    refine .intro _ fun p' h => ?_
    cases h with
    | follows h =>
      cases h
      exact ih _
  | workerName next ih =>
    refine .intro _ fun p' h => ?_
    cases h with
    | follows h =>
      cases h
      exact ih _
  | publish bus message next ih =>
    refine .intro _ fun p' h => ?_
    cases h with
    | follows h =>
      cases h
      exact ih _
    | published => exact ih _
  | await publication next ih =>
    refine .intro _ fun p' h => ?_
    cases h with
    | follows h => cases h
    | awaited => exact ih _

def Behaviour.isQuiet : Behaviour → Bool
  | .request _ _ | .publish _ _ _ => false
  | _ => true

namespace Invocation

variable {i i' : Invocation}

/-- The invocation is called, or goes on with what it does. -/
inductive GetsOn (i i' : Invocation) : Prop
  | called {p : Behaviour} (hrest : i.rest? = none) (hrest' : i'.rest? = some p) : GetsOn i i'
  | led {p p' : Behaviour} (hrest : i.rest? = some p) (hrest' : i'.rest? = some p') (h : p.Leads p') : GetsOn i i'

/-- What a step makes of an invocation that does not end. -/
inductive Nears (i i' : Invocation) : Prop
  | gotOn (h : i.GetsOn i') : Nears i i'
  | stopped (h : i.parked = false) (h' : i'.parked = true) (hsame : i'.rest? = i.rest?) : Nears i i'

private theorem acc_of_getsOn
    (h : ∀ i₀ i' : Invocation, i₀.rest? = i.rest? → i₀.GetsOn i' → Acc (fun i' i => Nears i i') i') :
    Acc (fun i' i => Nears i i') i := by
  have hstopped {j : Invocation} (hparked : j.parked = true) (hsame : j.rest? = i.rest?) :
      Acc (fun i' i => Nears i i') j := by
    refine .intro _ fun k hk => ?_
    cases hk with
    | gotOn hgot => exact h j k hsame hgot
    | stopped hnot => cases hnot.symm.trans hparked
  refine .intro _ fun i' hi' => ?_
  cases hi' with
  | gotOn hgot => exact h i i' rfl hgot
  | stopped _ hparked hsame => exact hstopped hparked hsame

private theorem acc_of_rest {p : Behaviour} (hrest : i.rest? = some p) : Acc (fun i' i => Nears i i') i := by
  induction p.acc_leads generalizing i with
  | intro p _ ih =>
    refine acc_of_getsOn fun i₀ i' hsame hgot => ?_
    rw [hrest] at hsame
    cases hgot with
    | called hnone => cases hnone.symm.trans hsame
    | led hrest₀ hrest' hleads =>
      obtain rfl := Option.some.inj (hsame.symm.trans hrest₀)
      exact ih _ hleads hrest'

theorem acc_nears (i : Invocation) : Acc (fun i' i => Nears i i') i := by
  cases hrest : i.rest? with
  | some p => exact acc_of_rest hrest
  | none =>
    refine acc_of_getsOn fun i₀ i' hsame hgot => ?_
    rw [hrest] at hsame
    cases hgot with
    | called _ hrest' => exact acc_of_rest hrest'
    | led hrest₀ => cases hsame.symm.trans hrest₀

end Invocation

namespace Session

variable {s s' : Session} {id : Nat} {i : Invocation}

section Others

variable {a : Nat} {j : Invocation}

theorem invocation_of_effects (h : Effects s s') (hj : s'.invocations.get? a = some j) :
    s.invocations.get? a = some j := by
  induction h with
  | refl => exact hj
  | tail _ h ih => exact ih (invocation_of_effect h hj)

theorem invocation_of_acts (hs : s.Proper) {ctx : Context} (h : s.Acts ctx s') (ha : a ≤ s.issued)
    (hj : s'.invocations.get? a = some j) : s.invocations.get? a = some j := by
  cases h with
  | calmly h => exact invocation_of_effects h hj
  | publishing h haside =>
    rw [haside.invocations] at hj
    exact ((publishing_of_publishes hs h).kept a ha).symm.trans hj

theorem invocation_of_stepsTo (hs : s.Proper) (h : s.StepsTo id i s') (hne : a ≠ id) (ha : a ≤ s.issued)
    (hj : s'.invocations.get? a = some j) : s.invocations.get? a = some j := by
  have hold {s₁ s₂ : Session} (hs₁ : s₁.Proper) (ha : a ≤ s₁.issued) (hp : Progress id s₁ s₂)
      (hj : s₂.invocations.get? a = some j) : s₁.invocations.get? a = some j := by
    rcases invocation_of_progress hs₁ hp hne hj with hsame | ⟨hnew, -⟩
    · exact hsame
    · omega
  cases h with
  | wentOn hacts hi₁ hp hi' =>
    have hissued := (Extends.acts hs hacts).issued
    exact invocation_of_acts hs hacts ha (hold (hs.moves hacts.moves) (Nat.le_trans ha hissued) hp hj)
  | ended hproceeds ho heffects hi₁ => exact invocation_of_effects heffects (invocation_of_finish hj)
  | interrupted hstopped heffects hi₁ hp hkept hleave hi' hsame =>
    have hacts : s.Acts i.context _ := .calmly heffects
    have hissued := (Extends.acts hs hacts).issued
    have hlater := invocation_of_effects hleave (invocation_of_finish hj)
    exact invocation_of_effects heffects (hold (hs.moves hacts.moves) (Nat.le_trans ha hissued) hp hlater)

end Others

section Own

private theorem getsOn_of_advance {p : Behaviour} (hrest : i.rest? = some p) (h : s.advance id i p = some s') :
    s'.invocations.get? id = none ∨ ∃ i', s'.invocations.get? id = some i' ∧ i.GetsOn i' := by
  have hput {s₁ : Session} {p' : Behaviour} (hleads : p.Leads p') (hs' : s₁.putInvocation id (i.goOn p') = s') :
      s'.invocations.get? id = none ∨ ∃ i', s'.invocations.get? id = some i' ∧ i.GetsOn i' := by
    subst hs'
    exact Or.inr ⟨_, get?_putInvocation .., .led hrest (i.rest?_goOn p') hleads⟩
  cases p with
  | reply | fail | crash =>
    obtain rfl := Option.some.inj h
    exact Or.inl (gone_conclude ..)
  | later rest =>
    obtain rfl := Option.some.inj h
    exact Or.inr ⟨_, get?_putInvocation .., .led hrest rfl (.later rest)⟩
  | request command next => exact hput (.follows (.request command next _)) (Option.some.inj h)
  | record entry next => exact hput (.follows (.record entry next)) (Option.some.inj h)
  | arrive gate next => exact hput (.follows (.arrive gate next)) (Option.some.inj h)
  | forward publication next => exact hput (.follows (.forward publication next)) (Option.some.inj h)
  | workerName next => exact hput (.follows (.workerName next _)) (Option.some.inj h)
  | pass gate next =>
    simp only [advance] at h
    split at h
    · exact hput (.follows (.pass gate next)) (Option.some.inj h)
    · cases h
  | publish bus message next =>
    simp only [advance] at h
    split at h
    · obtain rfl := Option.some.inj h
      exact Or.inl (gone_conclude ..)
    · rename_i publication _
      cases publication with
      | none => exact hput (.follows (.unpublished bus message next)) (Option.some.inj h)
      | some publication => exact hput (.published bus message next publication) (Option.some.inj h)
  | await publication next =>
    simp only [advance, Option.bind_eq_bind] at h
    obtain ⟨p, -, h⟩ := Option.bind_eq_some_iff.1 h
    obtain ⟨result, -, h⟩ := Option.bind_eq_some_iff.1 h
    exact hput (.awaited publication next result) (Option.some.inj h)

private theorem getsOn_of_call (hrest : i.rest? = none) :
    (s.call id i).invocations.get? id = none ∨ ∃ i', (s.call id i).invocations.get? id = some i' ∧ i.GetsOn i' := by
  simp only [call]
  split
  · exact Or.inl (gone_conclude ..)
  · exact Or.inl (gone_conclude ..)
  · exact Or.inr ⟨_, get?_putInvocation .., .called hrest (i.rest?_goOn _)⟩

theorem nears_of_step (hi : s.invocations.get? id = some i) (h : s.step id = some s') :
    s'.invocations.get? id = none ∨ ∃ i', s'.invocations.get? id = some i' ∧ i.Nears i' := by
  obtain ⟨j, hj, htakes⟩ := takes_of_step h
  obtain rfl := Option.some.inj (hi.symm.trans hj)
  have hgot (h : s'.invocations.get? id = none ∨ ∃ i', s'.invocations.get? id = some i' ∧ i.GetsOn i') :
      s'.invocations.get? id = none ∨ ∃ i', s'.invocations.get? id = some i' ∧ i.Nears i' :=
    h.imp_right fun ⟨i', hi', hgot⟩ => ⟨i', hi', .gotOn hgot⟩
  cases htakes with
  | called hrest => exact hgot (getsOn_of_call hrest)
  | advanced hrest hadvance => exact hgot (getsOn_of_advance hrest hadvance)
  | parked _ hidle =>
    have hparked : (i.park s.issue.2).parked = true := by
      simp only [Invocation.park]
      split <;> rfl
    exact Or.inr ⟨_, get?_putInvocation .., .stopped hidle hparked (i.rest?_park _)⟩
  | interrupted => exact Or.inl (get?_finish ..)

end Own

section Alone

variable {b : Nat}

private theorem kept_of_put (hne : b ≠ id) (i : Invocation) :
    (s.putInvocation id i).invocations.get? b = s.invocations.get? b :=
  (Table.get?_put ..).trans (if_neg hne)

private theorem kept_of_conclude (hne : b ≠ id) (result : Except ListenerError (Option Value)) :
    (s.conclude id i result).invocations.get? b = s.invocations.get? b := by
  have hfinish (s : Session) (o : Outcome) : (s.finish id i o).invocations.get? b = s.invocations.get? b := by
    rw [(finish_frame s id i o).2.2.2.1, Table.get?_erase, if_neg hne]
  simp only [conclude]
  split
  · exact hfinish ..
  · split
    · exact hfinish ..
    · rw [hfinish, (aside_report _ _).invocations]

private theorem kept_of_advance {p : Behaviour} (hquiet : p.isQuiet) (h : s.advance id i p = some s') (hne : b ≠ id) :
    s'.invocations.get? b = s.invocations.get? b := by
  have hleave : (s.leaveCall i).invocations = s.invocations := (aside_leaveCall s i).invocations
  cases p with
  | reply | fail | crash =>
    obtain rfl := Option.some.inj h
    simp only [failed, kept_of_conclude hne, hleave]
  | later =>
    obtain rfl := Option.some.inj h
    rw [kept_of_put hne, hleave]
  | record | arrive | forward | workerName =>
    obtain rfl := Option.some.inj h
    exact kept_of_put hne _
  | pass gate next =>
    simp only [advance] at h
    split at h
    · obtain rfl := Option.some.inj h
      exact kept_of_put hne _
    · cases h
  | await publication next =>
    simp only [advance, Option.bind_eq_bind] at h
    obtain ⟨p, -, h⟩ := Option.bind_eq_some_iff.1 h
    obtain ⟨result, -, h⟩ := Option.bind_eq_some_iff.1 h
    obtain rfl := Option.some.inj h
    rw [kept_of_put hne, invocations_watch]
  | request | publish => cases hquiet

private theorem kept_of_park (hne : b ≠ id) : (s.park id i).invocations.get? b = s.invocations.get? b := by
  simp only [park]
  rw [kept_of_put hne]
  split
  · rw [invocations_watch]
    rfl
  · rfl
  · rfl

theorem kept_of_step (hi : s.invocations.get? id = some i) (hquiet : ∀ p, i.rest? = some p → p.isQuiet)
    (h : s.step id = some s') (hne : b ≠ id) : s'.invocations.get? b = s.invocations.get? b := by
  obtain ⟨j, hj, htakes⟩ := takes_of_step h
  obtain rfl := Option.some.inj (hi.symm.trans hj)
  cases htakes with
  | called =>
    simp only [call]
    split
    · exact kept_of_conclude hne _
    · exact kept_of_conclude hne _
    · exact kept_of_put hne _
  | advanced hrest hadvance => exact kept_of_advance (hquiet _ hrest) hadvance hne
  | parked => exact kept_of_park hne
  | interrupted => rw [(interrupt_frame ..).2, Table.get?_erase, if_neg hne, kept_of_park hne]

end Alone

end Session

namespace Run

variable {r : Run} {t t' a : Nat} {i i' : Invocation}

def Steps (r : Run) (a t : Nat) : Prop :=
  (r.session t).step a = some (r.session (t + 1))

theorem same_or_steps (ha : a ≤ (r.session t).issued) (hi' : r.invocation? (t + 1) a = some i') :
    r.invocation? t a = some i' ∨ r.Steps a t := by
  rcases r.cases_next t with hacts | ⟨id, i, hstep, -, hsteps⟩
  · exact Or.inl (Session.invocation_of_acts (r.proper t) hacts ha hi')
  · by_cases hid : a = id
    · exact Or.inr (hid ▸ hstep)
    · exact Or.inl (Session.invocation_of_stepsTo (r.proper t) hsteps hid ha hi')

theorem same_of_waiting (h : t ≤ t') (hi : r.invocation? t a = some i) (hi' : r.invocation? t' a = some i')
    (hwaits : ∀ u, t ≤ u → u < t' → ¬ r.Steps a u) : i' = i := by
  induction h generalizing i' with
  | refl => exact Option.some.inj (hi'.symm.trans hi)
  | @step t' hle ih =>
    have hissued := Nat.le_trans (issued_of_invocation? hi) (extends_of_le hle).issued
    rcases same_or_steps hissued hi' with hsame | hsteps
    · exact ih hsame fun u hfrom hto => hwaits u hfrom (Nat.lt_succ_of_lt hto)
    · exact absurd hsteps (hwaits t' hle (Nat.lt_succ_self t'))

private theorem finite_steps_from (hi : r.invocation? t a = some i) : {u | t ≤ u ∧ r.Steps a u}.Finite := by
  classical
  -- by the first step from here on, which leaves less to do
  induction i.acc_nears generalizing t with
  | intro i _ ih =>
    by_cases hsome : ∃ u, t ≤ u ∧ r.Steps a u
    · obtain ⟨hle, hsteps⟩ := Nat.find_spec hsome
      generalize hfirst : Nat.find hsome = u at hle hsteps
      obtain ⟨j, hj⟩ := exists_invocation_of_step hsteps
      obtain rfl := same_of_waiting hle hi hj fun v hfrom hto hsteps =>
        Nat.find_min hsome (hfirst ▸ hto) ⟨hfrom, hsteps⟩
      have hrest : {v | u + 1 ≤ v ∧ r.Steps a v}.Finite := by
        rcases Session.nears_of_step hj hsteps with hgone | ⟨i', hi', hnears⟩
        · refine Set.finite_empty.subset ?_
          intro v hv
          obtain ⟨hlater, hsteps'⟩ := hv
          obtain ⟨k, hk⟩ := exists_invocation_of_step hsteps'
          have hissued := Nat.le_trans (issued_of_invocation? hj) (extends_of_le (Nat.le_succ u)).issued
          cases hk.symm.trans (gone_of_le hlater hissued hgone)
        · exact ih i' hnears hi'
      refine (hrest.insert u).subset ?_
      intro v hv
      obtain ⟨hfrom, hsteps'⟩ := hv
      have hmin : u ≤ v := hfirst ▸ Nat.find_min' hsome ⟨hfrom, hsteps'⟩
      rcases Nat.eq_or_lt_of_le hmin with rfl | hlt
      · exact Set.mem_insert ..
      · exact Set.mem_insert_of_mem _ ⟨hlt, hsteps'⟩
    · refine Set.finite_empty.subset ?_
      intro u hu
      exact hsome ⟨u, hu⟩

theorem finite_steps (r : Run) (a : Nat) : {t | r.Steps a t}.Finite := by
  by_cases hsome : ∃ t i, r.invocation? t a = some i
  · obtain ⟨t, i, hi⟩ := hsome
    refine ((Set.finite_lt_nat t).union (finite_steps_from hi)).subset ?_
    intro u hu
    rcases Nat.lt_or_ge u t with hlt | hge
    · exact Or.inl hlt
    · exact Or.inr ⟨hge, hu⟩
  · refine Set.finite_empty.subset ?_
    intro t ht
    obtain ⟨i, hi⟩ := exists_invocation_of_step ht
    exact hsome ⟨t, i, hi⟩

/-- Whoever can take a step at all moments from some one on takes one. -/
def Fair (r : Run) : Prop :=
  ∀ t a, (∀ u ≥ t, (r.session u).step a ≠ none) → ∃ u ≥ t, r.Steps a u

/-- An invocation that never ends stands still in the end, since it cannot go on. -/
theorem Fair.stands_still (hfair : r.Fair) (hthere : ∀ u ≥ t, (r.invocation? u a).isSome) : ∃ v ≥ t, ∃ i,
    ∀ u ≥ v, r.invocation? u a = some i ∧ ∃ w ≥ u, (r.session w).step a = none := by
  obtain ⟨last, hlast⟩ := (r.finite_steps a).bddAbove
  have hrests {u : Nat} (hlt : last < u) : ¬ r.Steps a u := fun hsteps => Nat.not_le_of_lt hlt (hlast hsteps)
  obtain ⟨i, hi⟩ := Option.isSome_iff_exists.1 (hthere (max t (last + 1)) (Nat.le_max_left ..))
  refine ⟨max t (last + 1), Nat.le_max_left .., i, ?_⟩
  intro u hu
  constructor
  · obtain ⟨j, hj⟩ := Option.isSome_iff_exists.1 (hthere u (by omega))
    rw [hj, same_of_waiting hu hi hj fun w hfrom _ => hrests (by omega)]
  · by_contra hable
    have hable' : ∀ w ≥ u, (r.session w).step a ≠ none := fun w hw hnone => hable ⟨w, hw, hnone⟩
    obtain ⟨w, hw, hsteps⟩ := hfair u a hable'
    exact hrests (by omega) hsteps

end Run
end PubSub
