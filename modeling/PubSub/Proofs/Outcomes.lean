import Mathlib.Data.List.FinRange
import Mathlib.Data.List.Sort
import PubSub.Publication

/-!
# Outcomes

The outcomes of the invocations of a publish come in one by one, in any order. The publish is resolved when the last one
is in, and only the order of its failures tells in which order they came, and when it was awaited.
-/

namespace PubSub

namespace Delivery

/-- The same result, but for the order of the failures. -/
inductive Alike : Except PublishError Delivery → Except PublishError Delivery → Prop
  | same (result : Except PublishError Delivery) : Alike result result
  | reordered {first first' : ListenerFailure} {rest rest' : List ListenerFailure}
    (h : (first :: rest).Perm (first' :: rest')) :
    Alike (.error (.listenersFailed first rest)) (.error (.listenersFailed first' rest'))

variable {outcomes outcomes' : List Outcome}

theorem join_of_failed {first : ListenerFailure} {rest : List ListenerFailure}
    (h : outcomes.filterMap Outcome.failure? = first :: rest) :
    join outcomes = .error (.listenersFailed first rest) := by
  simp only [join, h]

theorem join_of_lost (h : outcomes.filterMap Outcome.failure? = []) (hlost : 0 < outcomes.countP Outcome.isLost) :
    join outcomes = .error (.interrupted (outcomes.countP Outcome.isLost)) := by
  simp only [join, h, hlost, if_true]

theorem join_of_replied (h : outcomes.filterMap Outcome.failure? = []) (hlost : outcomes.countP Outcome.isLost = 0) :
    ∃ v, join outcomes = .ok ⟨outcomes.length, v⟩ ∧ ∀ value, v = some value ↔ outcomes = [.replied (some value)] := by
  match outcomes with
  | [] => exact ⟨none, rfl, by simp⟩
  | [only] =>
    refine ⟨only.value?, by simp only [join, h, hlost, Nat.lt_irrefl, if_false], ?_⟩
    intro value
    cases only <;> simp [Outcome.value?]
  | _ :: _ :: _ => exact ⟨none, by simp only [join, h, hlost, Nat.lt_irrefl, if_false], by simp⟩

theorem join_cases (hlost : outcomes.countP Outcome.isLost = 0) :
    (∃ first rest, outcomes.filterMap Outcome.failure? = first :: rest ∧
      join outcomes = .error (.listenersFailed first rest)) ∨
    (outcomes.filterMap Outcome.failure? = [] ∧ ∃ d, join outcomes = .ok d) := by
  cases hf : outcomes.filterMap Outcome.failure? with
  | cons first rest => exact Or.inl ⟨first, rest, rfl, join_of_failed hf⟩
  | nil =>
    obtain ⟨v, hv, -⟩ := join_of_replied hf hlost
    exact Or.inr ⟨rfl, _, hv⟩

theorem alike_join (h : outcomes.Perm outcomes') : Alike (join outcomes) (join outcomes') := by
  have hfailures : (outcomes.filterMap Outcome.failure?).Perm (outcomes'.filterMap Outcome.failure?) := h.filterMap _
  have hcount : outcomes.countP Outcome.isLost = outcomes'.countP Outcome.isLost := h.countP_eq _
  cases hf : outcomes.filterMap Outcome.failure? with
  | cons first rest =>
    cases hf' : outcomes'.filterMap Outcome.failure? with
    | nil =>
      rw [hf, hf'] at hfailures
      cases hfailures.eq_nil
    | cons first' rest' =>
      rw [hf, hf'] at hfailures
      rw [join_of_failed hf, join_of_failed hf']
      exact .reordered hfailures
  | nil =>
    rw [hf] at hfailures
    have hf' : outcomes'.filterMap Outcome.failure? = [] := hfailures.nil_eq.symm
    by_cases hlost : 0 < outcomes.countP Outcome.isLost
    · rw [join_of_lost hf hlost, join_of_lost hf' (hcount ▸ hlost), hcount]
      exact .same _
    · have hnone : outcomes.countP Outcome.isLost = 0 := by omega
      obtain ⟨v, hv, hvalue⟩ := join_of_replied hf hnone
      obtain ⟨v', hv', hvalue'⟩ := join_of_replied hf' (hcount ▸ hnone)
      have hsame : v = v' := by
        apply Option.ext
        intro value
        rw [hvalue, hvalue']
        constructor
        · intro hone
          exact List.perm_singleton.1 (hone ▸ h.symm)
        · intro hone
          exact List.perm_singleton.1 (hone ▸ h)
      rw [hv, hv', hsame, h.length_eq]
      exact .same _

end Delivery

namespace Publication

private theorem file_eq (e : Nat × Outcome) (ends : List (Nat × Outcome)) :
    file e ends = ends.orderedInsert (fun f g => f.1 ≤ g.1) e := by
  induction ends with
  | nil => rfl
  | cons f rest ih => simp only [file, List.orderedInsert_cons, ih]

theorem filed_eq_insertionSort (ends : List (Nat × Outcome)) :
    filed ends = ends.insertionSort fun e f => e.1 ≤ f.1 := by
  induction ends with
  | nil => rfl
  | cons e rest ih =>
    rw [List.insertionSort_cons, ← ih, ← file_eq]
    rfl

theorem exists_observed (p : Publication) :
    ∃ es : List (Nat × Outcome), es.Perm p.ends ∧ p.observed = es.map Prod.snd := by
  refine ⟨_, ?_, rfl⟩
  rw [filed_eq_insertionSort]
  exact ((List.perm_insertionSort _ _).append_right _).trans (by rw [List.take_append_drop])

theorem observed_perm (p : Publication) : p.observed.Perm p.outcomes := by
  obtain ⟨es, hperm, hobserved⟩ := p.exists_observed
  exact hobserved ▸ hperm.map Prod.snd

theorem result?_of_accepted {p : Publication} (h : p.refusal = none) :
    p.result? = if p.ends.length < p.scheduled then none else some (Delivery.join p.observed) := by
  simp only [result?, h]

/-- What befalls a publish of `n` invocations: one of them ends, or someone begins or ceases to await the publish. -/
inductive Turn (n : Nat) where
  | ended (i : Fin n)
  | awaited
  | left

namespace Turn

def invocation? {n : Nat} : Turn n → Option (Fin n)
  | ended i => some i
  | awaited | left => none

def isAwaited {n : Nat} : Turn n → Bool
  | awaited => true
  | ended _ | left => false

/-- The invocations that were over when the publish was awaited for the first time, as they were made, and then the
others, as they ended. -/
def observation {n : Nat} (turns : List (Turn n)) : List (Fin n) :=
  let early := (turns.takeWhile fun t => !t.isAwaited).filterMap invocation?
  let late := (turns.dropWhile fun t => !t.isAwaited).filterMap invocation?
  (List.finRange n).filter (· ∈ early) ++ late

end Turn

/-- The publication after these turns, if its invocations are named by `name` and end with these outcomes. -/
def follow {n : Nat} (name : Fin n → Nat) (outcome : Fin n → Outcome) (p : Publication) (turns : List (Turn n)) :
    Publication :=
  turns.foldl (fun p t => match t with
    | .ended i => p.add (name i) (outcome i)
    | .awaited => p.await
    | .left => p.leave) p

section Turns

variable {n : Nat} (name : Fin n → Nat) (outcome : Fin n → Outcome) {turns : List (Turn n)}

private theorem rest_follow (p : Publication) (turns : List (Turn n)) :
    (p.follow name outcome turns).refusal = p.refusal ∧ (p.follow name outcome turns).scheduled = p.scheduled ∧
      (p.follow name outcome turns).ends =
        p.ends ++ (turns.filterMap Turn.invocation?).map fun i => (name i, outcome i) := by
  induction turns generalizing p with
  | nil => simp [follow]
  | cons t rest ih =>
    cases t with
    | ended i =>
      obtain ⟨hrefusal, hscheduled, hends⟩ := ih (p.add (name i) (outcome i))
      exact ⟨hrefusal, hscheduled, hends.trans (by simp [add, Turn.invocation?])⟩
    | awaited => exact ih p.await
    | left => exact ih p.leave

private theorem early_follow_of_some (p : Publication) (turns : List (Turn n)) {early : Nat} (h : p.early = some early) :
    (p.follow name outcome turns).early = some early := by
  induction turns generalizing p with
  | nil => exact h
  | cons t rest ih =>
    cases t with
    | ended i => exact ih (p.add (name i) (outcome i)) h
    | awaited => exact ih p.await (by simp [await, h])
    | left => exact ih p.leave h

private theorem early_follow_of_none (p : Publication) (turns : List (Turn n)) (h : p.early = none) :
    (p.follow name outcome turns).early = none ∧ turns.dropWhile (fun t => !t.isAwaited) = [] ∨
      (p.follow name outcome turns).early = some (p.ends.length +
        ((turns.takeWhile fun t => !t.isAwaited).filterMap Turn.invocation?).length) := by
  induction turns generalizing p with
  | nil => exact Or.inl ⟨h, rfl⟩
  | cons t rest ih =>
    cases t with
    | ended i =>
      refine (ih (p.add (name i) (outcome i)) h).imp id fun hearly => hearly.trans ?_
      simp [add, Turn.isAwaited, Turn.invocation?]
      omega
    | awaited =>
      have hawaited : p.await.early = some p.ends.length := by simp [await, h]
      refine Or.inr ((early_follow_of_some name outcome p.await rest hawaited).trans ?_)
      simp [Turn.isAwaited]
    | left => exact ih p.leave h

variable {name} in
private theorem filed_map (hname : StrictMono name) {early : List (Fin n)} (hearly : early.Nodup) :
    filed (early.map fun i => (name i, outcome i)) =
      ((List.finRange n).filter (· ∈ early)).map fun i => (name i, outcome i) := by
  have hsort : early.insertionSort (· ≤ ·) = (List.finRange n).filter (· ∈ early) := by
    have hperm : (early.insertionSort (· ≤ ·)).Perm ((List.finRange n).filter (· ∈ early)) := by
      refine (List.perm_insertionSort _ early).trans ((List.perm_ext_iff_of_nodup hearly ?_).2 ?_)
      · exact (List.nodup_finRange n).filter _
      · simp
    exact hperm.eq_of_pairwise' (List.pairwise_insertionSort (· ≤ ·) early)
      ((List.pairwise_le_finRange n).filter _)
  rw [filed_eq_insertionSort, ← hsort]
  refine (List.map_insertionSort _ _ (fun i => (name i, outcome i)) early ?_).symm
  intro i _ j _
  exact hname.le_iff_le.symm

variable {name} in
private theorem observed_of_ends (hname : StrictMono name) {p : Publication} {early late : List (Fin n)}
    (hearly : early.Nodup) (hends : p.ends = (early ++ late).map fun i => (name i, outcome i))
    (hfirst : p.early.getD p.ends.length = early.length) :
    p.observed = ((List.finRange n).filter (· ∈ early) ++ late).map outcome := by
  have htake : p.ends.take early.length = early.map fun i => (name i, outcome i) := by simp [hends]
  have hdrop : p.ends.drop early.length = late.map fun i => (name i, outcome i) := by simp [hends]
  simp only [observed, hfirst, htake, hdrop, filed_map outcome hname hearly, List.map_append, List.map_map]
  rfl

variable {name} in
private theorem observed_follow (hname : StrictMono name) (hturns : (turns.filterMap Turn.invocation?).Nodup) :
    ((underWay n).follow name outcome turns).observed = (Turn.observation turns).map outcome := by
  obtain ⟨-, -, hends⟩ := rest_follow name outcome (underWay n) turns
  have hsplit := congrArg (List.filterMap Turn.invocation?)
    (List.takeWhile_append_dropWhile (p := fun t : Turn n => !t.isAwaited) (l := turns))
  rw [List.filterMap_append] at hsplit
  rw [← hsplit] at hturns hends
  refine observed_of_ends outcome hname (List.nodup_append.1 hturns).1 hends ?_
  rcases early_follow_of_none name outcome (underWay n) turns rfl with ⟨hearly, hlate⟩ | hearly
  · rw [hearly, hends, hlate]
    simp [underWay]
  · rw [hearly]
    simp [underWay]

private theorem observation_perm (turns : List (Turn n)) (hturns : (turns.filterMap Turn.invocation?).Nodup) :
    (Turn.observation turns).Perm (turns.filterMap Turn.invocation?) := by
  have hsplit := congrArg (List.filterMap Turn.invocation?)
    (List.takeWhile_append_dropWhile (p := fun t : Turn n => !t.isAwaited) (l := turns))
  rw [List.filterMap_append] at hsplit
  rw [← hsplit] at hturns ⊢
  refine List.Perm.append_right _ ((List.perm_ext_iff_of_nodup ?_ (List.nodup_append.1 hturns).1).2 ?_)
  · exact (List.nodup_finRange n).filter _
  · simp

private theorem result?_follow (turns : List (Turn n)) : ((underWay n).follow name outcome turns).result? =
    if (turns.filterMap Turn.invocation?).length < n then none
    else some (Delivery.join ((underWay n).follow name outcome turns).observed) := by
  obtain ⟨hrefusal, hscheduled, hends⟩ := rest_follow name outcome (underWay n) turns
  have hlength : ((underWay n).follow name outcome turns).ends.length =
      (turns.filterMap Turn.invocation?).length := by
    rw [hends]
    simp [underWay]
  rw [result?_of_accepted hrefusal, hscheduled, hlength]
  rfl

end Turns

section Orders

variable {n : Nat} (outcome : Fin n → Outcome) {order : List (Fin n)} (horder : order.Perm (List.finRange n))
include horder

private theorem filterMap_eq_nil_iff :
    (order.map outcome).filterMap Outcome.failure? = [] ↔ ∀ i f, outcome i ≠ .failed f := by
  rw [List.filterMap_map, List.filterMap_eq_nil_iff]
  constructor
  · intro hnone i f hfailed
    have hi : i ∈ order := horder.mem_iff.2 (List.mem_finRange i)
    simpa [hfailed, Outcome.failure?] using hnone i hi
  · intro hnone i _
    cases ho : outcome i with
    | failed f => exact absurd ho (hnone i f)
    | replied v => simp [ho, Outcome.failure?]
    | lost c => simp [ho, Outcome.failure?]

private theorem countP_isLost : (order.map outcome).countP Outcome.isLost =
    (List.finRange n).countP fun i => (outcome i).isLost := by
  rw [List.countP_map]
  exact horder.countP_eq _

omit horder in
private theorem countP_pos_iff :
    0 < ((List.finRange n).countP fun i => (outcome i).isLost) ↔ ∃ i c, outcome i = .lost c := by
  rw [List.countP_pos_iff]
  constructor
  · intro hlost
    rcases hlost with ⟨i, -, hlost⟩
    cases ho : outcome i with
    | lost c => exact ⟨i, c, ho⟩
    | _ => simp [ho, Outcome.isLost] at hlost
  · intro hlost
    rcases hlost with ⟨i, c, ho⟩
    exact ⟨i, List.mem_finRange i, by simp [ho, Outcome.isLost]⟩

private theorem eq_singleton_iff (o : Outcome) : order.map outcome = [o] ↔ n = 1 ∧ ∃ i, outcome i = o := by
  have hlength : order.length = n := horder.length_eq.trans List.length_finRange
  constructor
  · intro hone
    obtain ⟨i, rfl, rfl⟩ := List.map_eq_singleton_iff.1 hone
    exact ⟨hlength.symm, i, rfl⟩
  · intro hone
    rcases hone with ⟨rfl, i, rfl⟩
    obtain ⟨j, rfl⟩ := List.length_eq_one_iff.1 hlength
    rw [List.map_singleton, Subsingleton.elim j i]

end Orders

private def mixed : Fin 3 → Outcome
  | 0 => .failed (.mk "event" (.named (.simple 0)) "first" "callback" (.crashed "message"))
  | 1 => .failed (.mk "event" (.named (.simple 0)) "second" "callback" (.crashed "message"))
  | 2 => .lost false

end Publication
end PubSub
