import PubSub.Proofs.Outcomes
import PubSub.Proofs.Runs.Completion
import PubSub.Proofs.Runs.Endings

/-!
# Failures

On buses that have their workers, a publish reports each failure of its invocations, and never says that it was
interrupted, provided that its event can be rendered and, where notices are taken down, that the causes can be printed:
both are part of recording a failure, and happen where a crash ends the invocation without a trace.
-/

namespace PubSub

theorem Invocation.failure_eq {i : Invocation} {text : String} (h : i.event.debug = .ok text) {tracing : Bool}
    {cause : ListenerError} (hcause : tracing → cause.isPrintable) : i.failure tracing cause =
      .ok (.mk text i.subscription.key i.subscription.callback.target i.subscription.callback.name cause) := by
  have hrendered : (tracing && !cause.isPrintable) = false := by
    cases tracing with
    | false => rfl
    | true => simp [hcause rfl]
  simp only [failure, h, hrendered]
  rfl

namespace Session

variable {s s' : Session} {id : Nat} {i : Invocation} {cause : ListenerError}

private theorem Fails.unique {cause' : ListenerError} (h : s.Fails i cause) (h' : s.Fails i cause') :
    cause = cause' := by
  cases h <;> cases h' <;> simp_all [Invocation.rest?]

private theorem Fails.rest?_ne_reply (h : s.Fails i cause) (value : Option Value) : i.rest? ≠ some (.reply value) := by
  cases h <;> simp_all [Invocation.rest?]

private theorem Fails.outcome_eq {failure : ListenerFailure} {o : Outcome} (h : s.Fails i cause)
    (hrecorded : i.failure s.tracing cause = .ok failure) (ho : s.Ends i o) : o = .failed failure := by
  cases ho with
  | @replied value hrest => exact absurd hrest (h.rest?_ne_reply value)
  | failed h' hrecorded' =>
    obtain rfl := h.unique h'
    obtain rfl := Except.ok.inj (hrecorded.symm.trans hrecorded')
    rfl
  | lost h' hcrashed =>
    obtain rfl := h.unique h'
    cases hrecorded.symm.trans hcrashed

theorem gone_conclude (s : Session) (id : Nat) (i : Invocation) (result : Except ListenerError (Option Value)) :
    (s.conclude id i result).invocations.get? id = none := by
  simp only [conclude]
  split
  · exact get?_finish ..
  · split
    · exact get?_finish ..
    · exact get?_finish ..

theorem Fails.gone (h : s.Fails i cause) (hproceeds : s.proceed id i = some s') :
    s'.invocations.get? id = none := by
  cases h with
  | returned hstage | deferred hstage =>
    simp only [proceed, Invocation.rest?, hstage, advance, failed] at hproceeds
    obtain rfl := Option.some.inj hproceeds
    exact gone_conclude ..
  | gaveUp hrest =>
    simp only [proceed, hrest, advance, failed] at hproceeds
    obtain rfl := Option.some.inj hproceeds
    exact gone_conclude ..
  | @publishing bus message _ c hrest hc =>
    simp only [proceed, hrest, advance, failed] at hproceeds
    generalize s.publishMessage i.context bus message = made at hproceeds hc
    obtain ⟨s₁, result⟩ := made
    obtain rfl : result = .error c := hc
    obtain rfl := Option.some.inj hproceeds
    exact gone_conclude ..
  | unseen hrest hsight | seeing hrest hsight =>
    simp only [proceed, hrest, call, hsight] at hproceeds
    split at hproceeds
    · obtain rfl := Option.some.inj hproceeds
      exact gone_conclude ..
    · cases hproceeds

end Session

namespace Run

variable {r : Run} {t q : Nat} {p : Publication}

/-- An invocation of the publish fails in the step with which it ends. Its failure is told with the text of the event,
the key, the target and the callback of its subscription, and the cause. -/
def FailsWith (r : Run) (q a : Nat) (failure : ListenerFailure) : Prop :=
  ∃ t i cause text, r.invocation? t a = some i ∧ i.publication = q ∧
    (r.session t).proceed a i = some (r.session (t + 1)) ∧ (r.session t).Fails i cause ∧ i.event.debug = .ok text ∧
    failure = .mk text i.subscription.key i.subscription.callback.target i.subscription.callback.name cause

section Told

variable (es : List (Nat × Outcome))

private def told : List (Nat × ListenerFailure) :=
  es.filterMap fun e => e.2.failure?.map (e.1, ·)

private theorem mem_told (a : Nat) (failure : ListenerFailure) :
    (a, failure) ∈ told es ↔ (a, Outcome.failed failure) ∈ es := by
  rw [told, List.mem_filterMap]
  constructor
  · intro htold
    rcases htold with ⟨⟨b, o⟩, he, hsame⟩
    cases o with
    | failed failure' =>
      obtain ⟨rfl, rfl⟩ := Prod.mk.inj (Option.some.inj hsame)
      exact he
    | replied value => cases hsame
    | lost crashed => cases hsame
  · intro he
    exact ⟨_, he, rfl⟩

private theorem map_snd_told : (told es).map Prod.snd = (es.map Prod.snd).filterMap Outcome.failure? := by
  rw [told, List.map_filterMap, List.filterMap_map]
  apply List.filterMap_congr
  intro e _
  obtain ⟨a, o⟩ := e
  cases o <;> rfl

private theorem sublist_told : ((told es).map Prod.fst).Sublist (es.map Prod.fst) := by
  induction es with
  | nil => exact List.Sublist.slnil
  | cons e es ih =>
    obtain ⟨a, o⟩ := e
    cases o with
    | failed failure => exact ih.cons_cons a
    | replied value => exact ih.cons a
    | lost crashed => exact ih.cons a

end Told

theorem result_cases {result : Except PublishError Delivery} (hp : r.publication? t q = some p)
    (hresult : p.result? = some result) :
    (∃ error, result = .error error ∧ error.isRefusal ∧ p.ends = []) ∨ result = Delivery.join p.observed := by
  obtain ⟨hrefused, hbalance⟩ := r.balanced t q p hp
  simp only [Publication.result?] at hresult
  cases hrefusal : p.refusal with
  | some error =>
    obtain ⟨hisRefusal, hnone⟩ := hrefused error hrefusal
    rw [hrefusal] at hresult
    refine Or.inl ⟨error, (Option.some.inj hresult).symm, hisRefusal, ?_⟩
    apply List.eq_nil_of_length_eq_zero
    omega
  | none =>
    simp only [hrefusal] at hresult
    split at hresult
    · cases hresult
    · exact Or.inr (Option.some.inj hresult).symm

/-- An invocation is gone after just one moment. -/
theorem moment_unique {u u' a : Nat} {i i' : Invocation} (hi : r.invocation? u a = some i)
    (hgone : r.invocation? (u + 1) a = none) (hi' : r.invocation? u' a = some i')
    (hgone' : r.invocation? (u' + 1) a = none) : u = u' := by
  have hle {v v' : Nat} {j j' : Invocation} (hj : r.invocation? v a = some j) (hgone : r.invocation? (v + 1) a = none)
      (hj' : r.invocation? v' a = some j') : v' ≤ v := by
    by_contra hlt
    have hissued := Nat.le_trans (issued_of_invocation? hj) (extends_of_le (Nat.le_succ v)).issued
    cases hj'.symm.trans (gone_of_le (Nat.lt_of_not_le hlt) hissued hgone)
  exact Nat.le_antisymm (hle hi' hgone' hi) (hle hi hgone hi')

namespace Endings

variable {es : List (Nat × Outcome)} {e : Nat × Outcome} (h : r.Endings t q p es)
variable (hrunning : ∀ a i t', r.invocation? t' a = some i → i.publication = q → (r.session t).isRunning i.bus)
variable (hprintable : ∀ a i t', r.invocation? t' a = some i → i.publication = q → ∃ text, i.event.debug = .ok text)
variable (hcauses : ∀ a i t' cause, r.invocation? t' a = some i → i.publication = q →
  (r.session t').Fails i cause → (r.session t').tracing → cause.isPrintable)

include h hrunning in
theorem concludes (he : e ∈ es) : ∃ u i, r.invocation? u e.1 = some i ∧ i.publication = q ∧
    (r.session u).proceed e.1 i = some (r.session (u + 1)) ∧ (r.session u).Ends i e.2 ∧
    r.invocation? (u + 1) e.1 = none := by
  obtain ⟨u, hu, hend, hgone⟩ := h.moment e he
  obtain ⟨⟨t', i', hi', hpub'⟩, -⟩ := (h.ended e.1).1 (List.mem_map_of_mem he)
  have hpub {i : Invocation} (hi : r.invocation? u e.1 = some i) : i.publication = q :=
    (continues hi' hi).publication.trans hpub'
  rcases hend with ⟨i, hi, -, hstopped⟩ | ⟨i, hi, hproceeds, ho⟩
  · have hlast : (r.session t).isRunning i.bus := hrunning e.1 i u hi (hpub hi)
    have hissued : i.bus ≤ (r.session (u + 1)).issued :=
      Nat.le_trans (bus_issued hi) (extends_of_le (Nat.le_succ u)).issued
    have hstill : (r.session (u + 1)).isRunning i.bus := (extends_of_le hu).running i.bus hissued hlast
    cases hstopped.symm.trans hstill
  · exact ⟨u, i, hi, hpub hi, hproceeds, ho, hgone⟩

include h hrunning hprintable hcauses in
private theorem replied_or_fails (he : e ∈ es) :
    (∃ value, e.2 = .replied value) ∨ ∃ failure, e.2 = .failed failure ∧ r.FailsWith q e.1 failure := by
  obtain ⟨a, o⟩ := e
  obtain ⟨u, i, hi, hpub, hproceeds, ho, -⟩ := h.concludes hrunning he
  obtain ⟨text, htext⟩ := hprintable a i u hi hpub
  have htold {cause : ListenerError} (hfails : (r.session u).Fails i cause) :=
    Invocation.failure_eq htext (hcauses a i u cause hi hpub hfails)
  cases ho with
  | @replied value _ => exact Or.inl ⟨value, rfl⟩
  | @failed cause failure hfails hrecorded =>
    obtain rfl := Except.ok.inj ((htold hfails).symm.trans hrecorded)
    exact Or.inr ⟨_, rfl, u, i, cause, text, hi, hpub, hproceeds, hfails, htext, rfl⟩
  | lost hfails hcrashed => cases (htold hfails).symm.trans hcrashed

include h hrunning hprintable hcauses in
private theorem mem_told_iff_failsWith (hresolved : (r.session t).Resolved q) (a : Nat) (failure : ListenerFailure) :
    (a, failure) ∈ told es ↔ r.FailsWith q a failure := by
  rw [mem_told]
  constructor
  · intro he
    rcases h.replied_or_fails hrunning hprintable hcauses he with ⟨value, hreplied⟩ | ⟨failure', hfailed, hwith⟩
    · cases hreplied
    · obtain rfl := Outcome.failed.inj hfailed
      exact hwith
  · intro hwith
    rcases hwith with ⟨u, i, cause, text, hi, hpub, hproceeds, hfails, htext, rfl⟩
    have hover : r.invocation? t a = none := ((ended_of_resolved hresolved).1 a i u hi hpub).2 t (Nat.le_refl t)
    obtain ⟨⟨b, o⟩, he, rfl⟩ := List.mem_map.1 ((h.ended a).2 ⟨⟨u, i, hi, hpub⟩, hover⟩)
    -- it has ended in the step in which it fails
    obtain ⟨u', i', hi', -, -, ho, hgone'⟩ := h.concludes hrunning he
    obtain rfl := moment_unique hi (hfails.gone hproceeds) hi' hgone'
    obtain rfl := Option.some.inj (hi.symm.trans hi')
    obtain rfl := hfails.outcome_eq (Invocation.failure_eq htext (hcauses _ i u cause hi hpub hfails)) ho
    exact he

include h hrunning hprintable hcauses in
private theorem countP_lost : p.observed.countP Outcome.isLost = 0 := by
  rw [p.observed_perm.countP_eq, Publication.outcomes, h.ends, List.countP_map, List.countP_eq_zero]
  intro e he
  rcases h.replied_or_fails hrunning hprintable hcauses he with ⟨value, ho⟩ | ⟨failure, ho, -⟩
  · simp [ho, Outcome.isLost]
  · simp [ho, Outcome.isLost]

end Endings

/-- In whatever way a program and its listeners go on: as long as the buses of a publish have their workers, and if its
event can be rendered and, where notices are taken down, what its listeners fail with can be printed, it is never
reported as interrupted. Once its invocations have ended and some of them have failed, it is reported as failed, with
just one record from each that has failed. -/
theorem failures_reported (hp : r.publication? t q = some p)
    (hrunning : ∀ a i t', r.invocation? t' a = some i → i.publication = q → (r.session t).isRunning i.bus)
    (hprintable : ∀ a i t', r.invocation? t' a = some i → i.publication = q → ∃ text, i.event.debug = .ok text)
    (hcauses : ∀ a i t' cause, r.invocation? t' a = some i → i.publication = q →
      (r.session t').Fails i cause → (r.session t').tracing → cause.isPrintable) :
    (∀ n, p.result? ≠ some (.error (.interrupted n))) ∧
    ((∀ a i, r.invocation? t a = some i → i.publication ≠ q) →
      ∃ records : List (Nat × ListenerFailure), (records.map Prod.fst).Nodup ∧
        (∀ a failure, (a, failure) ∈ records ↔ r.FailsWith q a failure) ∧
        (records ≠ [] → ∃ first rest, p.result? = some (.error (.listenersFailed first rest)) ∧
          first :: rest = records.map Prod.snd)) := by
  obtain ⟨es, hes⟩ := exists_endings hp
  obtain ⟨es', hperm, hobserved⟩ := p.exists_observed
  rw [hes.ends] at hperm
  have hlost := hes.countP_lost hrunning hprintable hcauses
  have htold : p.observed.filterMap Outcome.failure? = (told es').map Prod.snd := by
    rw [hobserved, map_snd_told]
  refine ⟨?_, ?_⟩
  · intro n hinterrupted
    rcases result_cases hp hinterrupted with ⟨error, hsame, hrefusal, -⟩ | hjoined
    · cases hsame
      cases hrefusal
    · rcases Delivery.join_cases hlost with ⟨first, rest, -, hjoin⟩ | ⟨-, d, hjoin⟩
      · cases hjoined.trans hjoin
      · cases hjoined.trans hjoin
  · intro hended
    obtain ⟨result, hresult⟩ : ∃ result, p.result? = some result := by
      apply Option.ne_none_iff_exists'.1
      intro hunresolved
      obtain ⟨a, i, hi, hpub⟩ := (Session.unresolved_iff (r.proper t) (r.balanced t) hp).1 hunresolved
      exact hended a i hi hpub
    have hresolved : (r.session t).Resolved q := ⟨p, hp, by simp [hresult]⟩
    refine ⟨told es', (sublist_told es').nodup ((hperm.map _).nodup_iff.2 hes.once), ?_, ?_⟩
    · intro a failure
      rw [mem_told, hperm.mem_iff, ← mem_told]
      exact hes.mem_told_iff_failsWith hrunning hprintable hcauses hresolved a failure
    intro hsome
    have hfailed : p.observed.filterMap Outcome.failure? ≠ [] := by
      rw [htold]
      exact fun hnone => hsome (List.map_eq_nil_iff.1 hnone)
    rcases result_cases hp hresult with ⟨error, -, -, hnone⟩ | hjoined
    · obtain rfl : es = [] := hes.ends.symm.trans hnone
      rw [hobserved, hperm.eq_nil] at hfailed
      exact absurd rfl hfailed
    · rcases Delivery.join_cases hlost with ⟨first, rest, hfailures, hjoin⟩ | ⟨hnone, -⟩
      · exact ⟨first, rest, by rw [hresult, hjoined, hjoin], hfailures.symm.trans htold⟩
      · exact absurd hnone hfailed

/-- Of two objects that listen to a class, the first fails. -/
private def failing : Run :=
  .scripted false [.perform (.openBus "bus" .default []),
    .perform (.object "first" "First" false (.leaf ⟨[], none, .finish (.fail "message")⟩) []),
    .perform (.object "second" "Second" false .idle []),
    .perform (.subscribe "bus" "first" (.shared (.simple 0)) none),
    .perform (.subscribe "bus" "second" (.shared (.simple 0)) none),
    .perform (.start "call" ⟨"bus", .held, ⟨.simple 0, 7, "", false⟩⟩),
    .step 7, .step 7, .step 7, .step 8, .step 8, .step 8]

/-- All invocations are on the first bus, their events can be rendered, and nobody takes down notices. -/
private def isTame (s : Session) : Bool :=
  !s.tracing && s.invocations.values.all fun i => i.bus = 1 && i.event.debug.isOk

private theorem tame_failing {t a : Nat} {i : Invocation} (hi : failing.invocation? t a = some i) :
    (failing.session t).tracing = false ∧ i.bus = 1 ∧ ∃ text, i.event.debug = .ok text := by
  have htame : isTame (failing.session t) :=
    forall_scripted (P := fun s => isTame s = true) (by decide +kernel) t
  have hmem := (Table.mem_values_iff (failing.proper t).invocations i).2 ⟨a, hi⟩
  obtain ⟨htracing, hall⟩ := Bool.and_eq_true_iff.1 htame
  obtain ⟨hbus, hok⟩ : i.bus = 1 ∧ i.event.debug.isOk := by simpa using List.all_eq_true.1 hall i hmem
  refine ⟨by simpa using htracing, hbus, ?_⟩
  cases htext : i.event.debug with
  | ok text => exact ⟨text, rfl⟩
  | error c =>
    rw [htext] at hok
    cases hok

theorem failing_reported : ∃ p first rest failure, failing.publication? 12 6 = some p ∧
    p.result? = some (.error (.listenersFailed first rest)) ∧ failing.FailsWith 6 7 failure ∧
    failure ∈ first :: rest := by
  have hrunning : ∀ a i t', failing.invocation? t' a = some i → i.publication = 6 →
      (failing.session 12).isRunning i.bus := by
    intro a i t' hi _
    rw [(tame_failing hi).2.1]
    rfl
  have hcauses : ∀ a i t' cause, failing.invocation? t' a = some i → i.publication = 6 →
      (failing.session t').Fails i cause → (failing.session t').tracing → cause.isPrintable := by
    intro a i t' cause hi _ _ htracing
    cases (tame_failing hi).1.symm.trans htracing
  have hended : ∀ a i, failing.invocation? 12 a = some i → i.publication ≠ 6 := by
    intro a i hi
    cases hi
  obtain ⟨records, -, hrecords, hfailed⟩ := (failures_reported (r := failing) (t := 12) (q := 6) rfl hrunning
    (fun a i t' hi _ => (tame_failing hi).2.2) hcauses).2 hended
  have hfails : failing.FailsWith 6 7
      (.mk "P0(7)" (.named (.simple 0)) "First@" "on_event" (.failed (.plain "message"))) :=
    ⟨8, _, _, _, rfl, rfl, rfl, .returned rfl, rfl, rfl⟩
  have hmem := (hrecords _ _).2 hfails
  obtain ⟨first, rest, hresult, hall⟩ := hfailed (List.ne_nil_of_mem hmem)
  refine ⟨_, first, rest, _, rfl, hresult, hfails, ?_⟩
  rw [hall]
  exact List.mem_map_of_mem hmem

/-- The only object that listens fails, and the event cannot be rendered. -/
private def unrendered : Run :=
  .scripted false [.perform (.openBus "bus" .default []),
    .perform (.object "only" "Only" false (.leaf ⟨[], none, .finish (.fail "message")⟩) []),
    .perform (.subscribe "bus" "only" (.shared (.simple 0)) none),
    .perform (.start "call" ⟨"bus", .held, ⟨.simple 0, 7, "", true⟩⟩),
    .step 5, .step 5, .step 5]

/-- Then the failure passes for an interruption, although the bus has its workers. -/
theorem unrendered_is_interrupted : ∃ i p, unrendered.invocation? 6 5 = some i ∧ i.publication = 4 ∧
    (unrendered.session 6).Fails i (.failed (.plain "message")) ∧
    (unrendered.session 6).proceed 5 i = some (unrendered.session 7) ∧ (unrendered.session 7).isRunning i.bus ∧
    unrendered.publication? 7 4 = some p ∧ p.result? = some (.error (.interrupted 1)) :=
  ⟨_, _, rfl, rfl, .returned rfl, rfl, rfl, rfl, rfl⟩

end Run
end PubSub
