import Mathlib.Data.Set.Finite.Lattice
import PubSub.Proofs.Session.Addresses
import PubSub.Proofs.Waiting.Own

/-!
# Jams

Invocations that await their own publishes wait for invocations of these, or for their turn behind one that holds it.
They never wait for themselves in one chain of publishes, as an invocation that a subscription brought about needs no
turn of it. So all waiting ends, unless different subscriptions hold up each other in a circle.
-/

namespace PubSub

private theorem exists_circle {α : Type} {r : α → α → Prop} {as : List α} (hne : as ≠ [])
    (h : ∀ a ∈ as, ∃ b ∈ as, r a b) : ∃ a, Relation.TransGen r a a := by
  by_contra hnone
  let before (b a : { a // a ∈ as }) : Prop := Relation.TransGen r a.1 b.1
  have : Finite { a // a ∈ as } := (List.finite_toSet as).to_subtype
  have : IsTrans _ before := ⟨fun _ _ _ hab hbc => hbc.trans hab⟩
  have : Std.Irrefl before := ⟨fun a ha => hnone ⟨a.1, ha⟩⟩
  have hwf : WellFounded before := Finite.wellFounded_of_trans_of_irrefl before
  obtain ⟨a, ha⟩ := List.exists_mem_of_ne_nil as hne
  obtain ⟨m, -, hmin⟩ := hwf.has_min Set.univ ⟨⟨a, ha⟩, trivial⟩
  obtain ⟨b, hb, hr⟩ := h m.1 m.2
  exact hmin ⟨b, hb⟩ trivial (.single hr)

namespace Invocation

def isQueued (i : Invocation) : Bool :=
  match i.stage with
  | .queued _ => true
  | .fresh | .calling _ | .deferring _ => false

end Invocation

namespace Session

variable {s : Session}

/-- No invocation can take a step. -/
def Stuck (s : Session) : Prop :=
  ∀ id, s.step id = none

/-- The listeners at work await their own publishes only. -/
def AwaitOwn (s : Session) : Prop :=
  ∀ id i, s.invocations.get? id = some i → i.subscription.callback.listener.AwaitsOwn

def Awaits (s : Session) (id id' : Nat) : Prop :=
  ∃ i j next, s.invocations.get? id = some i ∧ s.invocations.get? id' = some j ∧
    i.rest? = some (.await j.publication next)

/-- While an invocation of one subscription holds its turn, it waits, perhaps through further publishes, for one of
another subscription that waits for its turn. -/
def HoldsUp (s : Session) (c d : Caller) : Prop :=
  c ≠ d ∧ ∃ id i id' j, s.invocations.get? id = some i ∧ i.holdsTurn ∧ i.caller = c ∧
    Relation.TransGen s.Awaits id id' ∧ s.invocations.get? id' = some j ∧ j.isQueued ∧ j.caller = d

section Stuck

variable (hs : s.Reachable) (hown : s.AwaitOwn) (hstuck : s.Stuck)

include hstuck in
private theorem blocked_of_stuck {id : Nat} {i : Invocation} (hi : s.invocations.get? id = some i) :
    s.proceed id i = none ∧ i.parked = true := by
  have hstep := hstuck id
  simp only [step, hi] at hstep
  cases hp : s.proceed id i with
  | some after => simp [hp] at hstep
  | none =>
    refine ⟨rfl, ?_⟩
    simp only [hp] at hstep
    split at hstep
    · assumption
    · cases hstep

include hs hown hstuck

private theorem queued_or_awaits {id : Nat} {i : Invocation} (hi : s.invocations.get? id = some i) :
    (i.isQueued ∧ i.bypasses = false ∧ s.turnIsFree i = false) ∨
      ∃ id' j, s.invocations.get? id' = some j ∧ s.Awaits id id' ∧ j.origin = i.context := by
  obtain ⟨hproceed, hparked⟩ := blocked_of_stuck hstuck hi
  have hsound := hs.proper.sound id i hi
  simp only [Invocation.Sound] at hsound
  have hawaits {p : Behaviour} (hrest : i.rest? = some p) :
      ∃ id' j, s.invocations.get? id' = some j ∧ s.Awaits id id' ∧ j.origin = i.context := by
    obtain ⟨own, hp, hmade⟩ := hs.keepOwn id i hi (hown id i hi) p hrest
    simp only [proceed, hrest] at hproceed
    have hblock := mayBlock_of_advance hproceed
    cases p with
    | pass gate next => exact hp.elim
    | await publication next =>
      obtain ⟨⟨made, hget⟩, horigin⟩ := hmade publication hp.1
      have hunresolved : made.result? = none := by
        cases hresult : made.result? with
        | none => rfl
        | some result => simp [advance, hget, hresult] at hproceed
      obtain ⟨id', j, hj, rfl⟩ := (unresolved_iff hs.proper hs.balanced hget).1 hunresolved
      exact ⟨id', j, hj, ⟨i, j, next, hi, hj, hrest⟩, horigin id' j hj rfl⟩
    | _ => cases hblock
  cases hstage : i.stage with
  | fresh =>
    simp only [hstage, hparked] at hsound
    cases hsound
  | queued ticket =>
    simp only [hstage] at hsound
    have hturn : s.turnIsFree i = false := by
      simp only [proceed, Invocation.rest?, hstage, hsound.2, Bool.false_or] at hproceed
      split at hproceed
      · cases hproceed
      · exact Bool.eq_false_iff.2 ‹¬ _›
    exact Or.inl ⟨by simp [Invocation.isQueued, hstage], hsound.2, hturn⟩
  | calling p =>
    have hrest : i.rest? = some p := by simp [Invocation.rest?, hstage]
    exact Or.inr (hawaits hrest)
  | deferring p =>
    have hrest : i.rest? = some p := by simp [Invocation.rest?, hstage]
    exact Or.inr (hawaits hrest)

private theorem exists_holder {id : Nat} {i : Invocation} (hi : s.invocations.get? id = some i) {ticket : Nat}
    (hstage : i.stage = .queued ticket) :
    ∃ id' j, s.invocations.get? id' = some j ∧ j.caller = i.caller ∧ j.holdsTurn := by
  induction ticket using Nat.strong_induction_on generalizing id i with
  | _ ticket ih =>
    rcases queued_or_awaits hs hown hstuck hi with ⟨-, -, hturn⟩ | ⟨id', j, -, ⟨i', j', next, hi', -, hrest⟩, -⟩
    · rw [turnIsFree, Bool.not_eq_false', List.any_eq_true] at hturn
      obtain ⟨j, hj, hsame⟩ := hturn
      obtain ⟨id', hj⟩ := (Table.mem_values_iff hs.proper.invocations j).1 hj
      simp only [Bool.and_eq_true, decide_eq_true_eq, Bool.or_eq_true] at hsame
      obtain ⟨hcaller, hholds | hahead⟩ := hsame
      · exact ⟨id', j, hj, hcaller, hholds⟩
      · -- of all that wait for the turn, one has waited longest
        cases hj' : j.stage with
        | queued earlier =>
          simp only [Invocation.isAheadOf, hj', hstage, decide_eq_true_eq] at hahead
          obtain ⟨id'', k, hk, hkj, hholds⟩ := ih earlier hahead hj hj'
          exact ⟨id'', k, hk, hkj.trans hcaller, hholds⟩
        | _ => simp [Invocation.isAheadOf, hj', hstage] at hahead
    · obtain rfl := Option.some.inj (hi.symm.trans hi')
      simp [Invocation.rest?, hstage] at hrest

private theorem exists_queued {id : Nat} {i : Invocation} (hi : s.invocations.get? id = some i) :
    ∃ id' j, Relation.ReflTransGen s.Awaits id id' ∧ s.invocations.get? id' = some j ∧ j.isQueued ∧
      j.bypasses = false ∧ i.origin.callers <+: j.origin.callers := by
  obtain ⟨bound, hbound⟩ :=
    ((List.finite_toSet s.invocations.values).image fun j : Invocation => j.origin.depth).bddAbove
  have hdepth {id : Nat} {i : Invocation} (hi : s.invocations.get? id = some i) : i.origin.depth ≤ bound :=
    hbound ⟨i, (Table.mem_values_iff hs.proper.invocations i).2 ⟨id, hi⟩, rfl⟩
  induction hn : bound - i.origin.depth using Nat.strong_induction_on generalizing id i with
  | _ n ih =>
    rcases queued_or_awaits hs hown hstuck hi with ⟨hqueued, hbypass, -⟩ | ⟨id₁, j₁, hj₁, hawaits, horigin⟩
    · exact ⟨id, i, .refl, hi, hqueued, hbypass, List.prefix_rfl⟩
    · have hdeeper : j₁.origin.depth = i.origin.depth + 1 := by rw [horigin]; rfl
      have := hdepth hj₁
      obtain ⟨id', j, hpath, hj, hqueued, hbypass, hcallers⟩ := ih _ (by omega) hj₁ rfl
      refine ⟨id', j, .head hawaits hpath, hj, hqueued, hbypass, ?_⟩
      have hstep : i.origin.callers <+: j₁.origin.callers := by
        rw [horigin]
        exact List.prefix_append ..
      exact hstep.trans hcallers

private theorem exists_heldUp {id : Nat} {i : Invocation} (hi : s.invocations.get? id = some i) (hholds : i.holdsTurn) :
    ∃ id' j, s.invocations.get? id' = some j ∧ j.isQueued ∧ s.HoldsUp i.caller j.caller := by
  rcases queued_or_awaits hs hown hstuck hi with ⟨hqueued, -, -⟩ | ⟨id₁, j₁, hj₁, hawaits, horigin⟩
  · cases hstage : i.stage <;>
      simp [Invocation.holdsTurn, Invocation.isCalling, Invocation.isQueued, hstage] at hholds hqueued
  · obtain ⟨id', j, hpath, hj, hqueued, hbypass, hcallers⟩ := exists_queued hs hown hstuck hj₁
    refine ⟨id', j, hj, hqueued, ?_, id, i, id', j, hi, hholds, rfl, .head' hawaits hpath, hj, hqueued, rfl⟩
    have hcaused : i.address ∈ j.origin.callers := by
      apply hcallers.subset
      rw [horigin]
      exact List.mem_append_right _ (List.mem_singleton.2 rfl)
    intro hsame
    rw [hs.housed.address_eq hi hj hsame] at hcaused
    simp [Invocation.bypasses, hcaused] at hbypass

private theorem circle_of_unresolved {q : Nat} {p : Publication} (hp : s.publications.get? q = some p)
    (hresult : p.result? = none) : ∃ c, Relation.TransGen s.HoldsUp c c := by
  obtain ⟨id, i, hi, -⟩ := (unresolved_iff hs.proper hs.balanced hp).1 hresult
  have hmem {c : Caller} : c ∈ (s.invocations.values.filter Invocation.holdsTurn).map Invocation.caller ↔
      ∃ id i, s.invocations.get? id = some i ∧ i.caller = c ∧ i.holdsTurn := by
    simp only [List.mem_map, List.mem_filter, Table.mem_values_iff hs.proper.invocations]
    constructor
    · intro hholder
      rcases hholder with ⟨i, ⟨⟨id, hi⟩, hholds⟩, hc⟩
      exact ⟨id, i, hi, hc, hholds⟩
    · intro hholder
      rcases hholder with ⟨id, i, hi, hc, hholds⟩
      exact ⟨i, ⟨⟨id, hi⟩, hholds⟩, hc⟩
  have hheld {id : Nat} {j : Invocation} (hj : s.invocations.get? id = some j) (hqueued : j.isQueued) :
      j.caller ∈ (s.invocations.values.filter Invocation.holdsTurn).map Invocation.caller := by
    cases hstage : j.stage with
    | queued ticket => exact hmem.2 (exists_holder hs hown hstuck hj hstage)
    | _ => simp [Invocation.isQueued, hstage] at hqueued
  obtain ⟨id', j, -, hj, hqueued, -⟩ := exists_queued hs hown hstuck hi
  refine exists_circle (List.ne_nil_of_mem (hheld hj hqueued)) ?_
  intro c hc
  obtain ⟨id, i, hi, rfl, hholds⟩ := hmem.1 hc
  obtain ⟨id', j, hj, hqueued, hholdsUp⟩ := exists_heldUp hs hown hstuck hi hholds
  exact ⟨j.caller, hheld hj hqueued, hholdsUp⟩

private theorem crossing_of_unresolved {q : Nat} {p : Publication} (hp : s.publications.get? q = some p)
    (hresult : p.result? = none) :
    ∃ c d, c ≠ d ∧ Relation.TransGen s.HoldsUp c d ∧ Relation.TransGen s.HoldsUp d c := by
  obtain ⟨c, hcircle⟩ := circle_of_unresolved hs hown hstuck hp hresult
  obtain ⟨d, hcd, hdc⟩ := Relation.TransGen.head'_iff.1 hcircle
  refine ⟨c, d, hcd.1, .single hcd, ?_⟩
  rcases Relation.reflTransGen_iff_eq_or_transGen.1 hdc with rfl | hdc
  · exact absurd rfl hcd.1
  · exact hdc

theorem resolved_of_one_serial
    (hone : ∀ id i id' j, s.invocations.get? id = some i → s.invocations.get? id' = some j →
      i.subscription.callback.threadSafe = false → j.subscription.callback.threadSafe = false → i.caller = j.caller)
    {q : Nat} {p : Publication} (hp : s.publications.get? q = some p) : p.result?.isSome := by
  cases hresult : p.result? with
  | some result => rfl
  | none =>
    obtain ⟨c, d, hne, hcd, hdc⟩ := crossing_of_unresolved hs hown hstuck hp hresult
    obtain ⟨_, ⟨-, id, i, -, -, hi, hholds, rfl, -⟩, -⟩ := Relation.TransGen.head'_iff.1 hcd
    obtain ⟨_, ⟨-, id', j, -, -, hj, hholds', rfl, -⟩, -⟩ := Relation.TransGen.head'_iff.1 hdc
    have hserial {i : Invocation} (h : i.holdsTurn) : i.subscription.callback.threadSafe = false := by
      simp only [Invocation.holdsTurn, Invocation.bypasses, Bool.and_eq_true, Bool.not_eq_true',
        Bool.or_eq_false_iff] at h
      exact h.2.1
    exact absurd (hone id i id' j hi hj (hserial hholds) (hserial hholds')) hne

/-- If nothing can take a step although something is unresolved, it is for two different subscriptions that hold up each
other, perhaps through further ones; and the other way round. -/
theorem unresolved_iff_circle : (∃ q p, s.publications.get? q = some p ∧ p.result? = none) ↔
    ∃ c d, c ≠ d ∧ Relation.TransGen s.HoldsUp c d ∧ Relation.TransGen s.HoldsUp d c := by
  constructor
  · intro hunresolved
    rcases hunresolved with ⟨q, p, hp, hresult⟩
    exact crossing_of_unresolved hs hown hstuck hp hresult
  · intro hcircle
    rcases hcircle with ⟨c, d, -, hcd, -⟩
    obtain ⟨_, ⟨-, id, i, -, -, hi, -⟩, -⟩ := Relation.TransGen.head'_iff.1 hcd
    obtain ⟨p, hp⟩ := hs.proper.belongs id i hi
    exact ⟨_, p, hp, (unresolved_iff hs.proper hs.balanced hp).2 ⟨id, i, hi, rfl⟩⟩

end Stuck

/-- Publishes the class with its event once more, and awaits that. -/
private def answering (cls : Nat) : Script Command :=
  .branch .number .equal 0
    (.leaf ⟨[], none, .publish "bus" .await (.fresh (.simple cls) (.fixed 1) "" false)⟩)
    .idle

/-- Two objects, each of which listens to the class that the other publishes; both classes are published. -/
private def crossing : List Command :=
  [.openBus "bus" .default [],
    .object "ping" "Ping" false (answering 1) [],
    .object "pong" "Pong" false (answering 0) [],
    .subscribe "bus" "ping" (.shared (.simple 0)) none,
    .subscribe "bus" "pong" (.shared (.simple 1)) none,
    .start "left" ⟨"bus", .held, ⟨.simple 0, 0, "", false⟩⟩,
    .start "right" ⟨"bus", .held, ⟨.simple 1, 0, "", false⟩⟩]

private def performAll (s : Session) (commands : List Command) : Session :=
  commands.foldl (fun s command => (s.perform .outermost command).1) s

private def stepAll (s : Session) (ids : List Nat) : Session :=
  ids.foldl (fun s id => (s.step id).getD s) s

/-- Both objects have published before either of the two publishes is taken up. -/
private def jammed : Session :=
  ((start false).performAll crossing).stepAll [7, 7, 7, 9, 9, 9, 7, 9, 11, 13]

private theorem Reachable.performAll (h : s.Reachable) (commands : List Command) :
    (s.performAll commands).Reachable := by
  induction commands generalizing s with
  | nil => exact h
  | cons command rest ih => exact ih (h.trans (.single (.perform s command)))

private theorem Reachable.stepAll (h : s.Reachable) (ids : List Nat) : (s.stepAll ids).Reachable := by
  induction ids generalizing s with
  | nil => exact h
  | cons id rest ih =>
    have hafter : ((s.step id).getD s).Reachable := by
      cases hstep : s.step id with
      | none => exact h
      | some after => exact h.trans (.single (.step hstep))
    exact ih hafter

private theorem jammed_reachable : jammed.Reachable :=
  Reachable.stepAll (Reachable.performAll ⟨false, .refl⟩ crossing) _

private theorem jammed_stuck : jammed.Stuck := by
  have hnone : ∀ e ∈ jammed.invocations.entries, (jammed.step e.1).isNone := by decide +kernel
  intro id
  cases hi : jammed.invocations.get? id with
  | none => simp [step, hi]
  | some i => exact Option.isNone_iff_eq_none.1 (hnone (id, i) (Table.mem_entries_of_get? hi))

private theorem answering_awaitsOwn (cls : Nat) (role : Role) : ((answering cls).listener role).AwaitsOwn := by
  apply Script.awaitsOwn_listener
  refine ⟨⟨rfl, ?_⟩, rfl, ?_⟩
  · intro gate ending hdeed
    cases hdeed
  · intro gate ending hdeed
    cases hdeed

private def answerers : List Listener :=
  [(answering 1).listener ⟨"ping", Callback.defaultName, true⟩,
    (answering 0).listener ⟨"pong", Callback.defaultName, true⟩]

private theorem awaitsOwn_of_mem_answerers {l : Listener} (h : l ∈ answerers) : l.AwaitsOwn := by
  simp only [answerers, List.mem_cons, List.not_mem_nil, or_false] at h
  rcases h with rfl | rfl
  · exact answering_awaitsOwn 1 _
  · exact answering_awaitsOwn 0 _

private theorem jammed_awaitOwn : jammed.AwaitOwn := by
  have hlisteners : jammed.invocations.entries.map (·.2.subscription.callback.listener) =
      answerers ++ answerers.reverse := rfl
  intro id i hi
  have hmem : i.subscription.callback.listener ∈ answerers ++ answerers.reverse := by
    rw [← hlisteners]
    exact List.mem_map_of_mem (Table.mem_entries_of_get? hi)
  apply awaitsOwn_of_mem_answerers
  simpa using hmem

theorem jammed_in_circle :
    ∃ c d, c ≠ d ∧ Relation.TransGen jammed.HoldsUp c d ∧ Relation.TransGen jammed.HoldsUp d c :=
  (unresolved_iff_circle jammed_reachable jammed_awaitOwn jammed_stuck).1 ⟨6, _, rfl, rfl⟩

/-- All subscribed listeners await their own publishes only, on buses with a depth limit, and yet their publishes are
never resolved. -/
theorem jammed_unresolved : jammed.Reachable ∧
    (∀ b ∈ jammed.buses.values, b.config.maxPublishDepth.isSome ∧
      ∀ row ∈ b.registry.rows.values, ∀ sub ∈ row, sub.callback.listener.AwaitsOwn) ∧
    jammed.AwaitOwn ∧ jammed.Stuck ∧ ∃ q p, jammed.publications.get? q = some p ∧ p.result? = none := by
  refine ⟨jammed_reachable, ?_, jammed_awaitOwn, jammed_stuck, 6, _, rfl, rfl⟩
  have hlimited : ∀ b ∈ jammed.buses.values, b.config.maxPublishDepth.isSome := by decide +kernel
  have hlisteners : (jammed.buses.values.flatMap (·.registry.rows.values.flatten)).map (·.callback.listener) =
      answerers.reverse := rfl
  intro b hb
  refine ⟨hlimited b hb, ?_⟩
  intro row hrow sub hsub
  apply awaitsOwn_of_mem_answerers
  rw [← List.mem_reverse, ← hlisteners]
  exact List.mem_map_of_mem (List.mem_flatMap.2 ⟨b, hb, List.mem_flatten.2 ⟨row, hrow, hsub⟩⟩)

end Session
end PubSub
