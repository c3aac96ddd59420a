import PubSub.Proofs.Session.Fates

/-!
# Depth

A bus with a limit refuses what is published at this depth or deeper, and does so before it asks for keys. What it does
schedule works one level below the publisher, so that the listeners of the bus never work below its limit.
-/

namespace PubSub

namespace Bus

variable {b b' : Bus} {depth : Nat} {limit : UInt64}

theorem exceeded?_of_limit (hlimit : b.config.maxPublishDepth = some limit) (depth : Nat) :
    b.exceeded? depth = if limit.toNat ≤ depth then some limit.toNat else none := by
  simp only [exceeded?, hlimit]

theorem exceeded?_congr (h : b'.config = b.config) : b'.exceeded? depth = b.exceeded? depth := by
  simp only [exceeded?, h]

theorem publish_of_tooDeep (hopen : b.isOpen) {n : Nat} (h : b.exceeded? depth = some n)
    (declared : Name → Except Crash Descriptor) (e : Event) : b.publish declared depth e =
      .ok ⟨b.matcher, some (.depthReached e depth n), .refused (.depthExceeded depth n)⟩ := by
  simp only [publish, hopen, h]
  rfl

theorem refusal_of_admitted (hopen : b.isOpen) (h : b.exceeded? depth = none)
    {declared : Name → Except Crash Descriptor} {e : Event} {d : Dispatch}
    (hd : b.publish declared depth e = .ok d) : d.plan.refusal? = none := by
  cases decides_of_publish hd with
  | closed hclosed => cases hopen.symm.trans hclosed
  | tooDeep _ hdeep => cases h.symm.trans hdeep
  | heard | unheard | carried | uncarried => rfl

theorem admitted_of_plan {declared : Name → Except Crash Descriptor} {e : Event} {d : Dispatch}
    (hd : b.publish declared depth e = .ok d) {event : Event} {targets : List (Subscription × Option View)}
    (hplan : d.plan = .scheduled event targets) : b.exceeded? depth = none := by
  cases decides_of_publish hd with
  | closed | tooDeep => cases hplan
  | heard _ hlimit | unheard _ hlimit | carried _ hlimit | uncarried _ hlimit => exact hlimit

end Bus

namespace Session

variable {s s' : Session} {b : Bus} {ctx : Context} {e : Event} {publication : Nat}

theorem publishOn_of_tooDeep (hb : s.buses.get? b.id = some b) (hopen : b.isOpen) {n : Nat}
    (h : b.exceeded? ctx.depth = some n) (hshown : s.tracing → ∃ text, e.debug = .ok text) : ∃ s' p,
      s.publishOn ctx b e = (s', .ok p) ∧ s.issued < p ∧ s'.buses = s.buses ∧ s'.invocations = s.invocations ∧
        s'.publications.get? p = some (.refused (.depthExceeded ctx.depth n)) := by
  -- no keys are looked up, so the bus is put back as it was
  have hsame : s.putBus b = s := by
    rw [putBus, Table.put_of_get? hb]
  obtain ⟨s₁, hs₁⟩ : ∃ s₁, s.announce (.depthReached e ctx.depth n) = .ok s₁ := by
    simp only [announce]
    split
    · obtain ⟨text, htext⟩ := hshown ‹_›
      simp only [Notice.line, Notice.fields, htext]
      exact ⟨_, rfl⟩
    · exact ⟨s, rfl⟩
  have haside := aside_announce hs₁
  refine ⟨(s₁.refuse (.depthExceeded ctx.depth n)).1, s₁.issued + 1, ?_, Nat.lt_succ_of_le haside.issued, haside.buses,
    haside.invocations, (Table.get?_put ..).trans (if_pos rfl)⟩
  simp only [publishOn, Bus.publish_of_tooDeep hopen h]
  rw [show s.putBus { b with matcher := b.matcher } = s from hsame]
  simp only [Option.elim_some, hs₁]
  rfl

theorem publishing_of_publishOn (hs : s.Proper) (hb : s.buses.get? b.id = some b)
    (hpublish : s.publishOn ctx b e = (s', .ok publication)) : s.Publishing ctx s' publication := by
  have hcases := publishOn_cases ctx hb e
  rw [hpublish] at hcases
  rcases hcases with ⟨c, hcrash, -⟩ | ⟨p, hp, hpublishes⟩
  · cases hcrash
  · obtain rfl := Except.ok.inj hp
    exact publishing_of_publishes hs hpublishes

theorem Publishing.new_of_publication (h : s.Publishing ctx s' publication) (hs : s.Proper) {id : Nat} {i : Invocation}
    (hi : s'.invocations.get? id = some i) (hpub : i.publication = publication) : s.issued < id := by
  by_contra hold
  rw [h.kept id (Nat.le_of_not_lt hold)] at hi
  obtain ⟨q, hq⟩ := hs.belongs id i hi
  have := hs.publication _ q hq
  have := h.fresh
  omega

theorem depth_of_publishOn (hs : s.Proper) (hb : s.buses.get? b.id = some b)
    (hpublish : s.publishOn ctx b e = (s', .ok publication)) {id : Nat} {i : Invocation}
    (hi : s'.invocations.get? id = some i) (hpub : i.publication = publication) : i.context.depth = ctx.depth + 1 := by
  have hmade := publishing_of_publishOn hs hb hpublish
  show i.origin.depth + 1 = _
  rw [(hmade.invoked id i hi (hmade.new_of_publication hs hi hpub)).2.1]

private theorem admitted_of_publishes (hs : s.Proper) (h : s.Publishes ctx s' publication) {id : Nat} {i : Invocation}
    (hi : s'.invocations.get? id = some i) (hnew : s.issued < id) :
    ∃ b, s.buses.get? i.bus = some b ∧ b.exceeded? i.origin.depth = none := by
  have hnone : s.invocations.get? id = none := by
    cases hold : s.invocations.get? id with
    | none => rfl
    | some i₀ =>
      have := hs.issued id i₀ hold
      omega
  cases h with
  | refused => cases hnone.symm.trans hi
  | @planned b e d s₁ hb hd haside =>
    have hs₁ := (hs.putBus (b := { b with matcher := d.matcher }) (hs.bus _ _ hb).2).aside haside
    have hnone₁ : s₁.invocations.get? id = none := haside.invocations ▸ hnone
    cases hplan : d.plan with
    | refused error =>
      rw [hplan] at hi
      cases hnone₁.symm.trans hi
    | scheduled event targets =>
      rw [hplan, get?_schedule hs₁.issued] at hi
      split at hi
      · cases hnone₁.symm.trans hi
      · obtain ⟨target, -, rfl⟩ := Option.map_eq_some_iff.1 hi
        exact ⟨b, hb, Bus.admitted_of_plan hd hplan⟩

private theorem admitted_of_move (hs : s.Proper) (h : Move s s') {id : Nat} {i' : Invocation}
    (hi' : s'.invocations.get? id = some i') : (∃ i, s.invocations.get? id = some i ∧ i.Continues i') ∨
      ∃ b, s.buses.get? i'.bus = some b ∧ b.exceeded? i'.origin.depth = none := by
  obtain ⟨ctx, hcarries⟩ := Carries.move hs h
  rcases hcarries.invocation id i' hi' with hold | ⟨hnew, -⟩
  · exact Or.inl hold
  have hfresh {id₀ : Nat} {i₀ : Invocation} (hi₀ : s.invocations.get? id₀ = some i₀) : id₀ < id :=
    Nat.lt_of_le_of_lt (hs.issued id₀ i₀ hi₀) hnew
  cases h with
  | effect h => exact Or.inl ⟨i', invocation_of_effect h hi', .refl i'⟩
  | publish h => exact Or.inr (admitted_of_publishes hs h hi' hnew)
  | progress id₀ h =>
    obtain ⟨i₀, hi₀⟩ := h.exists_invocation
    have hother {s₁ : Session} {i₁ : Invocation} (h : (s₁.putInvocation id₀ i₁).invocations.get? id = some i') :
        s₁.invocations.get? id = some i' := by
      rw [← h, putInvocation, Table.get?_put, if_neg (Nat.ne_of_gt (hfresh hi₀))]
    cases h with
    | parked | called | wentOn | left | awaited => exact Or.inl ⟨i', hother hi', .refl i'⟩
    | published _ _ h => exact Or.inr (admitted_of_publishes hs h (hother hi') hnew)
    | finished => exact Or.inl ⟨i', invocation_of_finish hi', .refl i'⟩

/-- All invocations are on buses where they were not too deep. -/
def Shallow (s : Session) : Prop :=
  ∀ id i, s.invocations.get? id = some i → ∃ b, s.buses.get? i.bus = some b ∧ b.exceeded? i.origin.depth = none

theorem Shallow.move (hs : s.Proper) (h : s.Shallow) (hm : Move s s') : s'.Shallow := by
  have hlater {bus depth : Nat} {b : Bus} (hb : s.buses.get? bus = some b) (hadmitted : b.exceeded? depth = none) :
      ∃ b', s'.buses.get? bus = some b' ∧ b'.exceeded? depth = none := by
    obtain ⟨b', hb', hbecomes⟩ := has_of_move hs hm hb
    exact ⟨b', hb', (Bus.exceeded?_congr hbecomes.config).trans hadmitted⟩
  -- a bus keeps its configuration, so whatever was not too deep for it once never is
  intro id i' hi'
  rcases admitted_of_move hs hm hi' with ⟨i, hi, stage, parked, rfl⟩ | ⟨b, hb, hadmitted⟩
  · obtain ⟨b, hb, hadmitted⟩ := h id i hi
    exact hlater hb hadmitted
  · exact hlater hb hadmitted

theorem Reachable.shallow (h : s.Reachable) : s.Shallow := by
  refine h.of_moves ?_ ?_
  · intro tracing id i hi
    cases hi
  · intro tracing s s' hprior hm hshallow
    exact hshallow.move ((proper_start tracing).moves hprior) hm

/-- A listener of a bus with a limit works between depth one and the limit. -/
theorem Reachable.depth_le (h : s.Reachable) {id : Nat} {i : Invocation} (hi : s.invocations.get? id = some i)
    (hb : s.buses.get? i.bus = some b) {limit : UInt64} (hlimit : b.config.maxPublishDepth = some limit) :
    1 ≤ i.context.depth ∧ i.context.depth ≤ limit.toNat := by
  obtain ⟨b', hb', hadmitted⟩ := h.shallow id i hi
  obtain rfl := Option.some.inj (hb.symm.trans hb')
  rw [Bus.exceeded?_of_limit hlimit] at hadmitted
  have hlt : ¬ limit.toNat ≤ i.origin.depth := by
    intro hle
    rw [if_pos hle] at hadmitted
    cases hadmitted
  exact ⟨Nat.le_add_left .., Nat.lt_of_not_le hlt⟩

end Session
end PubSub
