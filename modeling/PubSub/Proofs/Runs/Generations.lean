import Mathlib.Data.Set.Finite.Lattice
import PubSub.Proofs.Runs.Strides
import PubSub.Proofs.Session.Depth

/-!
# Generations

What a publish brings about, generation by generation: its own invocations, those that these make, and so on. Each
generation works one level deeper than the one before, so limits on the depth limit their number too. As nobody goes on
for ever, there are then finitely many invocations in all.
-/

namespace PubSub.Run

variable {r : Run} {t a b n q : Nat} {i j : Invocation}

/-- The invocations of a publish are the first generation. Those that a generation makes are the next one. -/
inductive Descends (r : Run) (q : Nat) : Nat → Nat → Prop
  | published {t a : Nat} {i : Invocation} (hi : r.invocation? t a = some i) (hq : i.publication = q) :
    Descends r q 1 a
  | caused {n a b : Nat} (h : Descends r q n a) (hc : r.Causes a b) : Descends r q (n + 1) b

theorem Causes.depth (h : r.Causes a b) {t t' : Nat} (hi : r.invocation? t a = some i)
    (hj : r.invocation? t' b = some j) : j.context.depth = i.context.depth + 1 := by
  show j.origin.depth + 1 = _
  rw [h.origin hi hj]

namespace Descends

theorem exists_invocation (h : r.Descends q n a) : ∃ t i, r.invocation? t a = some i := by
  cases h with
  | published hi => exact ⟨_, _, hi⟩
  | caused _ hc =>
    obtain ⟨t, -, -, hsome⟩ := hc
    exact ⟨t + 1, Option.isSome_iff_exists.1 hsome⟩

theorem le_depth (h : r.Descends q n a) (hi : r.invocation? t a = some i) : n ≤ i.context.depth := by
  induction h generalizing t i with
  | published => exact Nat.le_add_left ..
  | caused h hc ih =>
    obtain ⟨t₀, i₀, hi₀⟩ := h.exists_invocation
    rw [hc.depth hi₀ hi]
    exact Nat.succ_le_succ (ih hi₀)

end Descends

section Limits

variable {most : Nat}

/-- Each bus has a limit, and `most` is the largest one or more. -/
def Limited (r : Run) (most : Nat) : Prop :=
  ∀ t id b, (r.session t).buses.get? id = some b →
    ∃ limit, b.config.maxPublishDepth = some limit ∧ limit.toNat ≤ most

theorem Limited.depth_le (h : r.Limited most) (hi : r.invocation? t a = some i) : i.context.depth ≤ most := by
  obtain ⟨b, hb, -⟩ := (r.reachable t).shallow a i hi
  obtain ⟨limit, hlimit, hmost⟩ := h t i.bus b hb
  exact Nat.le_trans ((r.reachable t).depth_le hi hb hlimit).2 hmost

theorem Limited.generation_le (h : r.Limited most) (hdescends : r.Descends q n a) : n ≤ most := by
  obtain ⟨t, i, hi⟩ := hdescends.exists_invocation
  exact Nat.le_trans (hdescends.le_depth hi) (h.depth_le hi)

end Limits

section Finiteness

private theorem finite_invocations (r : Run) (t : Nat) : {a | (r.invocation? t a).isSome}.Finite := by
  refine (List.finite_toSet ((r.session t).invocations.entries.map Prod.fst)).subset ?_
  intro a ha
  exact (mem_keys_iff_lookup _ a).2 (Option.isSome_iff_exists.1 ha)

private theorem finite_published (r : Run) (q : Nat) :
    {a | ∃ t i, r.invocation? t a = some i ∧ i.publication = q}.Finite := by
  by_cases hmade : ∃ t, (r.publication? t q).isSome
  · -- a publish makes its invocations in the same step, and later ones only continue them
    refine (finite_invocations r (Nat.find hmade)).subset ?_
    intro a ha
    obtain ⟨t, i, hi, hq⟩ := ha
    obtain ⟨p, hp⟩ := Option.isSome_iff_exists.1 (Nat.find_spec hmade)
    obtain ⟨p', hp'⟩ : ∃ p', r.publication? t q = some p' := hq ▸ (r.proper t).belongs a i hi
    obtain ⟨i₀, hi₀, -⟩ := invocation?_of_made (Nat.find_min' hmade (Option.isSome_iff_exists.2 ⟨p', hp'⟩)) hp hi hq
    exact Option.isSome_iff_exists.2 ⟨i₀, hi₀⟩
  · refine Set.finite_empty.subset ?_
    intro a ha
    obtain ⟨t, i, hi, rfl⟩ := ha
    exact hmade ⟨t, Option.isSome_iff_exists.2 ((r.proper t).belongs a i hi)⟩

private theorem finite_caused (r : Run) (a : Nat) : {b | r.Causes a b}.Finite := by
  refine ((r.finite_steps a).biUnion fun t _ => finite_invocations r (t + 1)).subset ?_
  intro b hb
  obtain ⟨t, hstep, -, hsome⟩ := hb
  exact Set.mem_biUnion (show t ∈ {t | r.Steps a t} from hstep) hsome

private theorem finite_generation (r : Run) (q n : Nat) : {a | r.Descends q n a}.Finite := by
  induction n with
  | zero =>
    refine Set.finite_empty.subset ?_
    intro a ha
    cases ha
  | succ n ih =>
    have hnext := (finite_published r q).union (ih.biUnion fun a _ => finite_caused r a)
    refine hnext.subset ?_
    intro b hb
    cases hb with
    | published hi hq => exact Or.inl ⟨_, _, hi, hq⟩
    | caused hprior hc => exact Or.inr (Set.mem_biUnion hprior hc)

theorem finite_descendants {most : Nat} (hlimited : r.Limited most) (q : Nat) :
    {a | ∃ n, r.Descends q n a}.Finite := by
  refine ((Set.finite_le_nat most).biUnion fun n _ => finite_generation r q n).subset ?_
  intro a ha
  obtain ⟨n, hn⟩ := ha
  exact Set.mem_biUnion (hlimited.generation_le hn) hn

end Finiteness

/-- In any run, at any moment, a publish on an open bus is refused just when its depth reaches the limit. If it is, and
the event can be rendered or nobody traces, it fails with the depth and the limit, and nothing is looked up and nobody
is invoked. Otherwise its invocations work one level deeper than it was made. So every listener of a bus with a limit
works between depth one and the limit, and one level deeper than the listener that made the publish. If all buses have
limits, then what a publish brings about has no more generations than the largest limit, and finitely many invocations,
whatever the listeners do in their callbacks and in the replies that they leave for later. -/
theorem depth_is_limited (r : Run) :
    (∀ t b limit, (r.session t).buses.get? b.id = some b → b.isOpen → b.config.maxPublishDepth = some limit → ∀ ctx e,
      (limit.toNat ≤ ctx.depth → ((r.session t).tracing → ∃ text, e.debug = .ok text) → ∃ s' p q,
        (r.session t).publishOn ctx b e = (s', .ok p) ∧ s'.buses = (r.session t).buses ∧
          s'.invocations = (r.session t).invocations ∧ s'.publications.get? p = some q ∧
          q.result? = some (.error (.depthExceeded ctx.depth limit.toNat))) ∧
      (ctx.depth < limit.toNat → ∀ s' p, (r.session t).publishOn ctx b e = (s', .ok p) →
        (∃ q, s'.publications.get? p = some q ∧ q.refusal = none) ∧
        ∀ a i, s'.invocations.get? a = some i → i.publication = p → i.context.depth = ctx.depth + 1)) ∧
    (∀ t a i b limit, r.invocation? t a = some i → (r.session t).buses.get? i.bus = some b →
      b.config.maxPublishDepth = some limit → 1 ≤ i.context.depth ∧ i.context.depth ≤ limit.toNat) ∧
    (∀ a b t t' i j, r.Causes a b → r.invocation? t a = some i → r.invocation? t' b = some j →
      j.context.depth = i.context.depth + 1) ∧
    ∀ most, r.Limited most → ∀ q,
      (∀ n a, r.Descends q n a → n ≤ most) ∧ {a | ∃ n, r.Descends q n a}.Finite := by
  refine ⟨?_, ?_, ?_, ?_⟩
  · intro t b limit hb hopen hlimit ctx e
    have hexceeded := Bus.exceeded?_of_limit hlimit ctx.depth
    refine ⟨?_, ?_⟩
    · intro hdeep hshown
      rw [if_pos hdeep] at hexceeded
      obtain ⟨s', p, hpublish, -, hbuses, hinvocations, hp⟩ :=
        Session.publishOn_of_tooDeep hb hopen hexceeded hshown
      exact ⟨s', p, _, hpublish, hbuses, hinvocations, hp, rfl⟩
    · intro hshallow s' p hpublish
      rw [if_neg (Nat.not_le.2 hshallow)] at hexceeded
      obtain ⟨d, q, hd, hq, hrefusal⟩ := Session.refusal_of_publishOn hpublish
      exact ⟨⟨q, hq, hrefusal.trans (Bus.refusal_of_admitted hopen hexceeded hd)⟩,
        fun a i => Session.depth_of_publishOn (r.proper t) hb hpublish⟩
  · intro t a i b limit hi hb hlimit
    exact (r.reachable t).depth_le hi hb hlimit
  · intro a b t t' i j hcauses hi hj
    exact hcauses.depth hi hj
  · intro most hlimited q
    exact ⟨fun n a => hlimited.generation_le, finite_descendants hlimited q⟩

/-- On a bus with limit two, a listener publishes its event again and again, each time in the reply that it has left for
later. -/
private def cascade : Run :=
  .scripted false [.perform (.openBus "bus" .default [.maxPublishDepth (some 2)]),
    .define "again" false (.later (.publish "bus" (.recipe ⟨.simple 0, 1, "", false⟩) fun _ => .reply none)),
    .perform (.subscribe "bus" "again" (.shared (.simple 0)) none),
    .perform (.start "call" ⟨"bus", .held, ⟨.simple 0, 0, "", false⟩⟩),
    .step 5, .step 5, .step 5, .step 7, .step 7, .step 7]

private def isLimited (s : Session) : Bool :=
  s.buses.values.all fun b => b.config.maxPublishDepth = some 2

private theorem limited_cascade : cascade.Limited 2 := by
  intro t id b hb
  have hlimited : isLimited (cascade.session t) :=
    forall_scripted (P := fun s => isLimited s = true) (by decide +kernel) t
  have hmem := (Table.mem_values_iff (cascade.proper t).buses b).2 ⟨id, hb⟩
  exact ⟨2, by simpa using List.all_eq_true.1 hlimited b hmem, Nat.le_refl _⟩

private def cascadeBus : Bus :=
  ((cascade.session 9).bus? "bus").getD ⟨0, .default, false, .empty, .empty⟩

/-- Its second call is the last one: the publish that it makes is refused. -/
theorem cascade_ends : cascade.Descends 4 2 7 ∧ (∀ n a, cascade.Descends 4 n a → n ≤ 2) ∧
    {a | ∃ n, cascade.Descends 4 n a}.Finite ∧ ∃ i s' p q, cascade.invocation? 9 7 = some i ∧ i.context.depth = 2 ∧
      (cascade.session 9).publishOn i.context cascadeBus ((cascade.session 9).make ⟨.simple 0, 1, "", false⟩)
        = (s', .ok p) ∧
      s'.publications.get? p = some q ∧ q.result? = some (.error (.depthExceeded 2 2)) := by
  obtain ⟨hdecide, -, -, hends⟩ := depth_is_limited cascade
  obtain ⟨hheight, hall⟩ := hends 2 limited_cascade 4
  refine ⟨?_, hheight, hall, ?_⟩
  · refine .caused (a := 5) (.published (t := 5) rfl rfl) ?_
    exact ⟨6, rfl, rfl, rfl⟩
  · obtain ⟨i, hi, hdepth⟩ : ∃ i, cascade.invocation? 9 7 = some i ∧ i.context.depth = 2 := ⟨_, rfl, rfl⟩
    obtain ⟨s', p, q, hpublish, -, -, hq, hresult⟩ := (hdecide 9 cascadeBus 2 rfl rfl rfl i.context
      ((cascade.session 9).make ⟨.simple 0, 1, "", false⟩)).1 (Nat.le_of_eq hdepth.symm) fun _ => ⟨_, rfl⟩
    rw [hdepth] at hresult
    exact ⟨i, s', p, q, hi, hdepth, hpublish, hq, hresult⟩

/-- As for the rest, a bus that traces and has limit one, and an event that cannot be rendered. -/
private def unreported : Run :=
  .scripted true [.perform (.openBus "bus" .default [.maxPublishDepth (some 1)]),
    .perform (.object "again" "Again" false
      (.leaf ⟨[], none, .publish "bus" .await (.fresh (.simple 0) (.fixed 1) "" true)⟩) []),
    .perform (.subscribe "bus" "again" (.shared (.simple 0)) none),
    .perform (.start "call" ⟨"bus", .held, ⟨.simple 0, 0, "", false⟩⟩),
    .step 5, .step 5, .step 5]

/-- Then a publish that reaches the limit is not refused, but crashes. -/
theorem unrendered_is_not_refused : ∃ i b message next, unreported.invocation? 6 5 = some i ∧
    i.rest? = some (.publish "bus" (.recipe message) next) ∧ (unreported.session 6).bus? "bus" = some b ∧ b.isOpen ∧
    b.config.maxPublishDepth = some 1 ∧ i.context.depth = 1 ∧
    ((unreported.session 6).publishOn i.context b ((unreported.session 6).make message)).2 = .error .unprintable :=
  ⟨_, _, _, _, rfl, rfl, rfl, rfl, rfl, rfl, rfl⟩

end PubSub.Run
