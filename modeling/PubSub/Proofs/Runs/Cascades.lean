import Mathlib.Tactic.IntervalCases
import PubSub.Proofs.Runs.Generations
import PubSub.Proofs.Runs.Loops
import PubSub.Proofs.Runs.Relays
import PubSub.Proofs.Sources

/-!
# Cascades

A publish in a loop brings about one more, and so on, until the bus refuses. The refusal comes back as the error of
each publish in turn, and stands at the end of the sources of the first one's.
-/

namespace PubSub.Run

variable {r : Run} {l : Loop} {t u v w a b q q' n : Nat} {ctx : Context} {i j : Invocation}

section Progeny

/-- All invocations that the publish brings about. -/
def progeny (r : Run) (q : Nat) : Set Nat :=
  {a | ∃ n, r.Descends q n a}

theorem invocationsOf_subset_progeny (r : Run) (q : Nat) : r.invocationsOf q ⊆ r.progeny q := by
  intro a ha
  obtain ⟨t, i, hi, hq⟩ := ha
  exact ⟨1, .published hi hq⟩

theorem mem_progeny_of_causes (ha : a ∈ r.progeny q) (hc : r.Causes a b) : b ∈ r.progeny q := by
  obtain ⟨n, hn⟩ := ha
  exact ⟨n + 1, .caused hn hc⟩

theorem progeny_subset {S : Set Nat} (hfirst : r.invocationsOf q ⊆ S) (hnext : ∀ a ∈ S, ∀ b, r.Causes a b → b ∈ S) :
    r.progeny q ⊆ S := by
  intro b hb
  obtain ⟨n, hn⟩ := hb
  induction hn with
  | published hi hq => exact hfirst ⟨_, _, hi, hq⟩
  | caused _ hc ih => exact hnext _ ih _ hc

theorem progeny_of_nobody (h : r.invocationsOf q = ∅) : r.progeny q = ∅ := by
  apply Set.subset_empty_iff.1
  exact progeny_subset (Set.subset_empty_iff.2 h) fun a ha => absurd ha (Set.notMem_empty a)

theorem progeny_of_childless (hsole : r.invocationsOf q = {a}) (hnone : ∀ b, ¬ r.Causes a b) : r.progeny q = {a} := by
  apply Set.Subset.antisymm
  · refine progeny_subset (subset_of_eq hsole) ?_
    rintro _ rfl b hc
    exact absurd hc (hnone b)
  · exact hsole ▸ invocationsOf_subset_progeny r q

theorem progeny_of_sole (hsole : r.invocationsOf q = {a}) (hcauses : ∀ b, r.Causes a b ↔ b ∈ r.invocationsOf q') :
    r.progeny q = insert a (r.progeny q') := by
  have ha : a ∈ r.progeny q := invocationsOf_subset_progeny r q (hsole ▸ Set.mem_singleton a)
  apply Set.Subset.antisymm
  · refine progeny_subset ?_ ?_
    · rw [hsole]
      exact Set.singleton_subset_iff.2 (Set.mem_insert ..)
    · intro b hb c hc
      rcases hb with rfl | hb
      · exact Or.inr (invocationsOf_subset_progeny r q' ((hcauses c).1 hc))
      · exact Or.inr (mem_progeny_of_causes hb hc)
  · refine Set.insert_subset ha (progeny_subset ?_ fun _ hb _ => mem_progeny_of_causes hb)
    intro b hb
    exact mem_progeny_of_causes ha ((hcauses b).2 hb)

theorem lt_of_mem_progeny (hcauses : ∀ b, r.Causes a b ↔ b ∈ r.invocationsOf q') (hb : b ∈ r.progeny q') : a < b := by
  refine progeny_subset (S := {b | a < b}) ?_ ?_ hb
  · intro c hc
    exact ((hcauses c).2 hc).lt
  · intro c hc d hd
    exact Nat.lt_trans hc hd.lt

end Progeny

section Opening

variable (hopens : l.Opens (r.session t) ctx (r.session (t + 1)) q)
include hopens

theorem exists_publication_of_opens : ∃ p, r.publication? (t + 1) q = some p := by
  cases hopens.opened with
  | invoked _ hi hpub => exact hpub ▸ (r.proper (t + 1)).belongs _ _ hi
  | refused _ hp => exact ⟨_, hp⟩

theorem lt_of_opens (hj : r.invocation? u b = some j) (hq : j.publication = q) : t < u := by
  by_contra hle
  obtain ⟨p, hp⟩ := (r.proper u).belongs b j hj
  have hissued := (r.proper u).publication _ p hp
  have := (extends_of_le (r := r) (Nat.le_of_not_lt hle)).issued
  have := hopens.fresh
  omega

theorem lt_of_mem_invocationsOf (hb : b ∈ r.invocationsOf q) (hj : r.invocation? u b = some j) : t < u := by
  obtain ⟨u', j', hj', hq⟩ := hb
  exact lt_of_opens hopens hj ((continues hj' hj).publication.trans hq)

theorem invocation?_of_opens (hb : b ∈ r.invocationsOf q) :
    ∃ j, r.invocation? (t + 1) b = some j ∧ j.publication = q := by
  obtain ⟨u, j, hj, hq⟩ := hb
  obtain ⟨p, hp⟩ := exists_publication_of_opens hopens
  exact invocation?_of_made (lt_of_opens hopens hj hq) hp hj hq

theorem isSome_of_unresolved (hsole : r.invocationsOf q = {a}) (hlt : t < u) (hnot : ¬ (r.session u).Resolved q) :
    (r.invocation? u a).isSome := by
  obtain ⟨p₀, hp₀⟩ := exists_publication_of_opens hopens
  obtain ⟨p, hp, -⟩ := publication?_of_le hlt hp₀
  have hnone : p.result? = none := by
    by_contra hsome
    exact hnot ⟨p, hp, Option.isSome_iff_ne_none.2 hsome⟩
  obtain ⟨b, j, hj, hq⟩ := (Session.unresolved_iff (r.proper u) (r.balanced u) hp).1 hnone
  have hb : b ∈ r.invocationsOf q := ⟨u, j, hj, hq⟩
  rw [hsole, Set.mem_singleton_iff] at hb
  exact Option.isSome_iff_exists.2 ⟨j, hb ▸ hj⟩

theorem cases_of_opens :
    (ctx.depth < l.limit.toNat ∧ ∃ a i, r.invocation? (t + 1) a = some i ∧ i.publication = q ∧ i.origin = ctx ∧
      i.stage = .fresh ∧ l.Engages i ∧ r.invocationsOf q = {a}) ∨
    (l.limit.toNat ≤ ctx.depth ∧ r.invocationsOf q = ∅ ∧
      (r.session (t + 1)).Yields q (.error (.depthExceeded ctx.depth l.limit.toNat))) := by
  have hthere {b : Nat} := invocation?_of_opens (b := b) hopens
  cases hopens.opened with
  | @invoked a i hadmitted hi hpub horigin hfresh he hsole =>
    refine Or.inl ⟨hadmitted, a, i, hi, hpub, horigin, hfresh, he, ?_⟩
    ext b
    constructor
    · intro hb
      obtain ⟨j, hj, hq⟩ := hthere hb
      exact hsole b j hj hq
    · rintro rfl
      exact ⟨t + 1, i, hi, hpub⟩
  | refused hdeep hp hresult hnobody =>
    refine Or.inr ⟨hdeep, ?_, _, hp, hresult⟩
    apply Set.eq_empty_of_forall_notMem
    intro b hb
    obtain ⟨j, hj, hq⟩ := hthere hb
    exact hnobody b j hj hq

end Opening

section Renewing

private theorem depth_of_continues (hc : i.Continues j) (horigin : i.origin = ctx) :
    j.context.depth = ctx.depth + 1 := by
  rw [hc.context, ← horigin]
  rfl

/-- The invocation publishes in the loop, and leaves that as its reply. -/
structure Renews (r : Run) (l : Loop) (w a q : Nat) : Prop where
  steps : r.Steps a w
  publishing : ∃ i, r.invocation? w a = some i ∧ l.Approaches i ∧ l.Opens (r.session w) i.context (r.session (w + 1)) q
  returning : ∃ i, r.invocation? (w + 1) a = some i ∧ i.stage = .calling (.later (.awaiting q))

theorem Renews.relays (h : r.Renews l w a q) (hlt : w < u) : (r.session u).Relays a q := by
  obtain ⟨i, hi, hstage⟩ := h.returning
  have hnow : (r.session (w + 1)).Relays a q := by
    intro i' hi'
    obtain rfl := Option.some.inj (hi.symm.trans hi')
    exact Or.inl hstage
  exact hnow.moves (r.proper (w + 1)) (r.balanced (w + 1)) (issued_of_invocation? hi) (moves_of_le hlt)

private theorem quiet_of_relays (h : (r.session u).Relays a q) (hi : r.invocation? u a = some i) :
    (∀ l : Loop, ¬ l.Approaches i) ∧ ∀ p, i.rest? = some p → p.isQuiet := by
  have hgoes : ∃ p, i.rest? = some p ∧ p.isQuiet ∧ ∀ l : Loop, ¬ p.Republishes l.names l.messages := by
    rcases h i hi with hstage | hstage | ⟨result, -, hstage⟩
    · exact ⟨.later (.awaiting q), by simp [Invocation.rest?, hstage], rfl, fun _ => id⟩
    · exact ⟨.awaiting q, by simp [Invocation.rest?, hstage], rfl, fun _ => id⟩
    · refine ⟨.passing result, by simp [Invocation.rest?, hstage], ?_⟩
      cases result <;> exact ⟨rfl, fun _ => id⟩
  obtain ⟨p, hrest, hquiet, hnot⟩ := hgoes
  constructor
  · intro l happroaches
    exact hnot l (Loop.republishes_of_rest? happroaches hrest)
  · intro p' hrest'
    obtain rfl := Option.some.inj (hrest.symm.trans hrest')
    exact hquiet

theorem Renews.moment_unique (h : r.Renews l w a q) {w' : Nat} (h' : r.Renews l w' a q') : w = w' := by
  have hle {w w' q q' : Nat} (h : r.Renews l w a q) (h' : r.Renews l w' a q') : w' ≤ w := by
    by_contra hlt
    obtain ⟨i, hi, happroaches, -⟩ := h'.publishing
    exact (quiet_of_relays (h.relays (Nat.lt_of_not_le hlt)) hi).1 l happroaches
  exact Nat.le_antisymm (hle h' h) (hle h h')

/-- Who is yet to publish comes nearer to it with each step, by itself, or does it now. -/
theorem renews_of_step (hi : r.invocation? u a = some i) (he : l.Engages i)
    (hcloses : l.Closes (r.session u) ∧ l.Prints (r.session u)) (happroaches : l.Approaches i) (hsteps : r.Steps a u) :
    ((∃ j, r.invocation? (u + 1) a = some j ∧ l.Approaches j) ∧
      ∀ b ≠ a, r.invocation? (u + 1) b = r.invocation? u b) ∨ ∃ q, r.Renews l u a q := by
  obtain ⟨hcl, hprints⟩ := hcloses
  refine (Loop.step_of_approaches (r.proper u) hcl hprints hi he happroaches hsteps).imp_right ?_
  intro hpublished
  obtain ⟨q, hopens, hreturning⟩ := hpublished
  exact ⟨q, hsteps, ⟨i, hi, happroaches, hopens⟩, hreturning⟩

section Engaged

variable (hi : r.invocation? v a = some i) (hfresh : i.stage = .fresh) (he : l.Engages i)
variable (hcloses : ∀ u j, v ≤ u → r.invocation? u a = some j → l.Closes (r.session u) ∧ l.Prints (r.session u))
include hi hfresh he hcloses

theorem approaches_or_renewed (hle : v ≤ u) (hj : r.invocation? u a = some j) :
    l.Approaches j ∨ ∃ w q, v ≤ w ∧ w < u ∧ r.Renews l w a q := by
  induction hle generalizing j with
  | refl =>
    obtain rfl := Option.some.inj (hi.symm.trans hj)
    exact Or.inl (Or.inl (by simp [Invocation.rest?, hfresh]))
  | @step u hle ih =>
    have hissued := Nat.le_trans (issued_of_invocation? hi) (extends_of_le hle).issued
    obtain ⟨k, hk, hc⟩ := invocation?_of_le (Nat.le_succ u) hissued hj
    rcases ih hk with happroaches | ⟨w, q, hfrom, hto, h⟩
    · rcases same_or_steps hissued hj with hsame | hsteps
      · obtain rfl := Option.some.inj (hk.symm.trans hsame)
        exact Or.inl happroaches
      · rcases renews_of_step hk (he.continues (continues hi hk)) (hcloses u k hle hk) happroaches hsteps
          with ⟨⟨i', hi', hnearer⟩, -⟩ | ⟨q, hrenews⟩
        · obtain rfl := Option.some.inj (hj.symm.trans hi')
          exact Or.inl hnearer
        · exact Or.inr ⟨u, q, hle, Nat.lt_succ_self u, hrenews⟩
    · exact Or.inr ⟨w, q, hfrom, Nat.lt_succ_of_lt hto, h⟩

theorem renews_of_causes (hborn : ∀ u j, r.invocation? u a = some j → v ≤ u) (h : r.Causes a b) :
    ∃ w q, v ≤ w ∧ r.Renews l w a q ∧ b ∈ r.invocationsOf q := by
  obtain ⟨u, hstep, hnone, hsome⟩ := h
  obtain ⟨k, hk⟩ := exists_invocation_of_step hstep
  have hle := hborn u k hk
  have hne : b ≠ a := by
    rintro rfl
    cases hk.symm.trans hnone
  have hnot : r.invocation? (u + 1) b ≠ r.invocation? u b := by
    intro hsame
    rw [hsame, hnone] at hsome
    cases hsome
  rcases approaches_or_renewed hi hfresh he hcloses hle hk with happroaches | ⟨w, q, -, hlt, hrenews⟩
  · rcases renews_of_step hk (he.continues (continues hi hk)) (hcloses u k hle hk) happroaches hstep
      with ⟨-, hkept⟩ | ⟨q, hrenews⟩
    · exact absurd (hkept b hne) hnot
    · obtain ⟨_, -, -, hopens⟩ := hrenews.publishing
      obtain ⟨j, hj⟩ := Option.isSome_iff_exists.1 hsome
      have hnew : (r.session u).issued < b := by
        by_contra hold
        cases hj.symm.trans (gone_of_le (Nat.le_succ u) (Nat.le_of_not_lt hold) hnone)
      exact ⟨u, q, hle, hrenews, u + 1, j, hj, hopens.only b j hj hnew⟩
  · exact absurd (Session.kept_of_step hk (quiet_of_relays (hrenews.relays hlt) hk).2 hstep hne) hnot

theorem causes_iff (hborn : ∀ u j, r.invocation? u a = some j → v ≤ u) (h : r.Renews l w a q) (b : Nat) :
    r.Causes a b ↔ b ∈ r.invocationsOf q := by
  obtain ⟨k, hk, -, hopens⟩ := h.publishing
  constructor
  · intro hcauses
    obtain ⟨w', q', -, h', hb⟩ := renews_of_causes hi hfresh he hcloses hborn hcauses
    obtain rfl := h.moment_unique h'
    obtain ⟨k₁, hk₁, hstage⟩ := h.returning
    obtain ⟨k₂, hk₂, hstage'⟩ := h'.returning
    obtain rfl := Option.some.inj (hk₁.symm.trans hk₂)
    have hsame : q = q' := by simpa [Behaviour.awaiting] using hstage.symm.trans hstage'
    exact hsame ▸ hb
  · intro hb
    obtain ⟨j, hj, hq⟩ := invocation?_of_opens hopens hb
    refine ⟨w, h.steps, ?_, by simp [hj]⟩
    cases hbefore : r.invocation? w b with
    | none => rfl
    | some j₀ =>
      have hq₀ : j₀.publication = q := (continues hj hbefore).publication.trans hq
      exact absurd (lt_of_opens hopens hbefore hq₀) (Nat.lt_irrefl w)

end Engaged

end Renewing

section Failing

def Calls (r : Run) (l : Loop) (a : Nat) : Prop :=
  ∃ t i, r.invocation? t a = some i ∧ i.subscription = l.subscription ∧ i.isCalling

/-- The publish has failed with these many levels of failures, of as many calls, for the publish that was refused. -/
def Unwinds (r : Run) (l : Loop) (t q n : Nat) : Prop :=
  ∃ error levels, (r.session t).Yields q (.error error) ∧
    (Fault.publish error).Nests levels (some (.publish (.depthExceeded l.limit.toNat l.limit.toNat))) ∧
    levels.length = n ∧ (r.progeny q).Finite ∧ (r.progeny q).ncard = n ∧ ∀ a ∈ r.progeny q, r.Calls l a

/-- Between the two moments the loop is closed, and its messages can be rendered. -/
def ClosedFor (r : Run) (l : Loop) (t u : Nat) : Prop :=
  ∀ w, t < w → w ≤ u → l.Closes (r.session w) ∧ l.Prints (r.session w)

section During

variable (hopens : l.Opens (r.session t) ctx (r.session (t + 1)) q) (hresolved : (r.session u).Resolved q)
include hopens hresolved

private theorem lt_of_resolved : t < u := by
  obtain ⟨p, hp, -⟩ := hresolved
  by_contra hle
  have := (r.proper u).publication q p hp
  have := (extends_of_le (r := r) (Nat.le_of_not_lt hle)).issued
  have := hopens.fresh
  omega

private theorem during_of_resolved (ha : a ∈ r.invocationsOf q) (hj : r.invocation? w a = some j) : t < w ∧ w < u := by
  refine ⟨lt_of_mem_invocationsOf hopens ha hj, ?_⟩
  obtain ⟨w', j', hj', hq⟩ := ha
  exact ((ended_of_resolved hresolved).1 a j w hj ((continues hj' hj).publication.trans hq)).1

private theorem ClosedFor.of_present (h : r.ClosedFor l t u) (ha : a ∈ r.invocationsOf q)
    (hj : r.invocation? w a = some j) : l.Closes (r.session w) ∧ l.Prints (r.session w) := by
  obtain ⟨hfrom, hto⟩ := during_of_resolved hopens hresolved ha hj
  exact h w hfrom (Nat.le_of_lt hto)

end During

private theorem renewed_of_resolved {p : Publication} (hopens : l.Opens (r.session t) ctx (r.session (t + 1)) q)
    (hi : r.invocation? (t + 1) a = some i) (hfresh : i.stage = .fresh) (he : l.Engages i)
    (hsole : r.invocationsOf q = {a}) (hclosed : r.ClosedFor l t u) (hp : r.publication? u q = some p)
    (hresolved : (r.session u).Resolved q) : ∃ w v q' j result, t < w ∧ w < v ∧ v < u ∧ r.Renews l w a q' ∧
      (r.session v).Yields q' result ∧ l.Engages j ∧ r.Endings u q p [(a, j.relayed r.tracing result)] := by
  have ha : a ∈ r.invocationsOf q := hsole ▸ Set.mem_singleton a
  obtain ⟨o, hes⟩ := ending_of_sole hsole hp hresolved
  have hrunning : ∀ b j v, r.invocation? v b = some j → j.publication = q → (r.session u).isRunning j.bus := by
    intro b j v hj hpub
    obtain rfl : b = a := by
      rw [← Set.mem_singleton_iff, ← hsole]
      exact ⟨v, j, hj, hpub⟩
    rw [(he.continues (continues hi hj)).bus]
    exact (hclosed u (lt_of_resolved hopens hresolved) (Nat.le_refl u)).1.isRunning
  obtain ⟨v, j, hj, -, -, hends, -⟩ := hes.concludes hrunning (List.mem_singleton.2 rfl)
  obtain ⟨hfrom, hto⟩ := during_of_resolved hopens hresolved ha hj
  have hj' := he.continues (continues hi hj)
  have hcloses {w : Nat} {k : Invocation} (_ : t + 1 ≤ w) (hk : r.invocation? w a = some k) :=
    hclosed.of_present hopens hresolved ha hk
  rcases approaches_or_renewed hi hfresh he (fun _ _ => hcloses) hfrom hj with happroaches | ⟨w, q', hle, hlt, hrenews⟩
  · obtain ⟨hcl, hprints⟩ := hcloses hfrom hj
    exact absurd hends (Loop.not_ends_of_approaches (r.proper v) hcl hprints hj' happroaches)
  · obtain ⟨result, hyields, rfl⟩ := (hrenews.relays hlt).ends hj hends
    exact ⟨w, v, q', j, result, hle, hlt, hto, hrenews, hyields, hj', r.tracing_session v ▸ hes⟩

private theorem yields_of_relayed {p : Publication} {e : PublishError} (hp : r.publication? t q = some p)
    (hresolved : (r.session t).Resolved q) (hes : r.Endings t q p [(a, i.relayed r.tracing (.error e))])
    {text : String} (htext : i.event.debug = .ok text) (he : e.isPrintable) :
    ∃ first, (r.session t).Yields q (.error (.listenersFailed first [])) ∧ first.cause = .deferred (.publish e) := by
  obtain ⟨p', hp', hsome⟩ := hresolved
  obtain rfl := Option.some.inj (hp.symm.trans hp')
  obtain ⟨result, hresult⟩ := Option.isSome_iff_exists.1 hsome
  rw [i.relayed_error htext fun _ => he] at hes
  refine ⟨.mk text i.subscription.key i.subscription.callback.target i.subscription.callback.name
    (.deferred (.publish e)), ⟨p, hp, ?_⟩, rfl⟩
  rcases result_cases hp hresult with ⟨error, -, -, hnone⟩ | hjoined
  · cases hnone.symm.trans hes.ends
  · rw [hresult, hjoined, observed_of_sole hes]
    rfl

theorem unwinds_of_opens (hopens : l.Opens (r.session t) ctx (r.session (t + 1)) q)
    (hdepth : ctx.depth + n = l.limit.toNat) (hclosed : r.ClosedFor l t u) (hresolved : (r.session u).Resolved q) :
    r.Unwinds l u q n := by
  induction n generalizing t u q ctx with
  | zero =>
    rcases cases_of_opens hopens with ⟨hadmitted, -⟩ | ⟨-, hnobody, hyields⟩
    · omega
    · rw [show ctx.depth = l.limit.toNat from hdepth] at hyields
      refine ⟨_, [], yields_of_le (lt_of_resolved hopens hresolved) hyields, .leaf rfl, rfl, ?_⟩
      simp [progeny_of_nobody hnobody]
  | succ n ih =>
    rcases cases_of_opens hopens with ⟨-, a, i, hi, -, horigin, hfresh, he, hsole⟩ | ⟨hdeep, -⟩
    · have ha : a ∈ r.invocationsOf q := hsole ▸ Set.mem_singleton a
      obtain ⟨p, hp, -⟩ := id hresolved
      obtain ⟨w, v, q', j, result, hfrom, hlt, hto, hrenews, hyields, hj, hes⟩ :=
        renewed_of_resolved hopens hi hfresh he hsole hclosed hp hresolved
      obtain ⟨k, hk, -, hopens'⟩ := hrenews.publishing
      -- the publish that it makes is one level deeper, so there is one level less below that
      have hdeeper : k.context.depth + n = l.limit.toNat := by
        rw [depth_of_continues (continues hi hk) horigin]
        omega
      obtain ⟨error, levels, herror, hnests, hlevels, hfinite, hncard, hcalls⟩ := ih hopens' hdeeper
        (fun w' hfrom' hto' => hclosed w' (by omega) (by omega)) hyields.resolved
      obtain rfl := hyields.unique herror
      obtain ⟨text, htext⟩ := hj.printable
      have hprintable : error.isPrintable := by
        have hfault := hnests.isPrintable (by simp [Fault.isPrintable, PublishError.isPrintable])
        rwa [Fault.isPrintable] at hfault
      obtain ⟨first, hfirst, hcause⟩ := yields_of_relayed hp hresolved hes htext hprintable
      have hfault : first.cause.fault? = some (.publish error) := by
        rw [hcause]
        rfl
      refine ⟨_, first :: levels, hfirst, .level hfault hnests, by simp [hlevels], ?_⟩
      have hcauses := causes_iff hi hfresh he (fun _ _ _ hj' => hclosed.of_present hopens hresolved ha hj')
        (fun _ _ => lt_of_mem_invocationsOf hopens ha) hrenews
      rw [progeny_of_sole hsole hcauses]
      refine ⟨hfinite.insert a, ?_, ?_⟩
      · have hnew : a ∉ r.progeny q' := fun ha' => Nat.lt_irrefl a (lt_of_mem_progeny hcauses ha')
        rw [Set.ncard_insert_of_notMem hnew hfinite, hncard]
      · intro b hb
        rcases hb with rfl | hb
        · obtain ⟨i', hi', hstage⟩ := hrenews.returning
          have hsame := (he.continues (continues hi hi')).subscription
          exact ⟨w + 1, i', hi', hsame, by simp [Invocation.isCalling, hstage]⟩
        · exact hcalls b hb
    · omega

end Failing

section Resolving

private theorem progeny_eq_of_approaches (hopens : l.Opens (r.session t) ctx (r.session (t + 1)) q)
    (hi : r.invocation? (t + 1) a = some i) (hfresh : i.stage = .fresh) (he : l.Engages i)
    (hsole : r.invocationsOf q = {a}) (hclosed : ∀ u, r.ClosedFor l t u)
    (hstill : ∀ u ≥ v, r.invocation? u a = some j) (happroaches : l.Approaches j) : r.progeny q = {a} := by
  have ha : a ∈ r.invocationsOf q := hsole ▸ Set.mem_singleton a
  refine progeny_of_childless hsole fun b hcauses => ?_
  obtain ⟨w, q', -, hrenews, -⟩ :=
    renews_of_causes hi hfresh he (fun u _ hle _ => hclosed u u hle (Nat.le_refl u))
      (fun _ _ => lt_of_mem_invocationsOf hopens ha) hcauses
  have hlater : w < max v (w + 1) := by omega
  exact (quiet_of_relays (hrenews.relays hlater) (hstill _ (Nat.le_max_left ..))).1 l happroaches

/-- If the loop stays closed and everyone gets on who can, the publish is resolved; unless others take the turn of the
listener. -/
theorem resolved_of_opens (hfair : r.Fair) (hopens : l.Opens (r.session t) ctx (r.session (t + 1)) q)
    (hdepth : ctx.depth + n = l.limit.toNat) (hclosed : ∀ u, r.ClosedFor l t u)
    (hturn : (l.subscription.callback.threadSafe ∨
        ∃ u b j, r.invocation? u b = some j ∧ j.caller = l.caller ∧ j.address ∈ ctx.callers) ∨
      ∀ u b j, t < u → r.invocation? u b = some j → j.caller = l.caller → b ∈ r.progeny q) :
    ∃ u, (r.session u).Resolved q := by
  induction n generalizing t q ctx with
  | zero =>
    rcases cases_of_opens hopens with ⟨hadmitted, -⟩ | ⟨-, -, hyields⟩
    · omega
    · exact ⟨t + 1, hyields.resolved⟩
  | succ n ih =>
    rcases cases_of_opens hopens with ⟨-, a, i, hi, -, horigin, hfresh, he, hsole⟩ | ⟨-, -, hyields⟩
    · by_contra hnever
      have hthere (u : Nat) (hu : u ≥ t + 1) : (r.invocation? u a).isSome :=
        isSome_of_unresolved hopens hsole hu fun hresolved => hnever ⟨u, hresolved⟩
      obtain ⟨v, hv, j, hstill⟩ := hfair.stands_still hthere
      have hj (u : Nat) (hu : u ≥ v) : r.invocation? u a = some j := (hstill u hu).1
      have hcloses {u : Nat} (hle : t + 1 ≤ u) := hclosed u u hle (Nat.le_refl u)
      rcases approaches_or_renewed hi hfresh he (fun _ _ hle _ => hcloses hle) hv (hj v (Nat.le_refl v))
        with happroaches | ⟨w, q', hfrom, hlt, hrenews⟩
      · -- it needs no turn if calls may overlap, nor below a call of the listener; otherwise nobody else can have it
        obtain ⟨w, hw, hstuck⟩ := (hstill v (Nat.le_refl v)).2
        refine Loop.step_ne_none_of_approaches (r.proper w) (hj w hw) happroaches ?_ hstuck
        have hc := continues hi (hj w hw)
        refine hturn.imp ?_ ?_
        · intro hfree
          rw [Invocation.bypasses, (he.continues hc).subscription, hc.origin, horigin]
          rcases hfree with hsafe | ⟨u, b, k, hk, hcaller, hmem⟩
          · simp [hsafe]
          · have haddress := address_eq_of_caller hk (hj w hw) (hcaller.trans (he.continues hc).caller.symm)
            simp [← haddress, hmem]
        · intro halone b k hk hsame
          have hb := halone w b k (by omega) hk (hsame.trans (he.continues hc).caller)
          rw [progeny_eq_of_approaches hopens hi hfresh he hsole hclosed hj happroaches] at hb
          exact hb
      · obtain ⟨k, hk, -, hopens'⟩ := hrenews.publishing
        have hc := continues hi hk
        have hdeeper : k.context.depth + n = l.limit.toNat := by
          rw [depth_of_continues hc horigin]
          omega
        have hcaller : ∃ u b j, r.invocation? u b = some j ∧ j.caller = l.caller ∧ j.address ∈ k.context.callers :=
          ⟨w, a, k, hk, (he.continues hc).caller, List.mem_append_right _ (List.mem_singleton.2 rfl)⟩
        have hclosed' : ∀ u, r.ClosedFor l w u := fun u w' hfrom' hto' => hclosed u w' (by omega) hto'
        obtain ⟨u, hresolved⟩ := ih hopens' hdeeper hclosed' (Or.inl (Or.inr hcaller))
        obtain ⟨w', hw', hstuck⟩ := (hstill (max v u) (Nat.le_max_left ..)).2
        have hnext : (r.session w').Resolved q' := resolved_of_le (by omega) hresolved
        exact (hrenews.relays (by omega)).step_ne_none (hj w' (by omega)) hnext hstuck
    · exact ⟨t + 1, hyields.resolved⟩

end Resolving

section Loops

/-- From the one moment on, until the publish is resolved. -/
def Meanwhile (r : Run) (t q u : Nat) : Prop :=
  t ≤ u ∧ ∀ w, t ≤ w → w < u → ¬ (r.session w).Resolved q

/-- The program publishes in the loop, which stays closed until that is resolved. -/
structure Loops (r : Run) (l : Loop) (t q : Nat) : Prop where
  limited : 1 ≤ l.limit.toNat
  begins : ∃ p s, p.bus ∈ l.names ∧ .recipe p.recipe ∈ l.messages ∧
    (r.session t).publish .outermost p = some (s, .ok q) ∧ s.Aside (r.session (t + 1))
  closes : ∀ u, r.Meanwhile t q u → l.Closes (r.session u)

variable (h : r.Loops l t q) (hprints : ∀ u, r.Meanwhile t q u → l.Prints (r.session u))
include h hprints

private theorem Loops.opens : l.Opens (r.session t) .outermost (r.session (t + 1)) q := by
  have hnow : r.Meanwhile t q t := by
    refine ⟨Nat.le_refl t, fun w hfrom hto => ?_⟩
    omega
  obtain ⟨p, s, hbus, hm, hpublish, haside⟩ := h.begins
  obtain ⟨b, s', q', hname, hmade, hopens, -⟩ :=
    Loop.opens_of_closes (r.proper t) (h.closes t hnow) (hprints t hnow) hm .outermost
  simp only [Session.publish, hname p.bus hbus] at hpublish
  split at hpublish
  · cases hpublish
  · obtain ⟨rfl, hq⟩ := Prod.mk.inj (hmade.symm.trans (Option.some.inj hpublish))
    obtain rfl := Except.ok.inj hq
    exact hopens.aside haside

private theorem Loops.unwinds (hresolved : (r.session u).Resolved q) : r.Unwinds l u q l.limit.toNat := by
  classical
  have hopens := h.opens hprints
  have hsome : ∃ v, (r.session v).Resolved q := ⟨u, hresolved⟩
  have hfirst : (r.session (Nat.find hsome)).Resolved q := Nat.find_spec hsome
  have hclosed : r.ClosedFor l t (Nat.find hsome) := by
    intro w hfrom hto
    have hmeanwhile : r.Meanwhile t q w :=
      ⟨Nat.le_of_lt hfrom, fun v _ hlt => Nat.find_min hsome (Nat.lt_of_lt_of_le hlt hto)⟩
    exact ⟨h.closes w hmeanwhile, hprints w hmeanwhile⟩
  obtain ⟨error, levels, hyields, hrest⟩ := unwinds_of_opens hopens (Nat.zero_add _) hclosed hfirst
  exact ⟨error, levels, yields_of_le (Nat.find_min' hsome hresolved) hyields, hrest⟩

private theorem Loops.resolves (hfair : r.Fair) (hturn : l.subscription.callback.threadSafe ∨
      ∀ u b j, t < u → r.invocation? u b = some j → j.caller = l.caller → b ∈ r.progeny q) :
    ∃ u, (r.session u).Resolved q := by
  by_contra hnever
  refine hnever (resolved_of_opens hfair (h.opens hprints) (Nat.zero_add _) ?_ (hturn.imp_left Or.inl))
  intro u w hfrom _
  have hmeanwhile : r.Meanwhile t q w := ⟨Nat.le_of_lt hfrom, fun v _ _ hresolved => hnever ⟨v, hresolved⟩⟩
  exact ⟨h.closes w hmeanwhile, hprints w hmeanwhile⟩

end Loops

/-- The error that all began with is reached through the sources. Every error of a publish is of nested publishes, each
of which failed for the next one, and each level adds three sources: the first failure, its error, and what the listener
failed with. After them come the sources of what the last one failed with; where its listener gave up or could not see
the event, they end there. So it is in whatever way a program goes on that publishes in a loop, as long as the messages
can be rendered: once the publish is resolved, it has called the listener as often as the limit allows, and each call
has left one level of the error, which ends in the refusal of the last publish. And it is resolved, if everyone gets on
who can and the listener has nothing else to do, or its calls may overlap. -/
theorem root_cause_is_reachable (r : Run) (own : String → List String) :
    (∀ error : PublishError, (error.chain fun _ => []).map Source.text = error.sources ∧
      ∃ levels leaf, (Fault.publish error).Nests levels leaf) ∧
    (∀ error levels leaf, (Fault.publish error).Nests levels (some leaf) →
      error.chain own = levels.flatMap ListenerFailure.entries ++ leaf.chain own ∧
        (error.chain own).length = 3 * levels.length + (leaf.chain own).length) ∧
    (∀ error levels, (Fault.publish error).Nests levels none → ∃ outer last, levels = outer ++ [last] ∧
      last.cause.fault? = none ∧ (error.chain own).length = 3 * outer.length + 2 ∧
        error.chain own = outer.flatMap ListenerFailure.entries ++ [.failure last, .error last.cause]) ∧
    ∀ (l : Loop) (t q : Nat), r.Loops l t q → (∀ u, r.Meanwhile t q u → l.Prints (r.session u)) →
      (∀ u, (r.session u).Resolved q → ∃ error levels, (r.session u).Yields q (.error error) ∧
        (Fault.publish error).Nests levels (some (.publish (.depthExceeded l.limit.toNat l.limit.toNat))) ∧
        levels.length = l.limit.toNat ∧ (error.chain own).length = 3 * l.limit.toNat ∧
        (error.chain own).getLast? = some (.fault (.publish (.depthExceeded l.limit.toNat l.limit.toNat))) ∧
        (r.progeny q).Finite ∧ (r.progeny q).ncard = l.limit.toNat ∧ ∀ a ∈ r.progeny q, r.Calls l a) ∧
      (r.Fair → (l.subscription.callback.threadSafe ∨
          ∀ u b j, t < u → r.invocation? u b = some j → j.caller = l.caller → b ∈ r.progeny q) →
        ∃ u, (r.session u).Resolved q) := by
  refine ⟨?_, ?_, ?_, ?_⟩
  · intro error
    exact ⟨error.text_chain, error.exists_nests⟩
  · intro error levels leaf hnests
    have hchain := hnests.chain_eq own
    have hlength := hnests.length_chain own
    rw [Fault.chain] at hchain hlength
    exact ⟨hchain, hlength⟩
  · intro error levels hnests
    obtain ⟨outer, last, hlevels, hnone, hends⟩ := hnests.chain_of_ended
    have hown := hends own
    rw [Fault.chain] at hown
    exact ⟨outer, last, hlevels, hnone, hown⟩
  · intro l t q hloops hprints
    refine ⟨?_, hloops.resolves hprints⟩
    intro u hresolved
    obtain ⟨error, levels, hyields, hnests, hlevels, hcalls⟩ := hloops.unwinds hprints hresolved
    have hnothing : (Fault.publish (.depthExceeded l.limit.toNat l.limit.toNat)).chain own = [] := by
      rw [Fault.chain, PublishError.chain]
    have hsome : levels ≠ [] := by
      have := hloops.limited
      exact List.ne_nil_of_length_pos (by omega)
    have hlength := hnests.length_chain own
    have hlast := hnests.getLast?_chain hsome hnothing
    rw [hnothing, hlevels, Fault.chain] at hlength
    rw [Fault.chain] at hlast
    exact ⟨error, levels, hyields, hnests, hlevels, hlength, hlast, hcalls⟩

/-- Replies with a publish of the class. -/
private def republishing (unprintable : Bool) : Script Command :=
  .leaf ⟨[], none, .publish "bus" .defer (.fresh (.simple 0) (.fixed 1) "" unprintable)⟩

/-- An object republishes on a bus with a limit, and takes these steps. -/
private def looping (limit : UInt64) (unprintable : Bool) (steps : List Nat) : Run :=
  .scripted false ([.perform (.openBus "bus" .default [.maxPublishDepth (some limit)]),
    .perform (.object "again" "Again" false (republishing unprintable) []),
    .perform (.subscribe "bus" "again" (.shared (.simple 0)) none),
    .perform (.start "call" ⟨"bus", .held, ⟨.simple 0, 1, "", unprintable⟩⟩)] ++ steps.map .step)

private def again (limit : UInt64) (unprintable : Bool) : Loop where
  bus := 1
  names := {"bus"}
  limit := limit
  subscription := ⟨1, .named (.simple 0), ⟨2, "Again@", "on_event", false, .concrete (.simple 0), 2,
    (republishing unprintable).listener ⟨"again", Callback.defaultName, true⟩⟩⟩
  messages := {.recipe ⟨.simple 0, 1, "", unprintable⟩}

private theorem closes_again {limit : UInt64} {unprintable : Bool} {s : Session} {b : Bus} {k : Resolution}
    {matcher : Matcher} (hb : s.buses.get? 1 = some b) (hname : s.bus? "bus" = some b) (hopen : b.isOpen)
    (hlimit : b.config.maxPublishDepth = some limit)
    (hkeys : b.matcher.keysFor s.hierarchy.declared (.simple 0) = .ok (k, matcher))
    (hlookup : b.registry.lookup k = [((again limit unprintable).subscription, some (.own (.simple 0)))]) :
    (again limit unprintable).Closes s := by
  refine ⟨b, hb, ?_, hopen, hlimit, ?_⟩
  · rintro _ rfl
    exact hname
  · rintro _ rfl
    exact ⟨k, matcher, _, hkeys, hlookup, _, rfl, fun _ => ⟨rfl, rfl, fun _ => rfl⟩⟩

private theorem closes_of_scripted {tracing : Bool} {cues : List Cue} (hn : n ≤ cues.length)
    (hsoon : ∀ u ≥ n, u ≤ cues.length → l.Closes ((scripted tracing cues).session u)) (hu : n ≤ u) :
    l.Closes ((scripted tracing cues).session u) := by
  rcases Nat.le_total u cues.length with hle | hge
  · exact hsoon u hu hle
  · rw [session_scripted hge]
    exact hsoon cues.length hn (Nat.le_refl _)

/-- The limit allows for two calls. -/
private def renewing : Run :=
  looping 2 false [5, 5, 5, 5, 7, 7, 7, 7, 7, 7, 5, 5]

private theorem loops_renewing : renewing.Loops (again 2 false) 3 4 where
  limited := by decide
  begins := ⟨⟨"bus", .held, ⟨.simple 0, 1, "", false⟩⟩, _, rfl, rfl, rfl, .rest ..⟩
  closes u hu := by
    refine closes_of_scripted (by decide) (fun u hfrom hto => ?_) hu.1
    change u ≤ 16 at hto
    interval_cases u <;> exact closes_again rfl rfl rfl rfl rfl rfl

private theorem prints_again (limit : UInt64) (s : Session) : (again limit false).Prints s := by
  rintro _ rfl
  exact ⟨_, rfl⟩

private theorem fair_of_scripted {tracing : Bool} {cues : List Cue}
    (hgone : ∀ a, (scripted tracing cues).invocation? cues.length a = none) : (scripted tracing cues).Fair := by
  intro t a hable
  have hnone : ((scripted tracing cues).session (max t cues.length)).invocations.get? a = none := by
    rw [session_scripted (Nat.le_max_right ..)]
    exact hgone a
  exact absurd (by simp [Session.step, hnone]) (hable (max t cues.length) (Nat.le_max_left ..))

private theorem progeny_renewing {a : Nat} (hi : renewing.invocation? u a = some i) : a ∈ renewing.progeny 4 := by
  have honly : ((renewing.session u).invocations.entries.all fun e => e.1 = 5 || e.1 = 7) = true :=
    forall_scripted (P := fun s => (s.invocations.entries.all fun e => e.1 = 5 || e.1 = 7) = true)
      (by decide +kernel) u
  have hfirst : 5 ∈ renewing.progeny 4 := invocationsOf_subset_progeny renewing 4 ⟨4, _, rfl, rfl⟩
  have hcase := List.all_eq_true.1 honly _ (Table.mem_entries_of_get? hi)
  simp only [Bool.or_eq_true, decide_eq_true_eq] at hcase
  rcases hcase with rfl | rfl
  · exact hfirst
  · exact mem_progeny_of_causes hfirst ⟨6, rfl, rfl, rfl⟩

private def failedFor (cause : ListenerError) : PublishError :=
  .listenersFailed (.mk "P0(1)" (.named (.simple 0)) "Again@" "on_event" cause) []

private def twoBelow (_ : String) : List String :=
  ["inner", "innermost"]

theorem two_calls_unwind :
    ((failedFor (.failed (.plain "outer"))).chain twoBelow).length = 3 * 1 + 2 ∧
    ((failedFor (.crashed "gave up")).chain twoBelow).length = 2 ∧
    (∃ u, (renewing.session u).Resolved 4) ∧
    ∃ error : PublishError, (renewing.session 16).Yields 4 (.error error) ∧ (error.chain twoBelow).length = 6 ∧
      (renewing.progeny 4).ncard = 2 := by
  obtain ⟨-, hends, hcrashes, hloops⟩ := root_cause_is_reachable renewing twoBelow
  obtain ⟨hfails, hresolves⟩ := hloops (again 2 false) 3 4 loops_renewing fun u _ => prints_again 2 _
  refine ⟨?_, ?_, hresolves (fair_of_scripted fun _ => rfl) (Or.inr fun u a i _ hi _ => progeny_renewing hi), ?_⟩
  · have hnests : (Fault.publish (failedFor (.failed (.plain "outer")))).Nests [_] (some (.plain "outer")) :=
      .level rfl (.leaf rfl)
    rw [(hends _ _ _ hnests).2, Fault.chain]
    rfl
  · have hnests : (Fault.publish (failedFor (.crashed "gave up"))).Nests [_] none := .ended rfl
    obtain ⟨outer, last, hlevels, -, hlength, -⟩ := hcrashes _ _ hnests
    obtain rfl : outer = [] := by simpa using congrArg List.length hlevels
    exact hlength
  · obtain ⟨error, levels, hyields, -, -, hlength, -, -, hncard, -⟩ := hfails 16 ⟨_, rfl, rfl⟩
    exact ⟨error, hyields, hlength, hncard⟩

/-- The limit allows for one call, and the event cannot be rendered. -/
private def losing : Run :=
  looping 1 true [5, 5, 5, 5, 5, 5]

private theorem loops_losing : losing.Loops (again 1 true) 3 4 where
  limited := by decide
  begins := ⟨⟨"bus", .held, ⟨.simple 0, 1, "", true⟩⟩, _, rfl, rfl, rfl, .rest ..⟩
  closes u hu := by
    refine closes_of_scripted (by decide) (fun u hfrom hto => ?_) hu.1
    change u ≤ 10 at hto
    interval_cases u <;> exact closes_again rfl rfl rfl rfl rfl rfl

/-- Then the failure is lost when it is to be recorded, and with it the error that it began with. -/
theorem unrendered_root_cause_is_lost : ¬ ∀ (r : Run) (l : Loop) (t q : Nat), r.Loops l t q →
    ∀ u error, (r.session u).Yields q (.error error) → ∃ levels,
      (Fault.publish error).Nests levels (some (.publish (.depthExceeded l.limit.toNat l.limit.toNat))) ∧
        levels.length = l.limit.toNat := by
  intro hall
  obtain ⟨levels, hnests, -⟩ :=
    hall losing (again 1 true) 3 4 loops_losing 10 (.interrupted 1) ⟨_, rfl, rfl⟩
  cases hnests

end PubSub.Run
