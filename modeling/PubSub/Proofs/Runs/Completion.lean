import PubSub.Proofs.Runs.Basic

/-!
# Completion

A publish is resolved after all of its invocations have ended, whatever comes of the first ones. Who awaits another
publish goes on after that is resolved, so a publish that is resolved leaves nothing behind that it waited for.
-/

namespace PubSub

theorem Publication.Continues.result?_isSome {p p' : Publication} (h : p.Continues p') (hp : p.result?.isSome) :
    p'.result?.isSome := by
  obtain ⟨hrefusal, hscheduled, houtcomes⟩ := h
  have hlength := houtcomes.length_le
  simp only [result?] at hp ⊢
  rw [hrefusal]
  cases hr : p.refusal with
  | some e => rfl
  | none =>
    simp only [hr] at hp ⊢
    split at hp
    · cases hp
    · rw [if_neg (by omega)]
      rfl

namespace Session

variable {s s' : Session} {a q : Nat}

def Resolved (s : Session) (q : Nat) : Prop :=
  ∃ p, s.publications.get? q = some p ∧ p.result?.isSome

/-- The invocation still awaits the publication, or it is gone, or it does not have to wait any more. -/
inductive Abides (s : Session) (a q : Nat) : Prop
  | awaiting {i : Invocation} {next : Except PublishError Delivery → Behaviour} (hi : s.invocations.get? a = some i)
      (hrest : i.rest? = some (.await q next)) : Abides s a q
  | gone (h : s.invocations.get? a = none) : Abides s a q
  | resolved (h : s.Resolved q) : Abides s a q

private theorem abides_of_progress {i : Invocation} {next : Except PublishError Delivery → Behaviour}
    (hi : s.invocations.get? a = some i) (hrest : i.rest? = some (.await q next)) (h : Progress a s s') :
    s'.Abides a q := by
  cases h with
  | parked hi' _ =>
    obtain rfl := Option.some.inj (hi.symm.trans hi')
    exact .awaiting (get?_putInvocation ..) ((i.rest?_park _).trans hrest)
  | called hi' hrest' _ _ | left hi' hrest' | published hi' hrest' _ =>
    obtain rfl := Option.some.inj (hi.symm.trans hi')
    cases hrest.symm.trans hrest'
  | wentOn hi' hrest' hfollows =>
    obtain rfl := Option.some.inj (hi.symm.trans hi')
    obtain rfl := Option.some.inj (hrest.symm.trans hrest')
    cases hfollows
  | awaited hi' hrest' hp hresult =>
    obtain rfl := Option.some.inj (hi.symm.trans hi')
    cases hrest.symm.trans hrest'
    exact .resolved ⟨_, hp, by simp [hresult]⟩
  | finished hi' o =>
    apply Abides.gone
    exact get?_finish ..

theorem Abides.move (hs : s.Proper) (ha : a ≤ s.issued) (h : s.Abides a q) (hm : Move s s') : s'.Abides a q := by
  obtain ⟨ctx, hcarries⟩ := Carries.move hs hm
  cases h with
  | resolved h =>
    obtain ⟨p, hp, hresult⟩ := h
    obtain ⟨p', hp', hc⟩ := hcarries.publication q p hp
    exact .resolved ⟨p', hp', hc.result?_isSome hresult⟩
  | gone h =>
    cases hi' : s'.invocations.get? a with
    | none => exact .gone hi'
    | some i' =>
      rcases hcarries.invocation a i' hi' with ⟨i, hi, -⟩ | ⟨hnew, -⟩
      · cases h.symm.trans hi
      · omega
  | awaiting hi hrest =>
    have hsame (hframe : ∀ i', s'.invocations.get? a = some i' →
        s.invocations.get? a = some i' ∨ (s.issued < a ∧ i'.stage = .fresh)) : s'.Abides a q := by
      cases hi' : s'.invocations.get? a with
      | none => exact .gone hi'
      | some i' =>
        rcases hframe i' hi' with hold | ⟨hnew, -⟩
        · obtain rfl := Option.some.inj (hi.symm.trans hold)
          exact .awaiting hi' hrest
        · omega
    cases hm with
    | effect he => exact hsame fun _ hi' => Or.inl (invocation_of_effect he hi')
    | publish hp => exact hsame fun _ => (publishing_of_publishes hs hp).invocation
    | progress id hp =>
      by_cases hid : a = id
      · subst hid
        exact abides_of_progress hi hrest hp
      · exact hsame fun _ => invocation_of_progress hs hp hid

theorem Abides.moves (hs : s.Proper) (ha : a ≤ s.issued) (h : s.Abides a q) (hm : Moves s s') : s'.Abides a q := by
  induction hm with
  | refl => exact h
  | tail hprior hm ih =>
    have hissued := (Extends.moves hs hprior).issued
    exact ih.move (hs.moves hprior) (Nat.le_trans ha hissued) hm

end Session

namespace Run

variable {r : Run} {t t' a q q' : Nat}

/-- The invocation ends by a step of its own: it replies, fails, or gives up. -/
def Completes (r : Run) (t a : Nat) : Prop :=
  ∃ i, r.invocation? t a = some i ∧ (r.session t).proceed a i = some (r.session (t + 1)) ∧
    r.invocation? (t + 1) a = none

/-- An invocation of the one publish has awaited the other, in its callback or for its late reply, and has ended by a
step of its own before the given moment. -/
def RestsOn (r : Run) (t q q' : Nat) : Prop :=
  ∃ a i next t₀ t₁, t₀ ≤ t₁ ∧ t₁ < t ∧ r.invocation? t₀ a = some i ∧ i.publication = q ∧
    i.rest? = some (.await q' next) ∧ r.Completes t₁ a

theorem resolved_of_le (h : t ≤ t') (hq : (r.session t).Resolved q) : (r.session t').Resolved q := by
  obtain ⟨p, hp, hresult⟩ := hq
  obtain ⟨p', hp', hc⟩ := publication?_of_le h hp
  exact ⟨p', hp', hc.result?_isSome hresult⟩

private theorem resolved_of_completes {i : Invocation} {next : Except PublishError Delivery → Behaviour} (h : t ≤ t')
    (hi : r.invocation? t a = some i) (hrest : i.rest? = some (.await q next)) (hcompletes : r.Completes t' a) :
    (r.session t').Resolved q := by
  obtain ⟨i', hi', hproceeds, hgone⟩ := hcompletes
  have habides : (r.session t).Abides a q := .awaiting hi hrest
  cases habides.moves (r.proper t) (issued_of_invocation? hi) (moves_of_le h) with
  | resolved hresolved => exact hresolved
  | gone hnone => cases hi'.symm.trans hnone
  | awaiting hi'' hrest' =>
    obtain rfl := Option.some.inj (hi'.symm.trans hi'')
    simp only [Session.proceed, hrest', Session.advance, Option.bind_eq_bind] at hproceeds
    obtain ⟨p, hp, hproceeds⟩ := Option.bind_eq_some_iff.1 hproceeds
    obtain ⟨result, hresult, -⟩ := Option.bind_eq_some_iff.1 hproceeds
    exact ⟨p, hp, by simp [hresult]⟩

private theorem RestsOn.resolved (h : r.RestsOn t q q') : (r.session t).Resolved q' := by
  obtain ⟨a, i, next, t₀, t₁, hle, hlt, hi, -, hrest, hcompletes⟩ := h
  exact resolved_of_le (Nat.le_of_lt hlt) (resolved_of_completes hle hi hrest hcompletes)

theorem ended_of_resolved (hq : (r.session t).Resolved q) :
    (∀ a i t₀, r.invocation? t₀ a = some i → i.publication = q → t₀ < t ∧ ∀ t' ≥ t, r.invocation? t' a = none) ∧
      ∃ p, r.publication? t q = some p ∧ p.result?.isSome ∧ p.outcomes.length = p.scheduled := by
  obtain ⟨p, hp, hresult⟩ := hq
  have hnone {a t₀ : Nat} {i : Invocation} (hle : t ≤ t₀) (hi : r.invocation? t₀ a = some i) : i.publication ≠ q := by
    intro hpub
    obtain ⟨i₀, hi₀, hpub₀⟩ := invocation?_of_made hle hp hi hpub
    have hunresolved := (Session.unresolved_iff (r.proper t) (r.balanced t) hp).2 ⟨a, i₀, hi₀, hpub₀⟩
    simp [hunresolved] at hresult
  refine ⟨?_, p, hp, hresult, Session.outcomes_of_resolved (r.balanced t) hp hresult⟩
  intro a i t₀ hi hpub
  refine ⟨Nat.lt_of_not_le fun hle => hnone hle hi hpub, ?_⟩
  intro t' hle
  cases hi' : r.invocation? t' a with
  | none => rfl
  | some i' => exact absurd ((continues hi hi').publication.trans hpub) (hnone hle hi')

/-- In whatever way a program and its listeners go on: once a publish is resolved, all its invocations have ended and
stay so. If one of them awaited another publish, or replied with one, and was not interrupted, then that publish is
resolved as well, and all its invocations have ended; and so on to any depth. -/
theorem resolved_after_all_ended (r : Run) {t q : Nat} {p : Publication} (hp : r.publication? t q = some p)
    (hresult : p.result?.isSome) {q' : Nat} (h : Relation.ReflTransGen (r.RestsOn t) q q') :
    (∀ a i t₀, r.invocation? t₀ a = some i → i.publication = q' → t₀ < t ∧ ∀ t' ≥ t, r.invocation? t' a = none) ∧
      ∃ p', r.publication? t q' = some p' ∧ p'.result?.isSome ∧ p'.outcomes.length = p'.scheduled := by
  apply ended_of_resolved
  cases h with
  | refl => exact ⟨p, hp, hresult⟩
  | tail _ hrests => exact hrests.resolved

theorem echo_leaves_nothing : echo.RestsOn 12 4 6 ∧ (echo.invocation? 9 7).isSome ∧
    ∀ t ≥ 12, echo.invocation? t 7 = none := by
  have hrests : echo.RestsOn 12 4 6 :=
    ⟨5, _, _, 7, 11, by decide, by decide, rfl, rfl, rfl, _, rfl, rfl, rfl⟩
  have hended := (resolved_after_all_ended echo (t := 12) (q := 4) rfl rfl (.single hrests)).1
  exact ⟨hrests, rfl, (hended 7 _ 9 rfl rfl).2⟩

end Run
end PubSub
