import Mathlib.Data.List.Perm.Subperm
import PubSub.Proofs.Runs.Serialization

/-!
# Overlapping calls of one listener

Turns are taken by subscription. A listener that is subscribed in several ways, to one bus or to several, may therefore
be called as many times at once, also if it is not thread-safe.
-/

namespace PubSub

namespace Session

variable {s s' : Session} {ctx : Context}

def Lists (s : Session) (bus : Nat) (sub : Subscription) : Prop :=
  ∃ b k, s.buses.get? bus = some b ∧ sub ∈ b.registry.row k

section Listing

variable {bus : Nat} {sub : Subscription} {a id : Nat} {i j : Invocation}

private theorem Lists.of_buses (h : s.Lists bus sub) (hbuses : s'.buses = s.buses) : s'.Lists bus sub := by
  obtain ⟨b, k, hb, hrow⟩ := h
  exact ⟨b, k, by rw [hbuses, hb], hrow⟩

private theorem Lists.publishes {publication : Nat} (h : s.Lists bus sub) (hp : s.Publishes ctx s' publication) :
    s'.Lists bus sub := by
  cases hp with
  | refused => exact h
  | @planned b₀ e d s₁ hb₀ hd haside =>
    have hlists : s₁.Lists bus sub := by
      obtain ⟨b, k, hb, hrow⟩ := h
      by_cases hid : bus = b₀.id
      · subst hid
        obtain rfl := Option.some.inj (hb₀.symm.trans hb)
        refine ⟨{ b₀ with matcher := d.matcher }, k, ?_, hrow⟩
        rw [haside.buses]
        exact (Table.get?_put ..).trans (if_pos rfl)
      · refine ⟨b, k, ?_, hrow⟩
        rw [haside.buses, ← hb]
        exact (Table.get?_put ..).trans (if_neg hid)
    cases hplan : d.plan with
    | refused error => exact hlists
    | scheduled event targets => exact hlists.of_buses (schedule_frame ..).1

private theorem Lists.progress (h : s.Lists bus sub) (hp : Progress id s s') : s'.Lists bus sub := by
  cases hp with
  | parked | called | wentOn | left | awaited => exact h
  | published _ _ hpublishes =>
    have hafter := h.publishes hpublishes
    exact hafter
  | finished => exact h.of_buses (finish_frame ..).2.2.1

private theorem lists_of_publishes {publication : Nat} (hs : s.Proper) (h : s.Publishes ctx s' publication)
    (hnew : s.invocations.get? a = none) (hj : s'.invocations.get? a = some j) : s'.Lists j.bus j.subscription := by
  have hlists : s.Lists j.bus j.subscription := by
    rcases (Carries.publishes hs h).invocation a j hj with ⟨i, hi, -⟩ | ⟨-, -, -, -, b, k, hb, hrow⟩
    · cases hnew.symm.trans hi
    · exact ⟨b, k, hb, hrow⟩
  exact hlists.publishes h

private theorem none_of_effects (h : Effects s s') (hnew : s.invocations.get? a = none) :
    s'.invocations.get? a = none := by
  induction h with
  | refl => exact hnew
  | tail _ h ih =>
    rw [Option.eq_none_iff_forall_ne_some] at ih ⊢
    intro j hj
    exact ih j (invocation_of_effect h hj)

private theorem lists_of_acts (hs : s.Proper) (h : s.Acts ctx s') (hnew : s.invocations.get? a = none)
    (hj : s'.invocations.get? a = some j) : s'.Lists j.bus j.subscription := by
  cases h with
  | calmly h => cases (none_of_effects h hnew).symm.trans hj
  | publishing h haside =>
    rw [haside.invocations] at hj
    exact (lists_of_publishes hs h hnew hj).of_buses haside.buses

private theorem lists_of_progress (hs : s.Proper) (h : Progress id s s') (hnew : s.invocations.get? a = none)
    (hj : s'.invocations.get? a = some j) : s'.Lists j.bus j.subscription := by
  have hne : a ≠ id := by
    obtain ⟨i, hi⟩ := h.exists_invocation
    intro hid
    cases hnew.symm.trans (hid ▸ hi)
  have hother {s₁ : Session} {i₁ : Invocation} (h : (s₁.putInvocation id i₁).invocations.get? a = some j) :
      s₁.invocations.get? a = some j := by
    rw [← h, putInvocation, Table.get?_put, if_neg hne]
  cases h with
  | parked | called | wentOn | left | awaited => cases hnew.symm.trans (hother hj)
  | published _ _ hpublishes =>
    have hafter := lists_of_publishes hs hpublishes hnew (hother hj)
    exact hafter
  | finished => cases hnew.symm.trans (invocation_of_finish hj)

private theorem none_of_kept (hs : s.Proper) (h : Progress id s s') (hkept : s'.publications = s.publications)
    (hnew : s.invocations.get? a = none) : s'.invocations.get? a = none := by
  cases hj : s'.invocations.get? a with
  | none => rfl
  | some j =>
    obtain ⟨i, hi⟩ := h.exists_invocation
    rcases (Carries.progress hs hi h).invocation a j hj with ⟨i₀, hi₀, -⟩ | ⟨-, hpub, -⟩
    · cases hnew.symm.trans hi₀
    · -- the publication of someone new is new
      obtain ⟨p, hp⟩ := (hs.progress h).belongs a j hj
      have := hs.publication j.publication p (hkept ▸ hp)
      omega

private theorem lists_of_stepsTo (hs : s.Proper) (h : s.StepsTo id i s') (hnew : s.invocations.get? a = none)
    (hj : s'.invocations.get? a = some j) : s'.Lists j.bus j.subscription := by
  cases h with
  | @wentOn s₁ _ _ hacts hi₁ hp _ =>
    cases hj₁ : s₁.invocations.get? a with
    | none => exact lists_of_progress (hs.acts hacts) hp hj₁ hj
    | some j₁ =>
      have hlists := (lists_of_acts hs hacts hnew hj₁).progress hp
      have hs₁ := hs.acts hacts
      rcases (Carries.progress hs₁ hi₁ hp).invocation a j hj with ⟨j₀, hj₀, stage, parked, rfl⟩ | ⟨hlt, -⟩
      · obtain rfl := Option.some.inj (hj₁.symm.trans hj₀)
        exact hlists
      · have := hs₁.issued a j₁ hj₁
        omega
  | ended _ _ heffects _ => cases (none_of_effects heffects hnew).symm.trans (invocation_of_finish hj)
  | interrupted _ heffects _ hp hkept hleave _ _ =>
    have hnone := none_of_kept (hs.effects heffects) hp hkept (none_of_effects heffects hnew)
    cases (none_of_effects hleave hnone).symm.trans (invocation_of_finish hj)

end Listing

end Session

namespace Run

variable {r : Run} {t listener a b : Nat} {i j : Invocation}

/-- The bus has had the subscription at some moment so far. -/
def Listed (r : Run) (t bus : Nat) (sub : Subscription) : Prop :=
  ∃ t' ≤ t, (r.session t').Lists bus sub

theorem listed_of_invocation (hj : r.invocation? t a = some j) : r.Listed t j.bus j.subscription := by
  induction t generalizing j with
  | zero =>
    obtain ⟨tracing, hstart⟩ := r.start
    rw [invocation?, hstart] at hj
    cases hj
  | succ t ih =>
    cases hbefore : r.invocation? t a with
    | some j₀ =>
      obtain ⟨stage, parked, rfl⟩ := continues hbefore hj
      obtain ⟨t', hle, hlists⟩ := ih hbefore
      exact ⟨t', Nat.le_succ_of_le hle, hlists⟩
    | none =>
      refine ⟨t + 1, Nat.le_refl _, ?_⟩
      rcases r.cases_next t with hacts | ⟨id, i, -, -, hsteps⟩
      · exact Session.lists_of_acts (r.proper t) hacts hbefore hj
      · exact Session.lists_of_stepsTo (r.proper t) hsteps hbefore hj

/-- A publish that the listener made, or one that came of it, brought the invocation about. -/
def Prompts (r : Run) (listener a : Nat) : Prop :=
  ∃ b t j, r.invocation? t b = some j ∧ j.subscription.callback.identity = listener ∧ r.BringsAbout b a

/-- The listener is in this call, is not thread-safe, and has not prompted the call itself. Nor does the call pass for one
that the own subscription brought about. -/
structure Engages (r : Run) (t listener a : Nat) (i : Invocation) : Prop where
  invocation : r.invocation? t a = some i
  callee : i.subscription.callback.identity = listener
  serial : i.subscription.callback.threadSafe = false
  calling : i.isCalling
  unprompted : ¬ r.Prompts listener a
  settled : ¬ r.Inherits a i

theorem eq_of_engages (hi : r.Engages t listener a i) (hj : r.Engages t listener b j) (hcaller : i.caller = j.caller) :
    a = b := by
  have hsub := subscription_eq_of_caller hi.invocation hj.invocation hcaller
  by_contra hne
  have hnot {id : Nat} {k : Invocation} (hk : r.Engages t listener id k) : ¬ r.Exempt id k := by
    rintro (hsafe | ⟨a', t', i', -, hi', -, hsame, habout⟩ | hinherits)
    · cases hk.serial.symm.trans hsafe
    · exact hk.unprompted ⟨a', t', i', hi', hsame ▸ hk.callee, habout⟩
    · exact hk.settled hinherits
  rcases exempt_of_overlap hi.invocation hj.invocation hne (Caller.mk.inj hcaller).1.symm hsub.symm hi.calling
    hj.calling with hexempt | hexempt
  · exact hnot hi hexempt
  · exact hnot hj hexempt

/-- At any moment of any run: a listener that is not thread-safe is called at most as many times at once as it has had
subscriptions, not counting calls that its own publishes brought about, or that pass for those of a subscription that is
gone. So if it has been subscribed once, to one bus and under one key, no two such calls overlap. -/
theorem engaged_once_by_each_subscription (r : Run) (t listener : Nat) :
    (∀ caller : Caller,
      (∀ bus sub, r.Listed t bus sub → sub.callback.identity = listener → ⟨bus, sub.id⟩ = caller) →
      ∀ a b i j, r.Engages t listener a i → r.Engages t listener b j → a = b) ∧
    ∀ callers : List Caller,
      (∀ bus sub, r.Listed t bus sub → sub.callback.identity = listener → ⟨bus, sub.id⟩ ∈ callers) →
      ∀ calls : List Nat, calls.Nodup → (∀ a ∈ calls, ∃ i, r.Engages t listener a i) →
        calls.length ≤ callers.length := by
  have hcaller {a : Nat} {i : Invocation} (hi : r.Engages t listener a i) : r.Listed t i.bus i.subscription :=
    listed_of_invocation hi.invocation
  refine ⟨?_, ?_⟩
  · intro caller honce a b i j hi hj
    refine eq_of_engages hi hj ?_
    exact (honce _ _ (hcaller hi) hi.callee).trans (honce _ _ (hcaller hj) hj.callee).symm
  · intro callers hall calls hcalls hengaged
    have hnodup : (calls.map fun a => (r.invocation? t a).map Invocation.caller).Nodup := by
      refine hcalls.map_on ?_
      intro a ha b hb hsame
      obtain ⟨i, hi⟩ := hengaged a ha
      obtain ⟨j, hj⟩ := hengaged b hb
      rw [hi.invocation, hj.invocation] at hsame
      exact eq_of_engages hi hj (Option.some.inj hsame)
    have hsubset : (calls.map fun a => (r.invocation? t a).map Invocation.caller) ⊆ callers.map some := by
      intro c hc
      obtain ⟨a, ha, rfl⟩ := List.mem_map.1 hc
      obtain ⟨i, hi⟩ := hengaged a ha
      rw [hi.invocation]
      exact List.mem_map_of_mem (hall _ _ (hcaller hi) hi.callee)
    have hlength := (List.subperm_of_subset hnodup hsubset).length_le
    rwa [List.length_map, List.length_map] at hlength

private theorem alone_of_outermost (listener : Nat) (hi : r.invocation? t a = some i)
    (horigin : i.origin.callers = []) :
    ¬ r.Prompts listener a ∧ ¬ r.Inherits a i := by
  have hnobody {b t' : Nat} {j : Invocation} (hj : r.invocation? t' b = some j) (habout : r.BringsAbout b a) :
      False := by
    have hmem := (mem_callers_iff hi j.address).2 ⟨b, t', j, habout, hj, rfl⟩
    rw [horigin] at hmem
    cases hmem
  constructor
  · rintro ⟨b, t', j, hj, -, habout⟩
    exact hnobody hj habout
  · rintro ⟨b, t', j, habout, hj, -⟩
    exact hnobody hj habout

/-- All subscriptions that the buses have at the moment are of this caller. -/
private def soleCaller (s : Session) (caller : Caller) : Bool :=
  s.buses.entries.all fun b => b.2.registry.rows.entries.all fun row => row.2.all fun sub =>
    ⟨b.1, sub.id⟩ = caller

private theorem caller_of_lists {s : Session} {caller : Caller} (h : soleCaller s caller) {bus : Nat}
    {sub : Subscription} (hlists : s.Lists bus sub) : ⟨bus, sub.id⟩ = caller := by
  obtain ⟨b, k, hb, hrow⟩ := hlists
  simp only [soleCaller, List.all_eq_true, decide_eq_true_eq] at h
  cases hget : b.registry.rows.get? k with
  | none =>
    rw [Registry.row, hget] at hrow
    cases hrow
  | some row =>
    rw [Registry.row, hget] at hrow
    exact h (bus, b) (Table.mem_entries_of_get? hb) (k, row) (Table.mem_entries_of_get? hget) sub hrow

/-- In the echo the listener is called twice at once, and it has prompted one of the calls. -/
theorem echo_engages_once : ∃ i j, echo.Engages 8 2 5 i ∧ echo.invocation? 8 7 = some j ∧ j.isCalling ∧
    ∀ a i', echo.Engages 8 2 a i' → a = 5 := by
  have hengaged : ∃ i, echo.Engages 8 2 5 i := by
    obtain ⟨hunprompted, hsettled⟩ := alone_of_outermost (r := echo) (t := 8) (a := 5) 2 rfl rfl
    exact ⟨_, rfl, rfl, rfl, rfl, hunprompted, hsettled⟩
  have hsole : ∀ t' ≤ 8, soleCaller (echo.session t') ⟨1, 1⟩ := by decide
  obtain ⟨i, hi⟩ := hengaged
  refine ⟨i, _, hi, rfl, rfl, ?_⟩
  intro a i' hi'
  refine (engaged_once_by_each_subscription echo 8 2).1 ⟨1, 1⟩ ?_ a 5 i' i hi' hi
  rintro bus sub ⟨t', hle, hlists⟩ -
  exact caller_of_lists (hsole t' hle) hlists

/-- A listener that is not thread-safe is subscribed to two classes, and both are published at once. -/
private def crossed : Run :=
  .scripted false [.perform (.openBus "bus" .default []), .perform (.object "a" "A" false .idle []),
    .perform (.subscribe "bus" "a" (.shared (.simple 0)) none),
    .perform (.subscribe "bus" "a" (.shared (.simple 1)) none),
    .perform (.start "f" ⟨"bus", .held, ⟨.simple 0, 0, "", false⟩⟩),
    .perform (.start "g" ⟨"bus", .held, ⟨.simple 1, 0, "", false⟩⟩), .step 6, .step 8]

/-- Then it is called twice at once. -/
theorem crossed_engages_twice : ¬ ∀ (r : Run) (t listener a b : Nat) (i j : Invocation),
    r.Engages t listener a i → r.Engages t listener b j → a = b := by
  intro halone
  have hfirst : ∃ i, crossed.Engages 8 2 6 i := by
    obtain ⟨hunprompted, hsettled⟩ := alone_of_outermost (r := crossed) (t := 8) (a := 6) 2 rfl rfl
    exact ⟨_, rfl, rfl, rfl, rfl, hunprompted, hsettled⟩
  have hsecond : ∃ j, crossed.Engages 8 2 8 j := by
    obtain ⟨hunprompted, hsettled⟩ := alone_of_outermost (r := crossed) (t := 8) (a := 8) 2 rfl rfl
    exact ⟨_, rfl, rfl, rfl, rfl, hunprompted, hsettled⟩
  obtain ⟨i, hi⟩ := hfirst
  obtain ⟨j, hj⟩ := hsecond
  exact absurd (halone crossed 8 2 6 8 i j hi hj) (by decide)

end Run
end PubSub
