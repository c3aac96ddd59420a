import PubSub.Proofs.Runs.Strides
import PubSub.Proofs.Session.Depth

/-!
# Ancestors

Each invocation comes from a publish of the program by way of one line of invocations, each of which makes the next. The
callers that an invocation knows are the addresses of the subscriptions along this line, one for each level of depth.
They stay the same for as long as the invocation lives, but an address on the line may have become that of another
subscription in the meantime.
-/

namespace PubSub

theorem Bus.event_of_plan {b : Bus} {declared : Name → Except Crash Descriptor} {depth : Nat} {e event : Event}
    {d : Dispatch} {targets : List (Subscription × Option View)} (hd : b.publish declared depth e = .ok d)
    (hplan : d.plan = .scheduled event targets) : event = e ∨ event = .dead e := by
  cases decides_of_publish hd with
  | closed | tooDeep => cases hplan
  | heard | unheard => exact Or.inl (Plan.scheduled.inj hplan).1.symm
  | carried | uncarried => exact Or.inr (Plan.scheduled.inj hplan).1.symm

theorem Invocation.not_nears_self (i : Invocation) : ¬ i.Nears i := by
  intro h
  induction acc_nears i with
  | intro i _ ih => exact ih i h h

namespace Session

variable {s s' : Session} {ctx : Context} {b : Bus} {e : Event} {id new : Nat} {i j : Invocation}

theorem maker_stays (hs : s.Proper) (h : s.StepsTo id i s') (hnone : s.invocations.get? new = none)
    (hj : s'.invocations.get? new = some j) : ∃ i', s'.invocations.get? id = some i' := by
  have hkept {s₁ : Session} (heffects : Effects s s₁) {j : Invocation} : s₁.invocations.get? new ≠ some j := by
    intro hj₁
    cases hnone.symm.trans (invocation_of_effects heffects hj₁)
  cases h with
  | wentOn _ _ _ hi' => exact ⟨_, hi'⟩
  | ended _ _ heffects _ => exact absurd (invocation_of_finish hj) (hkept heffects)
  | interrupted _ heffects _ hp hpublications hleave _ _ =>
    have hs₁ := hs.effects heffects
    have hj₂ := invocation_of_effects hleave (invocation_of_finish hj)
    -- it would need a publication of its own, and none was opened
    obtain ⟨p, hp₂⟩ := (hs₁.move (.progress id hp)).belongs new j hj₂
    obtain ⟨_, hcarries⟩ := Carries.move hs₁ (.progress id hp)
    rcases hcarries.invocation new j hj₂ with ⟨j₁, hj₁, -⟩ | ⟨-, hnew, -⟩
    · exact absurd hj₁ (hkept heffects)
    · have := hs₁.publication _ p (hpublications ▸ hp₂)
      omega

theorem listener_of_step (hi : s.invocations.get? id = some i) (hrest : i.rest? = none) (h : s.step id = some s')
    (hj : s'.invocations.get? id = some j) {p : Behaviour} (hp : j.rest? = some p) :
    ∃ sight, p = i.subscription.callback.listener i.context.depth sight := by
  obtain ⟨i', hi', htakes⟩ := takes_of_step h
  obtain rfl := Option.some.inj (hi.symm.trans hi')
  cases htakes with
  | called =>
    simp only [call] at hj
    split at hj
    · cases (gone_conclude ..).symm.trans hj
    · cases (gone_conclude ..).symm.trans hj
    · obtain rfl := Option.some.inj ((get?_putInvocation ..).symm.trans hj)
      exact ⟨_, Option.some.inj (hp.symm.trans (i.rest?_goOn _))⟩
  | advanced hsome => cases hrest.symm.trans hsome
  | parked =>
    obtain rfl := Option.some.inj ((get?_putInvocation ..).symm.trans hj)
    cases ((i.rest?_park _).trans hrest).symm.trans hp
  | interrupted => cases (get?_finish ..).symm.trans hj

theorem invocation_of_publishOn (hs : s.Proper) (hb : s.buses.get? b.id = some b)
    (hpublish : s.publishOn ctx b e = (s', .ok new)) (hj : s'.invocations.get? id = some j)
    (hpub : j.publication = new) :
    (j.event = e ∨ j.event = .dead e) ∧ j.context = ⟨ctx.depth + 1, ctx.callers ++ [j.address]⟩ := by
  have hmade := publishing_of_publishOn hs hb hpublish
  have hnew := hmade.new_of_publication hs hj hpub
  refine ⟨?_, ?_⟩
  · have hput (m : Matcher) : (s.putBus { b with matcher := m }).Proper := hs.putBus (hs.bus _ _ hb).2
    have hnone : s.invocations.get? id = none := by
      cases hold : s.invocations.get? id with
      | none => rfl
      | some i => exact absurd (hs.issued id i hold) (Nat.not_le.2 hnew)
    simp only [publishOn] at hpublish
    split at hpublish
    · cases hpublish
    split at hpublish
    · cases hpublish
    rename_i d hd _ s₁ hannounced
    have haside := aside_announced hannounced
    obtain ⟨rfl, -⟩ := Prod.mk.inj hpublish
    have hnone₁ : s₁.invocations.get? id = none := haside.invocations ▸ hnone
    cases hplan : d.plan with
    | refused =>
      rw [hplan] at hj
      cases hnone₁.symm.trans hj
    | scheduled event targets =>
      rw [hplan, get?_schedule ((hput _).aside haside).issued] at hj
      split at hj
      · cases hnone₁.symm.trans hj
      · obtain ⟨target, -, rfl⟩ := Option.map_eq_some_iff.1 hj
        exact Bus.event_of_plan hd hplan
  · rw [Invocation.context, (hmade.invoked id j hj hnew).2.1]

end Session

namespace Run

variable {r : Run} {t t' a a' b : Nat} {as as' : List Nat} {i j : Invocation}

/-- An invocation is made at one moment only. -/
theorem made_once (hnone : r.invocation? t b = none) (hj : r.invocation? (t + 1) b = some i)
    (hnone' : r.invocation? t' b = none) (hj' : r.invocation? (t' + 1) b = some j) : t = t' := by
  have hle {u u' : Nat} {j j' : Invocation} (hj : r.invocation? (u + 1) b = some j)
      (hnone' : r.invocation? u' b = none) (hj' : r.invocation? (u' + 1) b = some j') : u' ≤ u := by
    by_contra hlt
    have hissued := Nat.le_trans (issued_of_invocation? hj) (extends_of_le (Nat.lt_of_not_le hlt)).issued
    cases hj'.symm.trans (gone_of_le (Nat.le_succ u') hissued hnone')
  exact Nat.le_antisymm (hle hj' hnone hj) (hle hj hnone' hj')

theorem Causes.unique (h : r.Causes a b) (h' : r.Causes a' b) : a = a' := by
  obtain ⟨t, hstep, hnone, hsome⟩ := h
  obtain ⟨t', hstep', hnone', hsome'⟩ := h'
  obtain ⟨j, hj⟩ := Option.isSome_iff_exists.1 hsome
  obtain ⟨j', hj'⟩ := Option.isSome_iff_exists.1 hsome'
  obtain rfl := made_once hnone hj hnone' hj'
  by_contra hne
  obtain ⟨i, hi, hsteps⟩ := Session.stepsTo_of_step (r.proper t) hstep
  obtain ⟨_, -, hsteps'⟩ := Session.stepsTo_of_step (r.proper t) hstep'
  obtain ⟨i', hi'⟩ := Session.maker_stays (r.proper t) hsteps hnone hj
  -- its own step gets the one on, and the step of the other would leave it as it is
  have hsame := Session.invocation_of_stepsTo (r.proper t) hsteps' hne (issued_of_invocation? hi) hi'
  obtain rfl := Option.some.inj (hi.symm.trans hsame)
  rcases Session.nears_of_step hi hstep with hgone | ⟨i', hi'', hnears⟩
  · cases hgone.symm.trans hi'
  · obtain rfl := Option.some.inj (hi'.symm.trans hi'')
    exact i.not_nears_self hnears

/-- No invocation makes it, so it comes from a publish of the program. -/
def Outermost (r : Run) (b : Nat) : Prop :=
  ∀ a, ¬ r.Causes a b

/-- The invocations from one that the program published down to the last, each made by the one before. -/
inductive Lineage (r : Run) : List Nat → Nat → Prop
  | outermost {b : Nat} (h : r.Outermost b) : Lineage r [b] b
  | caused {as : List Nat} {a b : Nat} (h : Lineage r as a) (hc : r.Causes a b) : Lineage r (as ++ [b]) b

/-- The subscription of the invocation has that address. -/
def WorksAt (r : Run) (a address : Nat) : Prop :=
  ∃ t i, r.invocation? t a = some i ∧ i.address = address

theorem outermost_iff (hj : r.invocation? t b = some j) : r.Outermost b ↔ j.origin = .outermost := by
  constructor
  · intro houtermost
    rcases published_or_caused hj with horigin | ⟨a, _, _, -, -, hcauses, -⟩
    · exact horigin
    · exact absurd hcauses (houtermost a)
  · intro horigin a hcauses
    obtain ⟨_, i, hi⟩ := hcauses.exists_maker
    have hdepth : j.origin.depth = i.context.depth := congrArg Context.depth (hcauses.origin hi hj)
    rw [horigin] at hdepth
    cases hdepth

theorem exists_lineage (hj : r.invocation? t b = some j) : ∃ as, r.Lineage as b := by
  induction t using Nat.strongRecOn generalizing b j with
  | _ t ih =>
    rcases published_or_caused hj with horigin | ⟨a, t', i, hlt, hi, hcauses, -⟩
    · exact ⟨[b], .outermost ((outermost_iff hj).2 horigin)⟩
    · obtain ⟨as, has⟩ := ih t' hlt hi
      exact ⟨as ++ [b], has.caused hcauses⟩

namespace Lineage

theorem unique (h : r.Lineage as b) (h' : r.Lineage as' b) : as = as' := by
  induction h generalizing as' with
  | outermost houtermost =>
    cases h' with
    | outermost => rfl
    | caused _ hcauses => exact absurd hcauses (houtermost _)
  | caused _ hcauses ih =>
    cases h' with
    | outermost houtermost => exact absurd hcauses (houtermost _)
    | caused hprior hcauses' =>
      obtain rfl := hcauses.unique hcauses'
      rw [ih hprior]

theorem mem_iff (h : r.Lineage as b) (a : Nat) : a ∈ as ↔ a = b ∨ r.BringsAbout a b := by
  induction h with
  | @outermost b houtermost =>
    have hnone : ¬ r.BringsAbout a b := by
      intro habout
      obtain ⟨c, -, hcauses⟩ := Relation.TransGen.tail'_iff.1 habout
      exact houtermost c hcauses
    rw [List.mem_singleton, or_iff_left hnone]
  | @caused as c b _ hcauses ih =>
    have hlast : r.BringsAbout a b ↔ a = c ∨ r.BringsAbout a c := by
      constructor
      · intro habout
        obtain ⟨c', hrest, hcauses'⟩ := Relation.TransGen.tail'_iff.1 habout
        obtain rfl := hcauses.unique hcauses'
        exact (Relation.reflTransGen_iff_eq_or_transGen.1 hrest).imp_left Eq.symm
      · rintro (rfl | habout)
        · exact .single hcauses
        · exact habout.tail hcauses
    rw [List.mem_append, List.mem_singleton, ih, hlast, or_comm]

theorem works (h : r.Lineage as b) (hj : r.invocation? t b = some j) :
    List.Forall₂ r.WorksAt as j.context.callers ∧ as.length = j.context.depth := by
  have hown {b t : Nat} {j : Invocation} (hj : r.invocation? t b = some j) : List.Forall₂ r.WorksAt [b] [j.address] :=
    .cons ⟨t, j, hj, rfl⟩ .nil
  induction h generalizing t j with
  | outermost houtermost =>
    have horigin := (outermost_iff hj).1 houtermost
    simpa only [Invocation.context, horigin] using ⟨hown hj, rfl⟩
  | caused _ hcauses ih =>
    obtain ⟨_, i, hi⟩ := hcauses.exists_maker
    obtain ⟨hworks, hdepth⟩ := ih hi
    rw [Invocation.context, hcauses.origin hi hj]
    refine ⟨List.rel_append hworks (hown hj), ?_⟩
    rw [List.length_append, hdepth]
    rfl

end Lineage

private theorem address_mem_callers_iff (hi : r.invocation? t b = some i) {c : Nat} {k : Invocation}
    (hk : r.invocation? t' c = some k) (hheld : r.LineHeld t' b) : k.address ∈ i.context.callers ↔
      ∃ a u j, (a = b ∨ r.BringsAbout a b) ∧ r.invocation? u a = some j ∧ j.bus = k.bus ∧
        j.subscription = k.subscription := by
  rw [mem_context_callers_iff hi]
  constructor
  · rintro ⟨a, u, j, hline, hj, haddress⟩
    have hcaller := caller_eq_of_address hj hk haddress (hheld a u j hline hj)
    exact ⟨a, u, j, hline, hj, (Caller.mk.inj hcaller).1, subscription_eq_of_caller hj hk hcaller⟩
  · rintro ⟨a, u, j, hline, hj, hbus, hsub⟩
    refine ⟨a, u, j, hline, hj, address_eq_of_caller hj hk ?_⟩
    simp only [Invocation.caller, hbus, hsub]

/-- At any moment of any run there is one line that leads from a publish of the program down to an invocation, and it
consists of the invocation and those that brought it about. Its callers are the addresses of the subscriptions along the
line, in the same order, so there are as many of them as it is deep. As long as no subscription of the line is gone, a
caller is the address of just these subscriptions. Line and callers stay the same while the invocation waits, is called
and owes its reply; the listener is told how many callers there are; and whatever comes of a publish by it, a dead event
included, has these callers, itself and one level more. -/
theorem callers_are_the_line (r : Run) (t b : Nat) (i : Invocation) (hi : r.invocation? t b = some i) :
    (∃ as, (∀ as', r.Lineage as' b ↔ as' = as) ∧ (∀ a, a ∈ as ↔ a = b ∨ r.BringsAbout a b) ∧
      List.Forall₂ r.WorksAt as i.context.callers) ∧
    i.context.callers.length = i.context.depth ∧
    (∀ c t' k, r.invocation? t' c = some k → r.LineHeld t' b → (k.address ∈ i.context.callers ↔
      ∃ a u j, (a = b ∨ r.BringsAbout a b) ∧ r.invocation? u a = some j ∧ j.bus = k.bus ∧
        j.subscription = k.subscription)) ∧
    (∀ t' i', r.invocation? t' b = some i' → i'.context = i.context) ∧
    (∀ i' p, i.rest? = none → r.invocation? (t + 1) b = some i' → i'.rest? = some p →
      ∃ sight, p = i.subscription.callback.listener i.context.callers.length sight) ∧
    (∀ c t' k, r.Causes b c → r.invocation? t' c = some k →
      k.context = ⟨i.context.depth + 1, i.context.callers ++ [k.address]⟩) ∧
    ∀ bus e s' q, (r.session t).buses.get? bus.id = some bus → (r.session t).publishOn i.context bus e = (s', .ok q) →
      ∀ c k, s'.invocations.get? c = some k → k.publication = q → (k.event = e ∨ k.event = .dead e) ∧
        k.context = ⟨i.context.depth + 1, i.context.callers ++ [k.address]⟩ := by
  obtain ⟨as, has⟩ := exists_lineage hi
  obtain ⟨hworks, hlength⟩ := has.works hi
  have hagree : i.context.callers.length = i.context.depth := hworks.length_eq.symm.trans hlength
  have hline (as' : List Nat) : r.Lineage as' b ↔ as' = as :=
    ⟨fun h => h.unique has, fun h => h ▸ has⟩
  refine ⟨⟨as, hline, has.mem_iff, hworks⟩, hagree, fun _ _ _ hk => address_mem_callers_iff hi hk,
    fun _ _ hi' => (continues hi hi').context, ?_, ?_, ?_⟩
  · intro i' p hrest hi' hp
    rw [hagree]
    rcases same_or_steps (issued_of_invocation? hi) hi' with hsame | hsteps
    · obtain rfl := Option.some.inj (hi.symm.trans hsame)
      cases hrest.symm.trans hp
    · exact Session.listener_of_step hi hrest hsteps hi' hp
  · intro c t' k hcauses hk
    rw [Invocation.context, hcauses.origin hi hk]
  · intro bus e s' q hb hpublish c k hk hpub
    exact Session.invocation_of_publishOn (r.proper t) hb hpublish hk hpub

/-- In the echo the second call knows of the first. -/
theorem echo_knows_its_cause : ∃ i j, echo.invocation? 8 5 = some i ∧ echo.invocation? 8 7 = some j ∧
    j.context.callers = [i.address, j.address] ∧ j.context.callers.length = j.context.depth := by
  refine ⟨_, _, rfl, rfl, rfl, ?_⟩
  exact (callers_are_the_line echo 8 7 _ rfl).2.1

theorem id_ne_of_line_heir (hline : a = 10 ∨ heir.BringsAbout a 10) (hj : heir.invocation? t a = some j) :
    j.subscription.id ≠ 3 := by
  have houtermost : heir.Lineage [8] 8 := .outermost ((outermost_iff (r := heir) (t := 7) rfl).2 rfl)
  have hlineage : heir.Lineage [8, 10] 10 := houtermost.caused ⟨8, rfl, rfl, rfl⟩
  have hmem : a ∈ [8, 10] := (hlineage.mem_iff a).2 hline
  have hknown : ∃ v i, heir.invocation? v a = some i ∧ i.subscription.id ≠ 3 := by
    simp only [List.mem_cons, List.not_mem_nil, or_false] at hmem
    rcases hmem with rfl | rfl
    · exact ⟨8, _, rfl, by decide⟩
    · exact ⟨14, _, rfl, by decide⟩
  obtain ⟨v, i, hi, hother⟩ := hknown
  obtain ⟨stage, parked, rfl⟩ := continues hj hi
  exact hother

/-- The third listener of the heir has got an address that the second one hands down, but is not on its line. -/
theorem heir_is_taken_for_a_caller : ¬ ∀ (r : Run) (t b c : Nat) (i k : Invocation), r.invocation? t b = some i →
    r.invocation? t c = some k → (k.address ∈ i.context.callers ↔ ∃ a u j, (a = b ∨ r.BringsAbout a b) ∧
      r.invocation? u a = some j ∧ j.bus = k.bus ∧ j.subscription = k.subscription) := by
  intro hclaim
  obtain ⟨k, hk, hid, haddress⟩ : ∃ k, heir.invocation? 14 13 = some k ∧ k.subscription.id = 3 ∧ k.address = 1 :=
    ⟨_, rfl, rfl, rfl⟩
  obtain ⟨i, hi, hcallers⟩ : ∃ i, heir.invocation? 14 10 = some i ∧ i.context.callers = [1, 2] := ⟨_, rfl, rfl⟩
  obtain ⟨a, u, j, hline, hj, -, hsub⟩ := (hclaim heir 14 10 13 i k hi hk).1 (by simp [hcallers, haddress])
  exact id_ne_of_line_heir hline hj (hsub ▸ hid)

end Run
end PubSub
