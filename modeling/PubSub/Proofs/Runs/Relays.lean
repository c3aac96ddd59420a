import Mathlib.Data.Set.Card
import PubSub.Proofs.Runs.Failures

/-!
# Relays

A listener may reply with another publish. Its invocation then ends as that publish does, and passes on what it is
delivered with or what it failed of.
-/

namespace PubSub

def Behaviour.passing : Except PublishError Delivery → Behaviour
  | .ok d => .reply d.value
  | .error e => .fail (.publish e)

theorem Behaviour.awaiting_eq (publication : Nat) : awaiting publication = .await publication passing :=
  rfl

/-- How an invocation ends that has replied with a publish of this result; a failure that cannot be recorded is lost. -/
def Invocation.relayed (i : Invocation) (tracing : Bool) : Except PublishError Delivery → Outcome
  | .ok d => .replied d.value
  | .error e =>
    match i.failure tracing (.deferred (.publish e)) with
    | .ok failure => .failed failure
    | .error _ => .lost true

theorem Invocation.relayed_error {i : Invocation} {text : String} (h : i.event.debug = .ok text) {tracing : Bool}
    {e : PublishError} (hcause : tracing → e.isPrintable) :
    i.relayed tracing (.error e) = .failed (.mk text i.subscription.key i.subscription.callback.target
      i.subscription.callback.name (.deferred (.publish e))) := by
  have hrecorded : i.failure tracing (.deferred (.publish e)) = .ok _ := failure_eq h hcause
  simp only [relayed, hrecorded]

namespace Session

variable {s s' : Session} {a q : Nat} {result : Except PublishError Delivery}

def Yields (s : Session) (q : Nat) (result : Except PublishError Delivery) : Prop :=
  ∃ p, s.publications.get? q = some p ∧ p.result? = some result

theorem Yields.resolved (h : s.Yields q result) : s.Resolved q := by
  obtain ⟨p, hp, hresult⟩ := h
  exact ⟨p, hp, by simp [hresult]⟩

theorem Yields.unique {result' : Except PublishError Delivery} (h : s.Yields q result) (h' : s.Yields q result') :
    result = result' := by
  obtain ⟨p, hp, hresult⟩ := h
  obtain ⟨p', hp', hresult'⟩ := h'
  obtain rfl := Option.some.inj (hp.symm.trans hp')
  exact Option.some.inj (hresult.symm.trans hresult')

theorem Yields.continues (hb : s.Balanced) (hb' : s'.Balanced) {p p' : Publication}
    (hp : s.publications.get? q = some p) (hp' : s'.publications.get? q = some p') (hc : p.Continues p')
    (hresult : p.result? = some result) : s'.Yields q result := by
  have hsome : p.result?.isSome := by simp [hresult]
  have hlength := outcomes_of_resolved hb hp hsome
  have hlength' := outcomes_of_resolved hb' hp' (hc.result?_isSome hsome)
  have hscheduled := hc.scheduled
  have hsame : p'.ends.length = p.ends.length := by
    rw [← p.length_outcomes, ← p'.length_outcomes, hlength, hlength', hscheduled]
  refine ⟨p', hp', ?_⟩
  simpa only [Publication.result?, hc.refusal, hscheduled, hsame, hc.observed (Nat.le_of_eq hsame)] using hresult

/-- Whoever is still there has replied with the publish, as its callback returns or has returned: it awaits that, or is
about to end as that has ended. -/
def Relays (s : Session) (a q : Nat) : Prop :=
  ∀ i, s.invocations.get? a = some i → i.stage = .calling (.later (.awaiting q)) ∨
    i.stage = .deferring (.awaiting q) ∨ ∃ result, s.Yields q result ∧ i.stage = .deferring (.passing result)

private theorem follows_passing {p : Behaviour} (h : (Behaviour.passing result).Follows p) : False := by
  cases result <;> cases h

private theorem relays_of_progress (h : s.Relays a q) (hp : Progress a s s') (hpublications : ∀ result,
    s.Yields q result → s'.Yields q result) : s'.Relays a q := by
  have hrest {i : Invocation} {p : Behaviour} (hi : s.invocations.get? a = some i) (hrest : i.rest? = some p) :
      p = .later (.awaiting q) ∨ i.stage = .deferring p ∧
        (p = .await q .passing ∨ ∃ result, s.Yields q result ∧ p = .passing result) := by
    rcases h i hi with hstage | hstage | ⟨result, hresult, hstage⟩
    · simp only [Invocation.rest?, hstage, Option.some.injEq] at hrest
      exact Or.inl hrest.symm
    · simp only [Invocation.rest?, hstage, Option.some.injEq] at hrest
      exact Or.inr ⟨hrest ▸ hstage, Or.inl (hrest ▸ Behaviour.awaiting_eq q)⟩
    · simp only [Invocation.rest?, hstage, Option.some.injEq] at hrest
      exact Or.inr ⟨hrest ▸ hstage, Or.inr ⟨result, hresult, hrest.symm⟩⟩
  intro i' hi'
  cases hp with
  | @parked i hi _ =>
    obtain rfl := Option.some.inj ((get?_putInvocation ..).symm.trans hi')
    rcases h i hi with hstage | hstage | ⟨result, hresult, hstage⟩
    · exact Or.inl (by simp [Invocation.park, hstage])
    · exact Or.inr (Or.inl (by simp [Invocation.park, hstage]))
    · exact Or.inr (Or.inr ⟨result, hpublications result hresult, by simp [Invocation.park, hstage]⟩)
  | @called i _ hi hnone _ _ =>
    rcases h i hi with hstage | hstage | ⟨result, -, hstage⟩ <;> simp [Invocation.rest?, hstage] at hnone
  | wentOn hi hcurrent hfollows =>
    rcases hrest hi hcurrent with rfl | ⟨-, rfl | ⟨result, -, rfl⟩⟩
    · cases hfollows
    · cases hfollows
    · exact (follows_passing hfollows).elim
  | left hi hcurrent =>
    obtain rfl := Option.some.inj ((get?_putInvocation ..).symm.trans hi')
    rcases hrest hi hcurrent with hlater | ⟨-, hawait | ⟨result, -, hpassing⟩⟩
    · exact Or.inr (Or.inl (by simpa using hlater))
    · cases hawait
    · cases result <;> cases hpassing
  | @awaited i publication next p result hi hcurrent hp hresult =>
    rcases hrest hi hcurrent with hlater | ⟨hstage, hawait | ⟨result', -, hpassing⟩⟩
    · cases hlater
    · obtain ⟨rfl, rfl⟩ := Behaviour.await.inj hawait
      obtain rfl := Option.some.inj ((get?_putInvocation ..).symm.trans hi')
      exact Or.inr (Or.inr ⟨result, hpublications result ⟨p, hp, hresult⟩, by simp [Invocation.goOn, hstage]⟩)
    · cases result' <;> cases hpassing
  | published hi hcurrent _ =>
    rcases hrest hi hcurrent with hlater | ⟨-, hawait | ⟨result, -, hpassing⟩⟩
    · cases hlater
    · cases hawait
    · cases result <;> cases hpassing
  | finished hi o =>
    rw [get?_finish] at hi'
    cases hi'

theorem Relays.move (hs : s.Proper) (hb : s.Balanced) (ha : a ≤ s.issued) (h : s.Relays a q) (hm : Move s s') :
    s'.Relays a q := by
  obtain ⟨ctx, hcarries⟩ := Carries.move hs hm
  have hyields : ∀ result, s.Yields q result → s'.Yields q result := by
    rintro result ⟨p, hp, hresult⟩
    obtain ⟨p', hp', hc⟩ := hcarries.publication q p hp
    exact .continues hb (hb.move hs hm) hp hp' hc hresult
  have hsame (hframe : ∀ i', s'.invocations.get? a = some i' →
      s.invocations.get? a = some i' ∨ (s.issued < a ∧ i'.stage = .fresh)) : s'.Relays a q := by
    intro i' hi'
    rcases hframe i' hi' with hold | ⟨hnew, -⟩
    · refine (h i' hold).imp_right (Or.imp_right ?_)
      intro hpassing
      obtain ⟨result, hresult, hstage⟩ := hpassing
      exact ⟨result, hyields result hresult, hstage⟩
    · omega
  cases hm with
  | effect he => exact hsame fun _ hi' => Or.inl (invocation_of_effect he hi')
  | publish hp => exact hsame fun _ => (publishing_of_publishes hs hp).invocation
  | progress id hp =>
    by_cases hid : a = id
    · subst hid
      exact relays_of_progress h hp hyields
    · exact hsame fun _ => invocation_of_progress hs hp hid

theorem Relays.moves (hs : s.Proper) (hb : s.Balanced) (ha : a ≤ s.issued) (h : s.Relays a q) (hm : Moves s s') :
    s'.Relays a q := by
  induction hm with
  | refl => exact h
  | tail hprior hm ih =>
    have hissued := (Extends.moves hs hprior).issued
    exact ih.move (hs.moves hprior) (hb.moves hs hprior) (Nat.le_trans ha hissued) hm

theorem Relays.ends (h : s.Relays a q) {i : Invocation} (hi : s.invocations.get? a = some i) {o : Outcome}
    (ho : s.Ends i o) : ∃ result, s.Yields q result ∧ o = i.relayed s.tracing result := by
  have hcause {cause : ListenerError} (hfails : s.Fails i cause) :
      ∃ e, s.Yields q (.error e) ∧ cause = .deferred (.publish e) := by
    rcases h i hi with hstage | hstage | ⟨result, hresult, hstage⟩
    · cases hfails <;> simp_all [Invocation.rest?]
    · cases hfails <;> simp_all [Invocation.rest?, Behaviour.awaiting]
    · cases result with
      | ok d => cases hfails <;> simp_all [Invocation.rest?, Behaviour.passing]
      | error e =>
        refine ⟨e, hresult, ?_⟩
        cases hfails <;> simp_all [Invocation.rest?, Behaviour.passing]
  cases ho with
  | @replied value hrest =>
    rcases h i hi with hstage | hstage | ⟨result, hresult, hstage⟩
    · simp [Invocation.rest?, hstage] at hrest
    · simp [Invocation.rest?, hstage, Behaviour.awaiting] at hrest
    · refine ⟨result, hresult, ?_⟩
      cases result with
      | ok d =>
        simp only [Invocation.rest?, hstage, Behaviour.passing, Option.some.injEq, Behaviour.reply.injEq] at hrest
        rw [Invocation.relayed, hrest]
      | error e => simp [Invocation.rest?, hstage, Behaviour.passing] at hrest
  | failed hfails hrecorded =>
    obtain ⟨e, he, rfl⟩ := hcause hfails
    exact ⟨_, he, by simp [Invocation.relayed, hrecorded]⟩
  | lost hfails hcrashed =>
    obtain ⟨e, he, rfl⟩ := hcause hfails
    exact ⟨_, he, by simp [Invocation.relayed, hcrashed]⟩

theorem Relays.step_ne_none (h : s.Relays a q) {i : Invocation} (hi : s.invocations.get? a = some i)
    (hresolved : s.Resolved q) : s.step a ≠ none := by
  suffices hproceeds : s.proceed a i ≠ none by
    obtain ⟨after, hafter⟩ := Option.ne_none_iff_exists'.1 hproceeds
    simp [step, hi, hafter]
  obtain ⟨p, hp, hsome⟩ := hresolved
  obtain ⟨result, hresult⟩ := Option.isSome_iff_exists.1 hsome
  rcases h i hi with hstage | hstage | ⟨result', -, hstage⟩
  · simp [proceed, Invocation.rest?, hstage, advance]
  · simp [proceed, Invocation.rest?, hstage, Behaviour.awaiting, advance, hp, hresult]
  · cases result' <;> simp [proceed, Invocation.rest?, hstage, Behaviour.passing, advance]

end Session

namespace Run

variable {r : Run} {t t' a q q' : Nat} {result : Except PublishError Delivery} {d : Delivery}

theorem yields_of_le (h : t ≤ t') (hresult : (r.session t).Yields q result) : (r.session t').Yields q result := by
  obtain ⟨p, hp, hresult⟩ := hresult
  obtain ⟨p', hp', hc⟩ := publication?_of_le h hp
  exact .continues (r.balanced t) (r.balanced t') hp hp' hc hresult

/-- The invocations that a publish has had at any time. -/
def invocationsOf (r : Run) (q : Nat) : Set Nat :=
  {a | ∃ t i, r.invocation? t a = some i ∧ i.publication = q}

/-- The publish invoked just one subscription, and that has replied with the other publish. -/
def HandsOver (r : Run) (q q' : Nat) : Prop :=
  ∃ a t i, r.invocationsOf q = {a} ∧ r.invocation? t a = some i ∧ i.stage = .deferring (.awaiting q')

/-- The invocation ends with that reply, from its callback or late. -/
def Replies (r : Run) (a : Nat) (value : Option Value) : Prop :=
  ∃ t i, r.invocation? t a = some i ∧ (r.session t).proceed a i = some (r.session (t + 1)) ∧
    i.rest? = some (.reply value)

theorem outcomes_of_join {outcomes : List Outcome} (h : Delivery.join outcomes = .ok d) :
    (∀ o ∈ outcomes, ∃ value, o = .replied value) ∧ ∀ v, d.value = some v ↔ outcomes = [.replied (some v)] := by
  have hnone : outcomes.filterMap Outcome.failure? = [] := by
    cases hf : outcomes.filterMap Outcome.failure? with
    | nil => rfl
    | cons first rest => cases (Delivery.join_of_failed hf).symm.trans h
  have hkept : outcomes.countP Outcome.isLost = 0 := by
    by_contra hlost
    cases (Delivery.join_of_lost hnone (Nat.pos_of_ne_zero hlost)).symm.trans h
  refine ⟨?_, ?_⟩
  · intro o ho
    cases o with
    | replied value => exact ⟨value, rfl⟩
    | failed f => simpa [Outcome.failure?] using List.filterMap_eq_nil_iff.1 hnone _ ho
    | lost c => simpa [Outcome.isLost] using List.countP_eq_zero.1 hkept _ ho
  · obtain ⟨value, hvalue, hone⟩ := Delivery.join_of_replied hnone hkept
    obtain rfl := Except.ok.inj (hvalue.symm.trans h)
    exact hone

theorem join_of_delivered {p : Publication} (hp : r.publication? t q = some p) (hresult : p.result? = some (.ok d)) :
    Delivery.join p.observed = .ok d := by
  rcases result_cases hp hresult with ⟨error, h, -⟩ | hjoined
  · cases h
  · exact hjoined.symm

theorem outcomes_of_delivered {p : Publication} (hp : r.publication? t q = some p)
    (hresult : p.result? = some (.ok d)) : d.delivered = p.outcomes.length ∧
      ∀ v, d.value = some v ↔ p.outcomes = [.replied (some v)] := by
  have hjoin := join_of_delivered hp hresult
  refine ⟨(Delivery.delivered_of_join hjoin).trans p.observed_perm.length_eq, ?_⟩
  intro v
  rw [(outcomes_of_join hjoin).2 v, ← List.perm_singleton, ← List.perm_singleton]
  exact ⟨p.observed_perm.symm.trans, p.observed_perm.trans⟩

section Ended

variable {p : Publication} {es : List (Nat × Outcome)}

theorem Endings.invocationsOf (hes : r.Endings t q p es) (hresolved : (r.session t).Resolved q) :
    r.invocationsOf q = {a | a ∈ es.map Prod.fst} := by
  have hgone := (ended_of_resolved hresolved).1
  ext a
  refine (and_iff_left_of_imp ?_).symm.trans (hes.ended a).symm
  rintro ⟨t₀, i, hi, hpub⟩
  exact (hgone a i t₀ hi hpub).2 t (Nat.le_refl t)

theorem delivered_eq_ncard (hd : (r.session t).Yields q (.ok d)) : d.delivered = (r.invocationsOf q).ncard := by
  have hresolved := hd.resolved
  obtain ⟨p, hp, hresult⟩ := hd
  obtain ⟨es, hes⟩ := exists_endings hp
  rw [hes.invocationsOf hresolved, (outcomes_of_delivered hp hresult).1, hes.outcomes, List.length_map,
    ← List.coe_toFinset, Set.ncard_coe_finset, List.toFinset_card_of_nodup hes.once, List.length_map]

/-- A publish that was delivered to one listener has no more invocations than one. -/
theorem sole_of_delivered (hd : (r.session t).Yields q (.ok d)) (hone : d.delivered = 1) (ha : a ∈ r.invocationsOf q) :
    r.invocationsOf q = {a} := by
  obtain ⟨b, hsole⟩ := Set.ncard_eq_one.1 ((delivered_eq_ncard hd).symm.trans hone)
  rw [hsole, Set.mem_singleton_iff] at ha
  rw [hsole, ha]

theorem ending_of_sole (hsole : r.invocationsOf q = {a}) (hp : r.publication? t q = some p)
    (hresolved : (r.session t).Resolved q) : ∃ o, r.Endings t q p [(a, o)] := by
  obtain ⟨es, hes⟩ := exists_endings hp
  have hmem (b : Nat) : b ∈ es.map Prod.fst ↔ b = a := by
    rw [← Set.mem_singleton_iff, ← hsole, hes.invocationsOf hresolved, Set.mem_ofPred_eq]
  have hone : es.map Prod.fst = [a] := by
    refine List.perm_singleton.1 ((List.perm_ext_iff_of_nodup hes.once (List.nodup_singleton a)).2 ?_)
    simpa using hmem
  obtain ⟨⟨b, o⟩, rfl, rfl⟩ := List.map_eq_singleton_iff.1 hone
  exact ⟨o, hes⟩

theorem observed_of_sole {o : Outcome} (hes : r.Endings t q p [(a, o)]) : p.observed = [o] := by
  have hperm := p.observed_perm
  rw [hes.outcomes] at hperm
  exact List.perm_singleton.1 hperm

theorem yields_ok_of_replied {value : Option Value} (hes : r.Endings t q p [(a, .replied value)])
    (hp : r.publication? t q = some p) (hresolved : (r.session t).Resolved q) :
    (r.session t).Yields q (.ok ⟨1, value⟩) := by
  obtain ⟨p', hp', hsome⟩ := hresolved
  obtain rfl := Option.some.inj (hp.symm.trans hp')
  obtain ⟨result, hresult⟩ := Option.isSome_iff_exists.1 hsome
  refine ⟨p, hp, ?_⟩
  rcases result_cases hp hresult with ⟨error, -, -, hnone⟩ | hjoined
  · cases hes.ends.symm.trans hnone
  · rw [hresult, hjoined, observed_of_sole hes]
    rfl

end Ended

section Replying

private theorem Replies.recorded {value : Option Value} (h : r.Replies a value) (hq : a ∈ r.invocationsOf q)
    {p : Publication} (hp : r.publication? t q = some p) (hresolved : (r.session t).Resolved q) :
    .replied value ∈ p.outcomes := by
  obtain ⟨u, i, hi, hproceeds, hrest⟩ := h
  obtain ⟨u', i', hi', rfl⟩ := hq
  have hpub : i.publication = i'.publication := (continues hi' hi).publication
  obtain ⟨hlt, -⟩ := (ended_of_resolved hresolved).1 a i u hi hpub
  obtain ⟨p₀, hp₀⟩ := (r.proper u).belongs a i hi
  simp only [Session.proceed, hrest, Session.advance, Session.conclude, Option.some.injEq] at hproceeds
  have hframe := (Session.finish_frame ((r.session u).leaveCall i) a i (.replied value)).2.2.2.2
  rw [hproceeds, (Session.aside_leaveCall (r.session u) i).publications, hp₀, Option.elim_some] at hframe
  have hadded : r.publication? (u + 1) i'.publication = some (p₀.add a (.replied value)) := by
    rw [publication?, hframe, hpub]
    exact (Table.get?_put ..).trans (if_pos rfl)
  obtain ⟨p', hp', hc⟩ := publication?_of_le (Nat.succ_le_of_lt hlt) hadded
  obtain rfl := Option.some.inj (hp.symm.trans hp')
  exact hc.outcomes.subset (by simp)

theorem value_iff_replies (hd : (r.session t).Yields q (.ok d)) (v : Value) :
    d.value = some v ↔ ∃ a, r.invocationsOf q = {a} ∧ r.Replies a (some v) := by
  have hresolved := hd.resolved
  obtain ⟨p, hp, hresult⟩ := hd
  obtain ⟨-, hvalue⟩ := outcomes_of_delivered hp hresult
  rw [hvalue v]
  constructor
  · intro hone
    obtain ⟨es, hes⟩ := exists_endings hp
    obtain ⟨⟨a, o⟩, rfl, rfl⟩ := List.map_eq_singleton_iff.1 (hes.outcomes.symm.trans hone)
    refine ⟨a, by simp [hes.invocationsOf hresolved], ?_⟩
    obtain ⟨u, -, hends, -⟩ := hes.moment _ (List.mem_singleton.2 rfl)
    rcases hends with ⟨i, -, hlost, -⟩ | ⟨i, hi, hproceeds, ho⟩
    · cases hlost
    · cases ho with
      | replied hrest => exact ⟨u, i, hi, hproceeds, hrest⟩
  · rintro ⟨a, hsole, hreplies⟩
    obtain ⟨o, hes⟩ := ending_of_sole hsole hp hresolved
    have hrecorded := hreplies.recorded (hsole ▸ Set.mem_singleton a) hp hresolved
    rw [hes.outcomes] at hrecorded ⊢
    rw [List.map_singleton, List.mem_singleton.1 hrecorded]

theorem value_eq_none_of_done (hd : (r.session t).Yields q (.ok d)) (hsole : r.invocationsOf q = {a})
    (hdone : r.Replies a none) : d.value = none := by
  have hresolved := hd.resolved
  obtain ⟨p, hp, hresult⟩ := hd
  have hrecorded := hdone.recorded (hsole ▸ Set.mem_singleton a) hp hresolved
  cases hvalue : d.value with
  | none => rfl
  | some v =>
    rw [((outcomes_of_delivered hp hresult).2 v).1 hvalue] at hrecorded
    simp at hrecorded

end Replying

section Relaying

private theorem relayed_of_concludes {i : Invocation} {o : Outcome} {u : Nat} (hi : r.invocation? t a = some i)
    (hstage : i.stage = .deferring (.awaiting q)) (hgone : r.invocation? (u + 1) a = none)
    (ho : (r.session u).Concludes (r.session (u + 1)) (a, o)) :
    ∃ j result, r.invocation? u a = some j ∧ (r.session u).Yields q result ∧
      o = j.relayed r.tracing result := by
  have hle : t ≤ u := by
    by_contra hlt
    have hissued : a ≤ (r.session (u + 1)).issued := by
      obtain ⟨j, hj, -⟩ := ho
      exact Nat.le_trans (issued_of_invocation? hj) (extends_of_le (Nat.le_succ u)).issued
    cases hi.symm.trans (gone_of_le (Nat.lt_of_not_le hlt) hissued hgone)
  have hrelays : (r.session t).Relays a q := by
    intro i' hi'
    obtain rfl := Option.some.inj (hi.symm.trans hi')
    exact Or.inr (Or.inl hstage)
  obtain ⟨j, hj, -, hends⟩ := ho
  obtain ⟨result, hresult, hrelayed⟩ :=
    (hrelays.moves (r.proper t) (r.balanced t) (issued_of_invocation? hi) (moves_of_le hle)).ends hj hends
  exact ⟨j, result, hj, hresult, r.tracing_session u ▸ hrelayed⟩

theorem yields_of_handsOver (h : r.HandsOver q q') (hd : (r.session t).Yields q (.ok d)) :
    ∃ d', (r.session t).Yields q' (.ok d') ∧ d'.value = d.value := by
  obtain ⟨a, t₀, i, hsole, hi, hstage⟩ := h
  have hresolved := hd.resolved
  obtain ⟨p, hp, hresult⟩ := hd
  obtain ⟨o, hes⟩ := ending_of_sole hsole hp hresolved
  have hjoin := join_of_delivered hp hresult
  rw [observed_of_sole hes] at hjoin
  obtain ⟨value, rfl⟩ := (outcomes_of_join hjoin).1 o (List.mem_singleton.2 rfl)
  obtain rfl := Except.ok.inj hjoin
  obtain ⟨u, hu, hends, hgone⟩ := hes.moment _ (List.mem_singleton.2 rfl)
  rcases hends with ⟨j, -, hlost, -⟩ | hconcludes
  · cases hlost
  obtain ⟨j, result', -, hyields, hrelayed⟩ := relayed_of_concludes hi hstage hgone hconcludes
  cases result' with
  | ok d' =>
    refine ⟨d', yields_of_le (Nat.le_of_lt hu) hyields, ?_⟩
    obtain rfl := Outcome.replied.inj hrelayed
    rfl
  | error e =>
    simp only [Invocation.relayed] at hrelayed
    split at hrelayed <;> cases hrelayed

theorem relayed_of_handsOver (h : r.HandsOver q q') {p : Publication} (hp : r.publication? t q = some p)
    (hresolved : (r.session t).Resolved q)
    (hrunning : ∀ a i u, r.invocation? u a = some i → i.publication = q → (r.session t).isRunning i.bus) :
    ∃ a u j result, r.invocation? u a = some j ∧ j.publication = q ∧ (r.session t).Yields q' result ∧
      r.Endings t q p [(a, j.relayed r.tracing result)] := by
  obtain ⟨a, t₀, i, hsole, hi, hstage⟩ := h
  obtain ⟨o, hes⟩ := ending_of_sole hsole hp hresolved
  obtain ⟨u, j, hj, hpub, hproceeds, ho, hgone⟩ := hes.concludes hrunning (List.mem_singleton.2 rfl)
  have hu : u < t := ((ended_of_resolved hresolved).1 a j u hj hpub).1
  obtain ⟨j', result, hj', hresult, rfl⟩ := relayed_of_concludes hi hstage hgone ⟨j, hj, hproceeds, ho⟩
  obtain rfl := Option.some.inj (hj.symm.trans hj')
  exact ⟨a, u, j, result, hj, hpub, yields_of_le (Nat.le_of_lt hu) hresult, hes⟩

end Relaying

section Chains

variable {n : Nat} {chain : Nat → Nat}

private theorem exists_last (hchain : ∀ k < n, r.HandsOver (chain k) (chain (k + 1)))
    (hd : (r.session t).Yields (chain 0) (.ok d)) :
    ∃ d', (r.session t).Yields (chain n) (.ok d') ∧ d'.value = d.value := by
  induction n with
  | zero => exact ⟨d, hd, rfl⟩
  | succ n ih =>
    obtain ⟨d₁, hd₁, hsame⟩ := ih fun k hk => hchain k (Nat.lt_succ_of_lt hk)
    obtain ⟨d₂, hd₂, hsame'⟩ := yields_of_handsOver (hchain n (Nat.lt_succ_self n)) hd₁
    exact ⟨d₂, hd₂, hsame'.trans hsame⟩

private theorem exists_value (chain : Nat → Nat) (hchain : ∀ k < n, r.HandsOver (chain k) (chain (k + 1)))
    (hresolved : (r.session t).Resolved (chain 0))
    (hrunning : ∀ k < n, ∀ a i u, r.invocation? u a = some i → i.publication = chain k →
      (r.session t).isRunning i.bus) (hlast : ∀ e, ¬ (r.session t).Yields (chain n) (.error e)) :
    ∃ value, ∀ k ≤ n, ∃ d, (r.session t).Yields (chain k) (.ok d) ∧ d.value = value := by
  have hresult := hresolved
  obtain ⟨p, hp, hsome⟩ := hresult
  induction n generalizing chain p with
  | zero =>
    obtain ⟨result, hresult⟩ := Option.isSome_iff_exists.1 hsome
    cases result with
    | error e => exact absurd ⟨p, hp, hresult⟩ (hlast e)
    | ok d =>
      refine ⟨d.value, fun k hk => ?_⟩
      obtain rfl := Nat.le_zero.1 hk
      exact ⟨d, ⟨p, hp, hresult⟩, rfl⟩
  | succ n ih =>
    obtain ⟨a, u, j, result, -, -, hyields, hes⟩ :=
      relayed_of_handsOver (hchain 0 (Nat.succ_pos n)) hp hresolved (hrunning 0 (Nat.succ_pos n))
    obtain ⟨p₁, hp₁, hsome₁⟩ := hyields.resolved
    obtain ⟨value, hrest⟩ := ih (fun k => chain (k + 1)) (fun k hk => hchain (k + 1) (Nat.succ_lt_succ hk))
      hyields.resolved (fun k hk => hrunning (k + 1) (Nat.succ_lt_succ hk)) hlast p₁ hp₁ hsome₁
    obtain ⟨d₁, hd₁, hvalue⟩ := hrest 0 (Nat.zero_le n)
    obtain rfl := hyields.unique hd₁
    refine ⟨value, fun k hk => ?_⟩
    cases k with
    | zero => exact ⟨_, yields_ok_of_replied hes hp hresolved, hvalue⟩
    | succ k => exact hrest k (Nat.le_of_succ_le_succ hk)

end Chains

/-- In whatever way a program and its listeners go on: if publishes form a chain, in which the only listener that each
of them invoked has replied with the next, then what the first one is delivered with is the value that the only listener
of the last one replied, directly or late. As long as their buses have workers and the last one does not fail, none of
them does, and all of them pass on the same value: none if the last one invoked nobody or several, or its only
listener replied without one. Each delivery counts the invocations of its own publish. -/
theorem value_travels (r : Run) {n : Nat} {chain : Nat → Nat}
    (hchain : ∀ k < n, r.HandsOver (chain k) (chain (k + 1))) (t : Nat) :
    (∀ d, (r.session t).Yields (chain 0) (.ok d) →
      ∀ v, d.value = some v ↔ ∃ a, r.invocationsOf (chain n) = {a} ∧ r.Replies a (some v)) ∧
    ((r.session t).Resolved (chain 0) →
      (∀ k < n, ∀ a i u, r.invocation? u a = some i → i.publication = chain k → (r.session t).isRunning i.bus) →
      (∀ e, ¬ (r.session t).Yields (chain n) (.error e)) →
      ∃ value, (∀ k ≤ n, ∃ d, (r.session t).Yields (chain k) (.ok d) ∧ d.value = value) ∧
        ((∀ a, r.invocationsOf (chain n) ≠ {a}) ∨ (∃ a, r.invocationsOf (chain n) = {a} ∧ r.Replies a none) →
          value = none)) ∧
    ∀ k ≤ n, ∀ d, (r.session t).Yields (chain k) (.ok d) → d.delivered = (r.invocationsOf (chain k)).ncard := by
  refine ⟨?_, ?_, fun _ _ _ => delivered_eq_ncard⟩
  · intro d hd v
    obtain ⟨d', hd', hsame⟩ := exists_last hchain hd
    rw [← hsame]
    exact value_iff_replies hd' v
  · intro hresolved hrunning hlast
    obtain ⟨value, hall⟩ := exists_value chain hchain hresolved hrunning hlast
    refine ⟨value, hall, fun hnothing => ?_⟩
    obtain ⟨d, hd, rfl⟩ := hall n (Nat.le_refl n)
    rcases hnothing with hnobody | ⟨a, hsole, hdone⟩
    · cases hvalue : d.value with
      | none => rfl
      | some v =>
        obtain ⟨a, hsole, -⟩ := (value_iff_replies hd v).1 hvalue
        exact absurd hsole (hnobody a)
    · exact value_eq_none_of_done hd hsole hdone

/-- An object replies with the publish of another class, and the object that listens to that replies a number. -/
private def relay : Run :=
  .scripted false [.perform (.openBus "bus" .default []),
    .perform (.object "relay" "Relay" false
      (.leaf ⟨[], none, .publish "bus" .defer (.fresh (.simple 1) (.fixed 1) "" false)⟩) []),
    .perform (.object "source" "Source" false (.leaf ⟨[], none, .finish (.value (.int 5))⟩) []),
    .perform (.subscribe "bus" "relay" (.shared (.simple 0)) none),
    .perform (.subscribe "bus" "source" (.shared (.simple 1)) none),
    .perform (.start "call" ⟨"bus", .held, ⟨.simple 0, 0, "", false⟩⟩),
    .step 7, .step 7, .step 7, .step 7, .step 9, .step 9, .step 9, .step 7, .step 7]

theorem number_is_passed_on : relay.HandsOver 6 8 ∧ ∃ d, (relay.session 15).Yields 6 (.ok d) ∧
    d.value = some (.int 5) ∧ d.delivered = 1 := by
  have houter : (relay.session 15).Yields 6 (.ok ⟨1, some (.int 5)⟩) := ⟨_, rfl, rfl⟩
  have hinner : (relay.session 15).Yields 8 (.ok ⟨1, some (.int 5)⟩) := ⟨_, rfl, rfl⟩
  have hhands : relay.HandsOver 6 8 := ⟨7, 10, _, sole_of_delivered houter rfl ⟨10, _, rfl, rfl⟩, rfl, rfl⟩
  have hchain : ∀ k < 1, relay.HandsOver (6 + 2 * k) (6 + 2 * (k + 1)) := by
    intro k hk
    obtain rfl := Nat.lt_one_iff.1 hk
    exact hhands
  have hreplies : relay.Replies 9 (some (.int 5)) := ⟨12, _, rfl, rfl, rfl⟩
  obtain ⟨hvalue, -⟩ := value_travels relay hchain 15
  refine ⟨hhands, _, houter, ?_, rfl⟩
  exact (hvalue _ houter _).2 ⟨9, sole_of_delivered hinner rfl ⟨12, _, rfl, rfl⟩, hreplies⟩

end Run
end PubSub
