import PubSub.Proofs.Session.ExactDelivery
import PubSub.Proofs.Unheard

/-!
# Carriers

What becomes of a publish that nobody hears. It is over at once, with nobody invoked, unless its bus republishes: then
it is the publish of a carrier, made at the same place. The publisher fails only where the event is to be shown to
somebody who traces, and cannot be.
-/

namespace PubSub

/-- Somebody who traces is shown the unheard event. -/
def Bus.Shows (b : Bus) (e : Event) : Prop :=
  match b.config.deadEvents with
  | .ignore => False
  | .log => True
  | .republish => e.isDead = false ∧ b.config.enableLogging ∧ b.registry.row (.named .dead) ≠ []

namespace Session

variable {s s' : Session} {b : Bus} {ctx : Context} {e : Event}

/-- The event is delivered to these subscriptions, once to each: nobody else is invoked, and what comes of the publish
is what comes of these invocations. -/
structure Delivers (s : Session) (ctx : Context) (bus : Nat) (event : Event) (subscriptions : List Subscription)
    (s' : Session) (publication : Nat) : Prop where
  fresh : s.issued < publication
  kept : ∀ id, id ≤ s.issued → s'.invocations.get? id = s.invocations.get? id
  once : ∀ sub ∈ subscriptions,
    ∃! id, ∃ i, s'.invocations.get? id = some i ∧ i.publication = publication ∧ i.subscription = sub
  only : ∀ id i, s'.invocations.get? id = some i → s.issued < id → i.publication = publication ∧
    i.subscription ∈ subscriptions ∧ i.event = event ∧ i.bus = bus ∧ i.origin = ctx ∧
    i.context.depth = ctx.depth + 1 ∧ i.stage = .fresh
  outcome : ∀ s'', Transitions s' s'' → ∃ p, s''.publications.get? publication = some p ∧
    p.scheduled = subscriptions.length ∧
    (p.result? = none ↔ ∃ id i, s''.invocations.get? id = some i ∧ i.publication = publication) ∧
    ∀ result, p.result? = some result →
      result = Delivery.join p.observed ∧ p.outcomes.length = subscriptions.length

section Planned

variable {d : Dispatch} {s₁ : Session}

private theorem publishOn_of_plan (hd : b.publish s.hierarchy.declared ctx.depth e = .ok d)
    (hannounced : d.notice.elim (.ok (s.putBus { b with matcher := d.matcher }))
      (s.putBus { b with matcher := d.matcher }).announce = .ok s₁) :
    s.publishOn ctx b e = ((s₁.schedule ctx b.id d.plan).1, .ok (s₁.schedule ctx b.id d.plan).2) := by
  simp only [publishOn, hd, hannounced]

private theorem delivers_of_plan (hs : s.Proper) (hbalanced : s.Balanced) (hb : s.buses.get? b.id = some b)
    (hregistry : b.registry.Sound) (hd : b.publish s.hierarchy.declared ctx.depth e = .ok d)
    (haside : (s.putBus { b with matcher := d.matcher }).Aside s₁) {event : Event} {r : Resolution}
    (hnodup : r.keys.Nodup) (hplan : d.plan = .scheduled event (b.registry.lookup r)) :
    s.Delivers ctx b.id event ((b.registry.lookup r).map Prod.fst) (s₁.schedule ctx b.id d.plan).1
      (s₁.schedule ctx b.id d.plan).2 := by
  have hpublishes : s.Publishes ctx (s₁.schedule ctx b.id d.plan).1 (s₁.schedule ctx b.id d.plan).2 :=
    .planned hb hd haside
  have hmade := publishing_of_publishes hs hpublishes
  have hput : (s.putBus { b with matcher := d.matcher }).Proper := hs.putBus (hs.bus _ _ hb).2
  have hs₁ : s₁.Proper := hput.aside haside
  have hs' := hs.publishes hpublishes
  have hbalanced' := hbalanced.move hs (.publish hpublishes)
  rw [hplan] at hmade hs' hbalanced' ⊢
  refine ⟨hmade.fresh, hmade.kept, ?_, ?_, ?_⟩
  · intro sub hsub
    obtain ⟨⟨_, v⟩, hfound, rfl⟩ := List.mem_map.1 hsub
    obtain ⟨k, hkv, hrow⟩ := (Registry.mem_lookup ..).1 hfound
    exact existsUnique_invocation hs₁ hregistry hnodup (List.mem_map_of_mem hkv) hrow
  · intro id i hi hnew
    obtain ⟨hpub, horigin, hstage, -⟩ := hmade.invoked id i hi hnew
    obtain ⟨hrow, hview, hevent, hbus, -, -⟩ := invocation_of_lookup hs₁ hregistry hnodup hi hpub
    have hfound := (Registry.mem_lookup ..).2 ⟨_, (lookup_eq_some_iff_mem hnodup _ _).1 hview, hrow⟩
    refine ⟨hpub, List.mem_map_of_mem hfound, hevent, hbus, horigin, ?_, hstage⟩
    show i.origin.depth + 1 = _
    rw [horigin]
  · intro s'' hlater
    have hmoves := moves_of_transitions hs' hlater
    have hbalanced'' := hbalanced'.moves hs' hmoves
    have hopened := get?_publications_schedule ctx b.id event s₁ (b.registry.lookup r) (s₁.issued + 1)
    rw [if_pos rfl] at hopened
    obtain ⟨p, hp, hcontinues⟩ := publication_of_moves hs' hmoves hopened
    have hcount : p.scheduled = ((b.registry.lookup r).map Prod.fst).length :=
      hcontinues.scheduled.trans (List.length_map ..).symm
    refine ⟨p, hp, hcount, unresolved_iff (hs'.moves hmoves) hbalanced'' hp, ?_⟩
    intro result hresult
    refine ⟨?_, (outcomes_of_resolved hbalanced'' hp (by simp [hresult])).trans hcount⟩
    have hnone : p.refusal = none := hcontinues.refusal
    simp only [Publication.result?, hnone] at hresult
    split at hresult
    · cases hresult
    · exact (Option.some.inj hresult).symm

private theorem Delivers.nobody {bus publication : Nat} {event : Event} (h : s.Delivers ctx bus event [] s' publication)
    {s'' : Session} (hlater : Transitions s' s'') :
    ∃ p, s''.publications.get? publication = some p ∧ p.result? = some (.ok ⟨0, none⟩) := by
  obtain ⟨p, hp, hscheduled, -, hjoined⟩ := h.outcome s'' hlater
  refine ⟨p, hp, ?_⟩
  cases hresult : p.result? with
  | none =>
    simp only [Publication.result?, hscheduled, List.length_nil, Nat.not_lt_zero, if_false] at hresult
    split at hresult <;> cases hresult
  | some result =>
    obtain ⟨rfl, hnone⟩ := hjoined result hresult
    rw [List.eq_nil_of_length_eq_zero (p.observed_perm.length_eq.trans hnone)]
    rfl

end Planned

section Notices

/-- The notice can be given just if the event can be rendered. -/
private def Tells (n : Notice) (e : Event) : Prop :=
  ∀ c, n.line = .error c ↔ e.debug = .error c

private theorem tells_unheard (e : Event) : Tells (.unheard e) e := by
  intro c
  cases h : e.debug <;> simp [Notice.line, Notice.fields, h, bind, Except.bind, pure, Except.pure]

private theorem tells_publishing (e : Event) (depth keys subscriptions : Nat) :
    Tells (.publishing (.dead e) depth keys subscriptions) e := by
  intro c
  cases h : e.debug <;> simp [Notice.line, Notice.fields, Event.debug, h, bind, Except.bind, pure, Except.pure]

private theorem announce_of_tells {n : Notice} (hn : Tells n e) (hshown : s.tracing → ∃ text, e.debug = .ok text) :
    ∃ s₁, s.announce n = .ok s₁ := by
  simp only [announce]
  split
  · cases hline : n.line with
    | ok line => exact ⟨_, rfl⟩
    | error c =>
      obtain ⟨text, htext⟩ := hshown ‹_›
      cases htext.symm.trans ((hn c).1 hline)
  · exact ⟨s, rfl⟩

private theorem announce_of_unprintable {n : Notice} (hn : Tells n e) (htracing : s.tracing) {c : Crash}
    (hc : e.debug = .error c) : s.announce n = .error c := by
  simp only [announce, htracing, if_true, (hn c).2 hc]
  rfl

end Notices

section Unheard

variable {r : Resolution} {m : Matcher} (hoperated : b.IsOperated) (hopen : b.isOpen)
  (hlimit : b.exceeded? ctx.depth = none) (hkeys : b.matcher.keysFor s.hierarchy.declared e.cls = .ok (r, m))
  (hunheard : ∀ k ∈ r.keys, b.registry.row k = [])

include hunheard in
private theorem lookup_of_unheard : b.registry.lookup r = [] := by
  apply List.eq_nil_iff_forall_not_mem.2
  rintro ⟨sub, v⟩ hfound
  obtain ⟨k, hk, hrow⟩ := (Registry.mem_lookup ..).1 hfound
  rw [hunheard k (List.mem_map_of_mem hk)] at hrow
  cases hrow

/-- What is decided about an event that nobody hears, and who is shown it. -/
private structure Settled (s : Session) (ctx : Context) (b : Bus) (e : Event) (event : Event) (r : Resolution)
    (d : Dispatch) : Prop where
  decided : b.publish s.hierarchy.declared ctx.depth e = .ok d
  plan : d.plan = .scheduled event (b.registry.lookup r)
  notice : d.notice = none ∧ ¬ b.Shows e ∨ ∃ n, d.notice = some n ∧ b.Shows e ∧ Tells n e

include hopen hlimit hkeys hunheard in
private theorem settled_of_kept (hpolicy : b.config.deadEvents = .republish → e.isDead) :
    ∃ d, Settled s ctx b e e r d := by
  have hnone := lookup_of_unheard hunheard
  refine ⟨_, (Bus.publish_of_unheard hopen hlimit hkeys hnone).trans (Bus.deliverUnheard_of_decided hpolicy m), ?_, ?_⟩
  · rw [hnone]
  · cases hb : b.config.deadEvents with
    | ignore => exact Or.inl ⟨by simp, by simp [Bus.Shows, hb]⟩
    | log => exact Or.inr ⟨.unheard e, by simp, by simp [Bus.Shows, hb], tells_unheard e⟩
    | republish => exact Or.inl ⟨by simp, by simp [Bus.Shows, hb, hpolicy hb]⟩

include hoperated hkeys hunheard in
private theorem lookup_carrier : b.registry.lookup Matcher.carrierKeys =
    (b.registry.row (.named .dead)).map (·, some (.own .dead)) := by
  obtain ⟨⟨h, hfresh⟩, -⟩ := hoperated.recalls.keysFor hkeys
  simp [Registry.lookup, Matcher.carrierKeys, hunheard .root (Matcher.root_mem_keys hfresh)]

include hoperated hopen hlimit hkeys hunheard in
private theorem settled_of_carried (hpolicy : b.config.deadEvents = .republish) (halive : e.isDead = false) :
    ∃ d, Settled s ctx b e (.dead e) Matcher.carrierKeys d ∧
      ({ b with matcher := m } : Bus).publish s.hierarchy.declared ctx.depth (.dead e) = .ok d := by
  have hround : b.round s.hierarchy.declared ctx.depth e = .again { b with matcher := m } (.dead e) :=
    Bus.round_eq_again_iff.2
      ⟨hopen, hlimit, ⟨r, m, hkeys, lookup_of_unheard hunheard, rfl⟩, hpolicy, halive, rfl⟩
  have hagain := Bus.publish_of_again hround
  obtain ⟨-, hm⟩ := hoperated.recalls.keysFor hkeys
  obtain ⟨m', hcarrier, -⟩ := Matcher.keysFor_dead hm s.hierarchy
  have hopen' : ({ b with matcher := m } : Bus).isOpen := hopen
  have hlimit' : ({ b with matcher := m } : Bus).exceeded? ctx.depth = none := hlimit
  have hfound := lookup_carrier hoperated hkeys hunheard
  cases hrow : b.registry.row (.named .dead) with
  | nil =>
    have hnone : b.registry.lookup Matcher.carrierKeys = [] := by simp [hfound, hrow]
    have hd := (Bus.publish_of_unheard hopen' hlimit' hcarrier hnone).trans
      (Bus.deliverUnheard_of_decided (e := .dead e) (fun _ => rfl) m')
    refine ⟨_, ⟨hagain.trans hd, ?_, Or.inl ⟨?_, ?_⟩⟩, hd⟩
    · rw [hnone]
    · simp [hpolicy]
    · simp [Bus.Shows, hpolicy, hrow]
  | cons sub subs =>
    have hheard : b.registry.lookup Matcher.carrierKeys ≠ [] := by simp [hfound, hrow]
    have hd := Bus.publish_of_heard (e := .dead e) hopen' hlimit' hcarrier hheard
    refine ⟨_, ⟨hagain.trans hd, rfl, ?_⟩, hd⟩
    cases hlogging : b.config.enableLogging with
    | false => exact Or.inl ⟨by simp [Bus.deliver, hlogging], by simp [Bus.Shows, hpolicy, hlogging]⟩
    | true =>
      have htells := tells_publishing e ctx.depth Matcher.carrierKeys.length
        (b.registry.lookup Matcher.carrierKeys).length
      exact Or.inr ⟨_, by simp [Bus.deliver, hlogging], by simp [Bus.Shows, hpolicy, hlogging, halive, hrow], htells⟩

end Unheard

section Publishing

variable {event : Event} {r : Resolution} {d : Dispatch}

private theorem Settled.publishOn (hs : s.Reachable) (hb : s.buses.get? b.id = some b) (hnodup : r.keys.Nodup)
    (h : Settled s ctx b e event r d) (hshown : s.tracing → b.Shows e → ∃ text, e.debug = .ok text) :
    ∃ s₁, (s.putBus { b with matcher := d.matcher }).Aside s₁ ∧
      d.notice.elim (.ok (s.putBus { b with matcher := d.matcher }))
        (s.putBus { b with matcher := d.matcher }).announce = .ok s₁ ∧
      s.publishOn ctx b e = ((s₁.schedule ctx b.id d.plan).1, .ok (s₁.schedule ctx b.id d.plan).2) ∧
      s.Delivers ctx b.id event ((b.registry.lookup r).map Prod.fst) (s₁.schedule ctx b.id d.plan).1
        (s₁.schedule ctx b.id d.plan).2 := by
  obtain ⟨s₁, hannounced⟩ : ∃ s₁, d.notice.elim (.ok (s.putBus { b with matcher := d.matcher }))
      (s.putBus { b with matcher := d.matcher }).announce = .ok s₁ := by
    rcases h.notice with ⟨hnone, -⟩ | ⟨n, hn, hshows, htells⟩
    · rw [hnone]
      exact ⟨_, rfl⟩
    · rw [hn]
      exact announce_of_tells htells fun htracing => hshown htracing hshows
  have haside := aside_announced hannounced
  exact ⟨s₁, haside, hannounced, publishOn_of_plan h.decided hannounced,
    delivers_of_plan hs.proper hs.balanced hb (hs.bus_sound hb).registry h.decided haside hnodup h.plan⟩

private theorem Settled.crash (h : Settled s ctx b e event r d) (htracing : s.tracing) (hshows : b.Shows e) {c : Crash}
    (hc : e.debug = .error c) : (s.publishOn ctx b e).2 = .error c := by
  rcases h.notice with ⟨-, hhidden⟩ | ⟨n, hn, -, htells⟩
  · exact absurd hshows hhidden
  · have hcrash := announce_of_unprintable (s := s.putBus { b with matcher := d.matcher }) htells htracing hc
    simp only [Session.publishOn, h.decided, hn, Option.elim_some, hcrash]

end Publishing

/-- In any state that can be reached, a publish of whatever event goes through one round or two. On an open bus that is
not too deep, an event that nobody hears is invoked for nobody and delivered with no value, unless the bus republishes
and the event is no carrier: then it is delivered as what it is carried by, once to each subscription that listens
to carriers and to no other, just as if the carrier had been published at this place. Only if somebody who traces is
shown the event and it cannot be rendered, the publish crashes. -/
theorem unheard_events (hs : s.Reachable) (hb : s.buses.get? b.id = some b) (ctx : Context) (e : Event) :
    (∃ rounds ≤ 2, (e.isDead → rounds = 1) ∧ ∀ n result,
      Bus.Dispatches s.hierarchy.declared ctx.depth n b e result ↔
        n = rounds ∧ result = b.publish s.hierarchy.declared ctx.depth e) ∧
    ∀ r m, b.isOpen → b.exceeded? ctx.depth = none → b.matcher.keysFor s.hierarchy.declared e.cls = .ok (r, m) →
      (∀ k ∈ r.keys, b.registry.row k = []) →
      (s.tracing → b.Shows e → ∀ c, e.debug = .error c → (s.publishOn ctx b e).2 = .error c) ∧
      ((s.tracing → b.Shows e → ∃ text, e.debug = .ok text) → ∃ s' p, s.publishOn ctx b e = (s', .ok p) ∧
        ((b.config.deadEvents = .republish → e.isDead) → s.Delivers ctx b.id e [] s' p ∧
          ∀ s'', Transitions s' s'' → ∃ q, s''.publications.get? p = some q ∧ q.result? = some (.ok ⟨0, none⟩)) ∧
        (b.config.deadEvents = .republish → e.isDead = false →
          s.Delivers ctx b.id (.dead e) (b.registry.row (.named .dead)) s' p ∧
          (s.putBus { b with matcher := m }).publishOn ctx { b with matcher := m } (.dead e) = (s', .ok p))) := by
  refine ⟨Bus.exists_rounds s.hierarchy.declared ctx.depth b e, ?_⟩
  intro r m hopen hlimit hkeys hunheard
  have hoperated := hs.operated _ b hb
  have hnodup : r.keys.Nodup := (Matcher.keysFor_sound (hs.bus_sound hb).matcher hkeys).1
  by_cases hpolicy : b.config.deadEvents = .republish ∧ e.isDead = false
  · obtain ⟨hpolicy, halive⟩ := hpolicy
    obtain ⟨d, hsettled, hcarrier⟩ := settled_of_carried hoperated hopen hlimit hkeys hunheard hpolicy halive
    refine ⟨fun htracing hshows c hc => hsettled.crash htracing hshows hc, fun hshown => ?_⟩
    obtain ⟨s₁, -, hannounced, hpublish, hdelivers⟩ := hsettled.publishOn hs hb (by decide) hshown
    refine ⟨_, _, hpublish, fun hkept => ?_, fun _ _ => ⟨?_, ?_⟩⟩
    · simp [hkept hpolicy] at halive
    · have hsubs : (b.registry.lookup Matcher.carrierKeys).map Prod.fst = b.registry.row (.named .dead) := by
        simp [lookup_carrier hoperated hkeys hunheard, Function.comp_def]
      rw [hsubs] at hdelivers
      exact hdelivers
    · have hput : (s.putBus { b with matcher := m }).putBus { b with matcher := d.matcher }
          = s.putBus { b with matcher := d.matcher } := by
        simp only [putBus, Table.put_put]
      have hcarrier' : ({ b with matcher := m } : Bus).publish (s.putBus { b with matcher := m }).hierarchy.declared
          ctx.depth (.dead e) = .ok d := hcarrier
      apply publishOn_of_plan hcarrier'
      rw [hput]
      exact hannounced
  · have hkept : b.config.deadEvents = .republish → e.isDead := by
      intro hrepublish
      by_contra halive
      exact hpolicy ⟨hrepublish, by simpa using halive⟩
    obtain ⟨d, hsettled⟩ := settled_of_kept hopen hlimit hkeys hunheard hkept
    refine ⟨fun htracing hshows c hc => hsettled.crash htracing hshows hc, fun hshown => ?_⟩
    obtain ⟨s₁, -, -, hpublish, hdelivers⟩ := hsettled.publishOn hs hb hnodup hshown
    rw [lookup_of_unheard hunheard] at hdelivers
    refine ⟨_, _, hpublish, fun _ => ⟨hdelivers, fun _ => hdelivers.nobody⟩, fun hrepublish halive => ?_⟩
    exact absurd ⟨hrepublish, halive⟩ hpolicy

/-- A bus that republishes. Its only listener listens to carriers. -/
private def watched : Session :=
  let s := ((start false).perform .outermost (.openBus "bus" .default [.deadEvents .republish])).1
  let s := (s.perform .outermost (.object "listener" "Listener" true .idle [])).1
  (s.perform .outermost (.subscribe "bus" "listener" (.shared .dead) none)).1

private def watchedBus : Bus :=
  (watched.buses.get? 1).getD ⟨0, .default, false, .empty, .empty⟩

theorem carrier_is_heard : ∃ s' p,
    watched.publishOn .outermost watchedBus (watched.hierarchy.value (.simple 0) 7 "" false) = (s', .ok p) ∧
      ∃ id i, s'.invocations.get? id = some i ∧ i.publication = p ∧
        i.event = .dead (watched.hierarchy.value (.simple 0) 7 "" false) ∧ i.context.depth = 1 := by
  have hreachable : watched.Reachable := ⟨false, .tail (.tail (.single (.perform ..)) (.perform ..)) (.perform ..)⟩
  obtain ⟨sub, hsub⟩ : ∃ sub, sub ∈ watchedBus.registry.row (.named .dead) :=
    List.exists_mem_of_length_pos (by decide)
  have hbus : watched.buses.get? watchedBus.id = some watchedBus := rfl
  obtain ⟨-, hunheard⟩ := unheard_events hreachable hbus .outermost (watched.hierarchy.value (.simple 0) 7 "" false)
  obtain ⟨-, hpublished⟩ := hunheard _ _ rfl (by decide) rfl (by decide)
  obtain ⟨s', p, hpublish, -, hcarried⟩ := hpublished fun _ _ => ⟨_, rfl⟩
  obtain ⟨hdelivers, -⟩ := hcarried rfl rfl
  obtain ⟨id, ⟨i, hi, hpub, -⟩, -⟩ := hdelivers.once sub hsub
  have hnew : watched.issued < id := by
    by_contra hold
    rw [hdelivers.kept id (Nat.le_of_not_lt hold)] at hi
    cases hi
  obtain ⟨-, -, hevent, -, -, hdepth, -⟩ := hdelivers.only id i hi hnew
  exact ⟨s', p, hpublish, id, i, hi, hpub, hevent, hdepth⟩

/-- A bus that logs what nobody hears, while somebody traces. -/
private def traced : Session :=
  ((start true).perform .outermost (.openBus "bus" .default [.deadEvents .log])).1

private def tracedBus : Bus :=
  (traced.buses.get? 1).getD ⟨0, .default, false, .empty, .empty⟩

/-- Then the publish of an event that cannot be rendered crashes. -/
theorem unrendered_is_not_ignored : traced.Reachable ∧ traced.buses.get? tracedBus.id = some tracedBus ∧
    tracedBus.isOpen ∧ tracedBus.config.deadEvents = .log ∧ tracedBus.exceeded? Context.outermost.depth = none ∧
    (∀ k, tracedBus.registry.row k = []) ∧
    (traced.publishOn .outermost tracedBus (traced.hierarchy.value (.simple 0) 1 "" true)).2 = .error .unprintable :=
  ⟨⟨true, .single (.perform ..)⟩, rfl, rfl, rfl, rfl, fun _ => rfl, rfl⟩

end Session
end PubSub
