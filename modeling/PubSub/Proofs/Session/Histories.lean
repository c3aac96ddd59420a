import PubSub.Proofs.Session.Proper

/-!
# Histories

How buses, invocations and publications live on from move to move: buses change in the ways of buses, invocations keep
what they are about and only get on with it, and publications only gather outcomes. A publication always waits for just
the outcomes of its invocations that have not ended.
-/

namespace PubSub

/-- The same invocation, at another stage. -/
def Invocation.Continues (i i' : Invocation) : Prop :=
  ∃ stage parked, i' = { i with stage := stage, parked := parked }

namespace Invocation

theorem Continues.refl (i : Invocation) : i.Continues i :=
  ⟨i.stage, i.parked, rfl⟩

theorem Continues.trans {i j k : Invocation} (h : i.Continues j) (h' : j.Continues k) : i.Continues k := by
  obtain ⟨stage, parked, rfl⟩ := h
  obtain ⟨stage', parked', rfl⟩ := h'
  exact ⟨stage', parked', rfl⟩

theorem Continues.symm {i j : Invocation} (h : i.Continues j) : j.Continues i := by
  obtain ⟨stage, parked, rfl⟩ := h
  exact ⟨i.stage, i.parked, rfl⟩

theorem Continues.context {i i' : Invocation} (h : i.Continues i') : i'.context = i.context := by
  obtain ⟨stage, parked, rfl⟩ := h
  rfl

theorem Continues.publication {i i' : Invocation} (h : i.Continues i') : i'.publication = i.publication := by
  obtain ⟨stage, parked, rfl⟩ := h
  rfl

theorem Continues.bus {i i' : Invocation} (h : i.Continues i') : i'.bus = i.bus := by
  obtain ⟨stage, parked, rfl⟩ := h
  rfl

theorem Continues.origin {i i' : Invocation} (h : i.Continues i') : i'.origin = i.origin := by
  obtain ⟨stage, parked, rfl⟩ := h
  rfl

theorem Continues.caller {i i' : Invocation} (h : i.Continues i') : i'.caller = i.caller := by
  obtain ⟨stage, parked, rfl⟩ := h
  rfl

theorem continues_goOn (i : Invocation) (p : Behaviour) : i.Continues (i.goOn p) := by
  simp only [goOn]
  split
  · exact ⟨.deferring p, false, rfl⟩
  all_goals exact ⟨.calling p, false, rfl⟩

theorem continues_park (i : Invocation) (ticket : Nat) : i.Continues (i.park ticket) := by
  simp only [park]
  split
  · exact ⟨.queued ticket, true, rfl⟩
  all_goals exact ⟨i.stage, true, rfl⟩

end Invocation

/-- The same publication, with more ends; if it was awaited in between, that was after those that it had. -/
structure Publication.Continues (p p' : Publication) : Prop where
  refusal : p'.refusal = p.refusal
  scheduled : p'.scheduled = p.scheduled
  ends : p.ends <+: p'.ends
  early : p'.early = p.early ∨ (p.early = none ∧ ∃ n, p.ends.length ≤ n ∧ p'.early = some n)

namespace Publication

theorem Continues.refl (p : Publication) : p.Continues p :=
  ⟨rfl, rfl, List.prefix_rfl, Or.inl rfl⟩

theorem Continues.trans {p q r : Publication} (h : p.Continues q) (h' : q.Continues r) : p.Continues r where
  refusal := h'.refusal.trans h.refusal
  scheduled := h'.scheduled.trans h.scheduled
  ends := h.ends.trans h'.ends
  early := by
    rcases h.early with hsame | ⟨hnone, n, hn, hsome⟩
    · rcases h'.early with hsame' | ⟨hnone, n, hn, hsome⟩
      · exact Or.inl (hsame'.trans hsame)
      · exact Or.inr ⟨hsame.symm.trans hnone, n, Nat.le_trans h.ends.length_le hn, hsome⟩
    · rcases h'.early with hsame' | ⟨hnone', -⟩
      · exact Or.inr ⟨hnone, n, hn, hsame'.trans hsome⟩
      · rw [hsome] at hnone'
        cases hnone'

theorem continues_add (p : Publication) (id : Nat) (o : Outcome) : p.Continues (p.add id o) :=
  ⟨rfl, rfl, List.prefix_append .., Or.inl rfl⟩

theorem continues_await (p : Publication) : p.Continues p.await where
  refusal := rfl
  scheduled := rfl
  ends := List.prefix_rfl
  early := by
    cases hearly : p.early with
    | none => exact Or.inr ⟨rfl, p.ends.length, Nat.le_refl _, by simp [await, hearly]⟩
    | some n => exact Or.inl (by simp [await, hearly])

theorem continues_leave (p : Publication) : p.Continues p.leave :=
  ⟨rfl, rfl, List.prefix_rfl, Or.inl rfl⟩

theorem Continues.outcomes {p p' : Publication} (h : p.Continues p') : p.outcomes <+: p'.outcomes :=
  h.ends.map Prod.snd

theorem Continues.observed {p p' : Publication} (h : p.Continues p') (hlength : p'.ends.length ≤ p.ends.length) :
    p'.observed = p.observed := by
  have hends : p'.ends = p.ends := (h.ends.eq_of_length_le hlength).symm
  rcases h.early with hsame | ⟨hnone, n, hn, hsome⟩
  · simp only [Publication.observed, hends, hsame]
  · simp [Publication.observed, hends, hnone, hsome, List.take_of_length_le hn, List.drop_eq_nil_of_le hn]

theorem result?_await (p : Publication) : p.await.result? = p.result? := by
  have hobserved : p.await.observed = p.observed := p.continues_await.observed (Nat.le_refl _)
  simp only [result?, hobserved]
  rfl

end Publication

theorem Bus.Sound.changes {b b' : Bus} (hb : b.Sound) (h : b.Changes b') : b'.Sound := by
  cases h with
  | subscribed h => exact hb.subscribe h
  | unsubscribed h => exact hb.unsubscribe h
  | closed => exact hb.close
  | looked h => exact (hb.keysFor h).2
  | published h => exact hb.publish h

namespace Session

variable {s s' : Session}

/-- What a publish does: it takes the next identity for a publication and the following ones for its invocations. -/
structure Publishing (ctx : Context) (s s' : Session) (publication : Nat) : Prop where
  fresh : s.issued < publication
  issued : publication ≤ s'.issued
  bus : ∀ id b', s'.buses.get? id = some b' → s.buses.get? id = some b' ∨ ∃ b, s.buses.get? id = some b ∧ b.Changes b'
  kept : ∀ id, id ≤ s.issued → s'.invocations.get? id = s.invocations.get? id
  invoked : ∀ id i, s'.invocations.get? id = some i → s.issued < id →
    i.publication = publication ∧ i.origin = ctx ∧ i.stage = .fresh ∧
      ∃ b k, s.buses.get? i.bus = some b ∧ i.subscription ∈ b.registry.row k
  addressed : ∀ id i, s'.invocations.get? id = some i → s.issued < id → i.address = s.address i.caller
  publications : ∀ id, id ≠ publication → s'.publications.get? id = s.publications.get? id
  opened : ∃ p, s'.publications.get? publication = some p ∧ p.ends = [] ∧
    (∀ error, p.refusal = some error → error.isRefusal ∧ p.scheduled = 0) ∧
    ∀ q, s'.invocations.tally (·.publication = q)
      = s.invocations.tally (·.publication = q) + if publication = q then p.scheduled else 0

section Publishing

variable {ctx : Context} {s₁ : Session} (hs : s.InvocationsIssued) (hissued : s.issued ≤ s₁.issued)
  (hinvocations : s₁.invocations = s.invocations) (hpublications : s₁.publications = s.publications)
  (hbus : ∀ id b', s₁.buses.get? id = some b' →
    s.buses.get? id = some b' ∨ ∃ b, s.buses.get? id = some b ∧ b.Changes b')
include hs hissued hinvocations hpublications hbus

private theorem publishing_refuse {error : PublishError} (h : error.isRefusal) :
    s.Publishing ctx (s₁.refuse error).1 (s₁.issued + 1) := by
  have hold (id : Nat) (i : Invocation) (hi : (s₁.refuse error).1.invocations.get? id = some i) :
      ¬ s.issued < id := by
    rw [show (s₁.refuse error).1.invocations = s.invocations from hinvocations] at hi
    exact Nat.not_lt.2 (hs id i hi)
  refine ⟨Nat.lt_succ_of_le hissued, Nat.le_refl _, hbus, ?_, ?_, ?_, ?_, ?_⟩
  · intro id hid
    show s₁.invocations.get? id = _
    rw [hinvocations]
  · exact fun id i hi hnew => absurd hnew (hold id i hi)
  · exact fun id i hi hnew => absurd hnew (hold id i hi)
  · intro id hne
    refine ((Table.get?_put ..).trans (if_neg hne)).trans ?_
    show s₁.publications.get? id = _
    rw [hpublications]
  · refine ⟨.refused error, (Table.get?_put ..).trans (if_pos rfl), rfl, ?_, ?_⟩
    · intro error' he
      obtain rfl := Option.some.inj he
      exact ⟨h, rfl⟩
    intro q
    rw [show (s₁.refuse error).1.invocations = s.invocations from hinvocations]
    simp [Publication.refused]

private theorem publishing_schedule (hs₁ : s₁.InvocationsIssued) {bus : Nat} {event : Event}
    {ts : List (Subscription × Option View)} (haddresses : s₁.addresses = s.addresses)
    (hts : ∀ t ∈ ts, ∃ b k, s.buses.get? bus = some b ∧ t.1 ∈ b.registry.row k) :
    s.Publishing ctx (s₁.schedule ctx bus (.scheduled event ts)).1 (s₁.issued + 1) := by
  obtain ⟨hbuses, -, -, hn⟩ := schedule_frame ctx bus event s₁ ts
  have hnew (id : Nat) (i : Invocation)
      (hi : (s₁.schedule ctx bus (.scheduled event ts)).1.invocations.get? id = some i) (hid : s.issued < id) :
      ∃ t ∈ ts, i = invocation ctx bus (s₁.issued + 1) event s₁ t := by
    rw [get?_schedule hs₁] at hi
    split at hi
    · rw [hinvocations] at hi
      exact absurd (hs id i hi) (Nat.not_le.2 hid)
    · obtain ⟨t, ht, rfl⟩ := Option.map_eq_some_iff.1 hi
      exact ⟨t, List.mem_of_getElem? ht, rfl⟩
  refine ⟨Nat.lt_succ_of_le hissued, hn ▸ Nat.le_add_right .., hbuses ▸ hbus, ?_, ?_, ?_, ?_, ?_⟩
  · intro id hid
    rw [get?_schedule hs₁, if_pos (by omega), hinvocations]
  · intro id i hi hid
    obtain ⟨t, ht, rfl⟩ := hnew id i hi hid
    exact ⟨rfl, rfl, rfl, hts t ht⟩
  · intro id i hi hid
    obtain ⟨t, -, rfl⟩ := hnew id i hi hid
    simp only [invocation, Invocation.caller, address, haddresses]
  · intro id hne
    rw [get?_publications_schedule, if_neg hne, hpublications]
  · refine ⟨.underWay ts.length, ?_, rfl, by simp [Publication.underWay], ?_⟩
    · rw [get?_publications_schedule, if_pos rfl]
    · intro q
      rw [tally_schedule hs₁, hinvocations]
      rfl

end Publishing

theorem publishing_of_publishes (hs : s.Proper) {ctx : Context} {publication : Nat}
    (h : s.Publishes ctx s' publication) :
    s.Publishing ctx s' publication := by
  cases h with
  | refused h => exact publishing_refuse hs.issued (Nat.le_refl _) rfl rfl (fun _ _ hb => Or.inl hb) h
  | @planned b e d s₁ hb hd haside =>
    have hput := hs.putBus (b := { b with matcher := d.matcher }) (hs.bus _ _ hb).2
    have hs₁ := hput.aside haside
    have hbus : ∀ id b', s₁.buses.get? id = some b' →
        s.buses.get? id = some b' ∨ ∃ b, s.buses.get? id = some b ∧ b.Changes b' := by
      intro id b' hb'
      rw [haside.buses] at hb'
      simp only [putBus, Table.get?_put] at hb'
      split at hb'
      · have hid : id = b.id := ‹_›
        obtain rfl := Option.some.inj hb'
        exact Or.inr ⟨b, hid ▸ hb, .published hd⟩
      · exact Or.inl hb'
    cases hplan : d.plan with
    | refused error =>
      have hrefusal := Bus.isRefusal_of_publish hd hplan
      exact publishing_refuse hs.issued haside.issued haside.invocations haside.publications hbus hrefusal
    | scheduled event ts =>
      refine publishing_schedule hs.issued haside.issued haside.invocations haside.publications hbus hs₁.issued
        haside.addresses ?_
      intro t ht
      obtain ⟨k, hk⟩ := Bus.mem_row_of_publish hd hplan t ht
      exact ⟨b, k, hb, hk⟩

theorem Publishing.invocation {ctx : Context} {publication : Nat} (h : s.Publishing ctx s' publication) {id : Nat}
    {i : Invocation} (hi : s'.invocations.get? id = some i) :
    s.invocations.get? id = some i ∨ (s.issued < id ∧ i.stage = .fresh) := by
  by_cases hid : id ≤ s.issued
  · exact Or.inl ((h.kept id hid).symm.trans hi)
  · exact Or.inr ⟨by omega, (h.invoked id i hi (by omega)).2.2.1⟩

theorem invocation_of_finish {id₀ id : Nat} {i₀ i : Invocation} {o : Outcome}
    (hi : (s.finish id₀ i₀ o).invocations.get? id = some i) : s.invocations.get? id = some i := by
  rw [(finish_frame s id₀ i₀ o).2.2.2.1, Table.get?_erase] at hi
  split at hi
  · cases hi
  · exact hi

theorem invocation_of_effect (h : Effect s s') {id : Nat} {i : Invocation} (hi : s'.invocations.get? id = some i) :
    s.invocations.get? id = some i := by
  cases h with
  | aside h => exact h.invocations ▸ hi
  | declared | opened | changed | flagged => exact hi
  | interrupted => exact invocation_of_finish hi

theorem invocation_of_progress (hs : s.Proper) {id₀ : Nat} (h : Progress id₀ s s') {id : Nat} (hne : id ≠ id₀)
    {i : Invocation} (hi : s'.invocations.get? id = some i) :
    s.invocations.get? id = some i ∨ (s.issued < id ∧ i.stage = .fresh) := by
  have hother {s₁ : Session} {i₀ : Invocation} (h : (s₁.putInvocation id₀ i₀).invocations.get? id = some i) :
      s₁.invocations.get? id = some i := by
    rw [← h, putInvocation, Table.get?_put, if_neg hne]
  cases h with
  | parked | called | wentOn | left | awaited => exact Or.inl (hother hi)
  | published _ _ h => exact (publishing_of_publishes hs h).invocation (hother hi)
  | finished => exact Or.inl (invocation_of_finish hi)

section Rest

theorem rest_of_publishes {ctx : Context} {publication : Nat} (h : s.Publishes ctx s' publication) :
    s'.tracing = s.tracing ∧ s'.addresses = s.addresses := by
  cases h with
  | refused => exact ⟨rfl, rfl⟩
  | @planned b e d s₁ _ _ haside =>
    cases hplan : d.plan with
    | refused error => exact ⟨haside.tracing, haside.addresses⟩
    | scheduled event ts =>
      obtain ⟨-, haddresses, htracing, -⟩ := schedule_frame ctx b.id event s₁ ts
      exact ⟨htracing.trans haside.tracing, haddresses.trans haside.addresses⟩

theorem rest_of_progress {id : Nat} (h : Progress id s s') : s'.tracing = s.tracing ∧ s'.addresses = s.addresses := by
  cases h with
  | parked | called | wentOn | left | awaited => exact ⟨rfl, rfl⟩
  | published _ _ h =>
    obtain ⟨htracing, haddresses⟩ := rest_of_publishes h
    exact ⟨htracing, haddresses⟩
  | finished => exact finish_rest ..

theorem tracing_of_effect (h : Effect s s') : s'.tracing = s.tracing := by
  cases h with
  | aside h => exact h.tracing
  | declared | opened | changed | flagged => rfl
  | interrupted => exact (finish_rest ..).1

theorem tracing_of_effects (h : Effects s s') : s'.tracing = s.tracing := by
  induction h with
  | refl => rfl
  | tail _ h ih => exact (tracing_of_effect h).trans ih

theorem tracing_of_moves (h : Moves s s') : s'.tracing = s.tracing := by
  induction h with
  | refl => rfl
  | tail _ h ih =>
    refine Eq.trans ?_ ih
    cases h with
    | effect h => exact tracing_of_effect h
    | publish h => exact (rest_of_publishes h).1
    | progress id h => exact (rest_of_progress h).1

end Rest

/-- What a move leaves of a session, and what it makes of it at some place. -/
structure Carries (ctx : Context) (s s' : Session) : Prop where
  issued : s.issued ≤ s'.issued
  bus : ∀ id b', s'.buses.get? id = some b' → s.buses.get? id = some b' ∨
    (∃ b, s.buses.get? id = some b ∧ b.Changes b') ∨ (s.issued < id ∧ ∃ config, Bus.start id config = .ok b')
  invocation : ∀ id i', s'.invocations.get? id = some i' →
    (∃ i, s.invocations.get? id = some i ∧ i.Continues i') ∨
      (s.issued < id ∧ s.issued < i'.publication ∧ i'.stage = .fresh ∧ i'.origin = ctx ∧
        ∃ b k, s.buses.get? i'.bus = some b ∧ i'.subscription ∈ b.registry.row k)
  publication : ∀ id p, s.publications.get? id = some p → ∃ p', s'.publications.get? id = some p' ∧ p.Continues p'

namespace Carries

variable {ctx : Context}

theorem aside (h : s.Aside s') : s.Carries ctx s' where
  issued := h.issued
  bus _ _ hb' := Or.inl (h.buses ▸ hb')
  invocation _ i' hi' := Or.inl ⟨i', h.invocations ▸ hi', .refl i'⟩
  publication _ p hp := ⟨p, h.publications ▸ hp, .refl p⟩

theorem refl (s : Session) : s.Carries ctx s :=
  aside (.rest ..)

theorem putInvocation (h : s.Carries ctx s') {id : Nat} (hid : id ≤ s.issued) {i i' : Invocation}
    (hi : s'.invocations.get? id = some i) (hc : i.Continues i') : s.Carries ctx (s'.putInvocation id i') where
  issued := h.issued
  bus := h.bus
  publication := h.publication
  invocation id' j hj := by
    simp only [Session.putInvocation, Table.get?_put] at hj
    split at hj
    · obtain rfl : id' = id := ‹_›
      obtain rfl := Option.some.inj hj
      rcases h.invocation id' i hi with ⟨i₀, hi₀, hc₀⟩ | hnew
      · exact Or.inl ⟨i₀, hi₀, hc₀.trans hc⟩
      · exact absurd hnew.1 (Nat.not_lt.2 hid)
    · exact h.invocation id' j hj

private theorem putPublication (s : Session) {id : Nat} {p p' : Publication} (hp : s.publications.get? id = some p)
    (hc : p.Continues p') : s.Carries ctx (s.putPublication id p') where
  issued := Nat.le_refl _
  bus id b' hb' := Or.inl hb'
  invocation id i' hi' := Or.inl ⟨i', hi', .refl i'⟩
  publication id' q hq := by
    simp only [Session.putPublication, Table.get?_put]
    split
    · obtain rfl : id' = id := ‹_›
      obtain rfl := Option.some.inj (hp.symm.trans hq)
      exact ⟨p', rfl, hc⟩
    · exact ⟨q, hq, .refl q⟩

private theorem finish (s : Session) (id : Nat) (i : Invocation) (o : Outcome) :
    s.Carries ctx (s.finish id i o) := by
  obtain ⟨-, hn, hb, hi, hp⟩ := finish_frame s id i o
  refine ⟨Nat.le_of_eq hn.symm, fun id b' hb' => Or.inl (hb ▸ hb'), ?_, ?_⟩
  · intro id' i' hi'
    rw [hi, Table.get?_erase] at hi'
    split at hi'
    · cases hi'
    · exact Or.inl ⟨i', hi', .refl i'⟩
  · intro q p hq
    rw [hp]
    cases hown : s.publications.get? i.publication with
    | none => exact ⟨p, hq, .refl p⟩
    | some p₀ =>
      have hput : s.Carries ctx (s.putPublication i.publication (p₀.add id o)) :=
        putPublication s hown (p₀.continues_add id o)
      exact hput.publication q p hq

private theorem publishing {publication : Nat} (hs : s.Proper) (h : s.Publishing ctx s' publication) :
    s.Carries ctx s' where
  issued := Nat.le_of_lt (Nat.lt_of_lt_of_le h.fresh h.issued)
  bus id b' hb' := (h.bus id b' hb').imp_right Or.inl
  invocation id i' hi' := by
    by_cases hid : id ≤ s.issued
    · rw [h.kept id hid] at hi'
      exact Or.inl ⟨i', hi', .refl i'⟩
    · obtain ⟨hpub, horigin, hstage, hsub⟩ := h.invoked id i' hi' (by omega)
      exact Or.inr ⟨by omega, hpub ▸ h.fresh, hstage, horigin, hsub⟩
  publication id p hp := by
    have hne : id ≠ publication := by
      have := hs.publication id p hp
      have := h.fresh
      omega
    exact ⟨p, (h.publications id hne).trans hp, .refl p⟩

private theorem putBus (h : s.Carries ctx s') {b' : Bus} (hc : (∃ b, s.buses.get? b'.id = some b ∧ b.Changes b') ∨
    (s.issued < b'.id ∧ ∃ config, Bus.start b'.id config = .ok b')) : s.Carries ctx (s'.putBus b') where
  issued := h.issued
  bus id b hb := by
    simp only [Session.putBus, Table.get?_put] at hb
    split at hb
    · obtain rfl : id = b'.id := ‹_›
      obtain rfl := Option.some.inj hb
      exact Or.inr hc
    · exact h.bus id b hb
  invocation := h.invocation
  publication := h.publication

theorem effect (h : Effect s s') : s.Carries ctx s' := by
  cases h with
  | aside h => exact .aside h
  | declared later => exact ⟨Nat.le_refl _, fun _ _ hb => Or.inl hb, fun _ i hi => Or.inl ⟨i, hi, .refl i⟩,
      fun _ p hp => ⟨p, hp, .refl p⟩⟩
  | @opened config b h =>
    have hid : b.id = s.issue.2 := Bus.id_of_start h
    have hissue : s.Carries ctx s.issue.1 := .aside (aside_issue s)
    exact hissue.putBus (Or.inr ⟨hid ▸ Nat.lt_succ_self _, config, hid ▸ h⟩)
  | @changed b b' _ hb h _ =>
    have hput : s.Carries ctx (s.putBus b') := (refl s).putBus (Or.inl ⟨b, Bus.id_eq_of_changes h ▸ hb, h⟩)
    exact ⟨hput.issued, hput.bus, hput.invocation, hput.publication⟩
  | @flagged id p p' hp hp' =>
    refine putPublication s hp ?_
    rcases hp' with rfl | rfl
    · exact p.continues_await
    · exact p.continues_leave
  | interrupted => exact finish ..

theorem publishes (hs : s.Proper) {publication : Nat} (h : s.Publishes ctx s' publication) : s.Carries ctx s' :=
  publishing hs (publishing_of_publishes hs h)

theorem progress (hs : s.Proper) {id : Nat} {i : Invocation} (hi : s.invocations.get? id = some i)
    (h : Progress id s s') : s.Carries i.context s' := by
  have hid := hs.issued id i hi
  cases h with
  | parked hi' h =>
    have hissue : s.Carries i.context s.issue.1 := .aside (aside_issue s)
    exact hissue.putInvocation hid hi' (Invocation.continues_park ..)
  | called hi' _ _ _ => exact (refl s).putInvocation hid hi' (Invocation.continues_goOn ..)
  | wentOn hi' _ _ => exact (refl s).putInvocation hid hi' (Invocation.continues_goOn ..)
  | @left i' rest hi' _ => exact (refl s).putInvocation hid hi' ⟨.deferring rest, false, rfl⟩
  | awaited hi' _ _ _ => exact (refl s).putInvocation hid hi' (Invocation.continues_goOn ..)
  | @published s₁ i' _ _ _ _ hi' _ h =>
    obtain rfl := Option.some.inj (hi.symm.trans hi')
    have hi₁ : s₁.invocations.get? id = some i := (hs.get?_of_publishes h hid).trans hi
    exact (publishes hs h).putInvocation hid hi₁ (i.continues_goOn _)
  | finished hi' o => exact finish ..

theorem move (hs : s.Proper) (h : Move s s') : ∃ ctx, s.Carries ctx s' := by
  cases h with
  | effect h => exact ⟨.outermost, effect h⟩
  | publish h => exact ⟨_, publishes hs h⟩
  | progress id h =>
    obtain ⟨i, hi⟩ := h.exists_invocation
    exact ⟨_, progress hs hi h⟩

end Carries

/-- What all that comes later keeps of a session, as far as it is done at certain places: who was there goes on or is
gone for good, and who is new was made at one of these places. -/
structure Extends (places : Context → Prop) (s s' : Session) : Prop where
  issued : s.issued ≤ s'.issued
  running : ∀ bus, bus ≤ s.issued → s'.isRunning bus → s.isRunning bus
  invocation : ∀ id i', s'.invocations.get? id = some i' → (∃ i, s.invocations.get? id = some i ∧ i.Continues i') ∨
    (s.issued < id ∧ s.issued < i'.publication ∧ places i'.origin)
  publication : ∀ id p, s.publications.get? id = some p → ∃ p', s'.publications.get? id = some p' ∧ p.Continues p'

namespace Extends

variable {places : Context → Prop} {s'' : Session}

theorem refl (s : Session) : s.Extends places s where
  issued := Nat.le_refl _
  running _ _ h := h
  invocation _ i hi := Or.inl ⟨i, hi, .refl i⟩
  publication _ p hp := ⟨p, hp, .refl p⟩

theorem trans (h : s.Extends places s') (h' : s'.Extends places s'') : s.Extends places s'' where
  issued := Nat.le_trans h.issued h'.issued
  running bus hbus hrunning := h.running bus hbus (h'.running bus (Nat.le_trans hbus h.issued) hrunning)
  invocation id i'' hi'' := by
    have hissued := h.issued
    rcases h'.invocation id i'' hi'' with ⟨i', hi', stage, parked, rfl⟩ | ⟨hid, hpub, horigin⟩
    · rcases h.invocation id i' hi' with ⟨i, hi, hc⟩ | hnew
      · exact Or.inl ⟨i, hi, hc.trans ⟨stage, parked, rfl⟩⟩
      · exact Or.inr hnew
    · exact Or.inr ⟨by omega, by omega, horigin⟩
  publication id p hp := by
    obtain ⟨p', hp', hc⟩ := h.publication id p hp
    obtain ⟨p'', hp'', hc'⟩ := h'.publication id p' hp'
    exact ⟨p'', hp'', hc.trans hc'⟩

theorem mono {wider : Context → Prop} (hwider : ∀ ctx, places ctx → wider ctx) (h : s.Extends places s') :
    s.Extends wider s' where
  issued := h.issued
  running := h.running
  invocation id i' hi' := (h.invocation id i' hi').imp_right fun hnew => ⟨hnew.1, hnew.2.1, hwider _ hnew.2.2⟩
  publication := h.publication

theorem carries {ctx : Context} (h : s.Carries ctx s') (hctx : places ctx) : s.Extends places s' where
  issued := h.issued
  running bus hbus hrunning := by
    simp only [isRunning, Option.any_eq_true] at hrunning ⊢
    obtain ⟨b', hb', hopen⟩ := hrunning
    rcases h.bus bus b' hb' with hb | ⟨b, hb, hchanges⟩ | ⟨hnew, -⟩
    · exact ⟨b', hb, hopen⟩
    · exact ⟨b, hb, Bus.isOpen_of_changes hchanges hopen⟩
    · omega
  invocation id i' hi' := by
    rcases h.invocation id i' hi' with hold | ⟨hid, hpub, -, horigin, -⟩
    · exact Or.inl hold
    · exact Or.inr ⟨hid, hpub, horigin ▸ hctx⟩
  publication := h.publication

theorem effects {ctx : Context} (h : Effects s s') : s.Extends (· = ctx) s' := by
  induction h with
  | refl => exact refl s
  | tail _ h ih => exact ih.trans (carries (.effect h) rfl)

theorem acts (hs : s.Proper) {ctx : Context} (h : s.Acts ctx s') : s.Extends (· = ctx) s' := by
  cases h with
  | calmly h => exact effects h
  | @publishing s₁ _ _ h haside =>
    have hmade : s.Extends (· = ctx) s₁ := carries (.publishes hs h) rfl
    exact hmade.trans (carries (.aside haside) rfl)

theorem progress (hs : s.Proper) {id : Nat} {i : Invocation} (hi : s.invocations.get? id = some i)
    (h : Progress id s s') : s.Extends (· = i.context) s' :=
  carries (.progress hs hi h) rfl

theorem moves (hs : s.Proper) (h : Moves s s') : s.Extends (fun _ => True) s' := by
  induction h with
  | refl => exact refl s
  | tail hprior h ih =>
    obtain ⟨ctx, hcarries⟩ := Carries.move (hs.moves hprior) h
    exact ih.trans (carries hcarries trivial)

end Extends

theorem forall_bus_of_moves {P : Bus → Prop} (hstart : ∀ id config b, Bus.start id config = .ok b → P b)
    (hchanges : ∀ b b', b.Changes b' → P b → P b') (hs : s.Proper) (hP : ∀ id b, s.buses.get? id = some b → P b)
    (h : Moves s s') : ∀ id b, s'.buses.get? id = some b → P b := by
  induction h with
  | refl => exact hP
  | tail hprior h ih =>
    intro id b' hb'
    obtain ⟨ctx, hcarries⟩ := Carries.move (hs.moves hprior) h
    rcases hcarries.bus id b' hb' with hb | ⟨b, hb, hc⟩ | ⟨-, config, hb⟩
    · exact ih id b' hb
    · exact hchanges b b' hc (ih id b hb)
    · exact hstart id config b' hb

/-- The invocations of a publication that has been made are those that it had. -/
theorem invocation_of_moves (hs : s.Proper) (h : Moves s s') {id : Nat} {i' : Invocation}
    (hi' : s'.invocations.get? id = some i') (hpub : i'.publication ≤ s.issued) :
    ∃ i, s.invocations.get? id = some i ∧ i.Continues i' := by
  rcases (Extends.moves hs h).invocation id i' hi' with hold | ⟨-, hnew, -⟩
  · exact hold
  · omega

theorem publication_of_moves (hs : s.Proper) (h : Moves s s') {id : Nat} {p : Publication}
    (hp : s.publications.get? id = some p) : ∃ p', s'.publications.get? id = some p' ∧ p.Continues p' :=
  (Extends.moves hs h).publication id p hp

end Session
end PubSub
