import PubSub.Proofs.Session.Accounting

/-!
# Exact delivery

A publish that someone hears is scheduled at once for the subscriptions that are there, one invocation each. What
subscribes or unsubscribes afterwards makes no difference to it.
-/

namespace PubSub.Session

variable {s s' : Session}

private theorem announced_of_deliver {b : Bus} {e : Event} {text : String} (he : e.debug = .ok text) (depth : Nat)
    (r : Resolution) (m : Matcher) (targets : List (Subscription × Option View)) :
    ∃ s', (b.deliver depth e r m targets).notice.elim (.ok s) s.announce = .ok s' := by
  simp only [Bus.deliver]
  split
  · rw [Option.elim_some]
    simp only [announce]
    split
    · refine ⟨s.report [.publishing e depth r.length targets.length], ?_⟩
      simp [Notice.line, Notice.fields, he, bind, Except.bind, pure, Except.pure, Except.map]
    · exact ⟨s, rfl⟩
  · exact ⟨s, rfl⟩

theorem publishOn_of_heard {b : Bus} (hopen : b.isOpen) {ctx : Context} (hlimit : b.exceeded? ctx.depth = none)
    {e : Event} {r : Resolution} {m : Matcher} (hkeys : b.matcher.keysFor s.hierarchy.declared e.cls = .ok (r, m))
    {text : String} (he : e.debug = .ok text) (hheard : b.registry.lookup r ≠ []) :
    ∃ s₁, (s.putBus { b with matcher := m }).Aside s₁ ∧ s.publishOn ctx b e =
      ((s₁.schedule ctx b.id (.scheduled e (b.registry.lookup r))).1, .ok (s₁.issued + 1)) := by
  have hd := Bus.publish_of_heard hopen hlimit hkeys hheard
  obtain ⟨s₁, hannounced⟩ := announced_of_deliver (s := s.putBus { b with matcher := m }) (b := b) he ctx.depth r m
    (b.registry.lookup r)
  refine ⟨s₁, aside_announced hannounced, ?_⟩
  have hmatcher : (b.deliver ctx.depth e r m (b.registry.lookup r)).matcher = m := rfl
  simp only [publishOn, hd, hmatcher, hannounced]
  rfl

variable {b : Bus} {r : Resolution}

theorem invocation_of_schedule {s₁ : Session} (hs : s₁.Proper) {ctx : Context} {e : Event}
    {ts : List (Subscription × Option View)} (id : Nat) (i : Invocation) :
    ((s₁.schedule ctx b.id (.scheduled e ts)).1.invocations.get? id = some i ∧ i.publication = s₁.issued + 1) ↔
      s₁.issued + 1 < id ∧ ∃ t, ts[id - (s₁.issued + 1) - 1]? = some t ∧
        i = invocation ctx b.id (s₁.issued + 1) e s₁ t := by
  rw [get?_schedule hs.issued]
  by_cases hid : id ≤ s₁.issued + 1
  · rw [if_pos hid]
    constructor
    · intro hmade
      rcases hmade with ⟨hi, hpub⟩
      obtain ⟨p, hp⟩ := hs.belongs id i hi
      have := hs.publication _ p hp
      omega
    · intro hmade
      rcases hmade with ⟨hlt, -⟩
      omega
  · rw [if_neg hid, Option.map_eq_some_iff]
    constructor
    · intro hmade
      rcases hmade with ⟨⟨t, ht, rfl⟩, -⟩
      exact ⟨by omega, t, ht, rfl⟩
    · intro hmade
      rcases hmade with ⟨-, t, ht, rfl⟩
      exact ⟨⟨t, ht, rfl⟩, rfl⟩

section Scheduled

variable {s₁ : Session} (hs₁ : s₁.Proper) (hregistry : b.registry.Sound) (hnodup : r.keys.Nodup)
variable {ctx : Context} {e : Event}
include hs₁ hregistry hnodup

theorem existsUnique_invocation {k : Key} (hk : k ∈ r.keys) {sub : Subscription}
    (hsub : sub ∈ b.registry.row k) :
    ∃! id, ∃ i, (s₁.schedule ctx b.id (.scheduled e (b.registry.lookup r))).1.invocations.get? id = some i ∧
      i.publication = s₁.issued + 1 ∧ i.subscription = sub := by
  obtain ⟨⟨k, v⟩, hv, rfl⟩ := List.mem_map.1 hk
  obtain ⟨j, hj⟩ := List.mem_iff_getElem?.1 ((Registry.mem_lookup ..).2 ⟨k, hv, hsub⟩)
  have hindex : s₁.issued + 2 + j - (s₁.issued + 1) - 1 = j := by omega
  refine ⟨s₁.issued + 2 + j, ?_, ?_⟩
  · obtain ⟨hi, hpub⟩ := (invocation_of_schedule hs₁ (s₁.issued + 2 + j) _).2
      ⟨by omega, (sub, v), by rw [hindex, hj], rfl⟩
    exact ⟨_, hi, hpub, rfl⟩
  · intro id hother
    rcases hother with ⟨i, hi, hpub, rfl⟩
    obtain ⟨hlt, t, ht, rfl⟩ := (invocation_of_schedule hs₁ id i).1 ⟨hi, hpub⟩
    -- no subscription is found twice, so both are at the same place
    have hsame : ((b.registry.lookup r).map Prod.fst)[j]?
        = ((b.registry.lookup r).map Prod.fst)[id - (s₁.issued + 1) - 1]? := by
      rw [List.getElem?_map, List.getElem?_map, hj, ht]
      rfl
    have hlen : j < ((b.registry.lookup r).map Prod.fst).length := by
      rw [List.length_map]
      exact (List.getElem?_eq_some_iff.1 hj).1
    have hplace := (List.getElem?_inj hlen (hregistry.nodup_lookup hnodup)).1 hsame
    omega

theorem invocation_of_lookup {id : Nat} {i : Invocation}
    (hi : (s₁.schedule ctx b.id (.scheduled e (b.registry.lookup r))).1.invocations.get? id = some i)
    (hpub : i.publication = s₁.issued + 1) :
    i.subscription ∈ b.registry.row i.subscription.key ∧ r.lookup i.subscription.key = some i.view ∧
      i.event = e ∧ i.bus = b.id ∧ i.origin = ctx ∧ i.stage = .fresh := by
  obtain ⟨-, t, ht, rfl⟩ := (invocation_of_schedule hs₁ id i).1 ⟨hi, hpub⟩
  obtain ⟨k, hkv, hrow⟩ := (Registry.mem_lookup ..).1 (show (t.1, t.2) ∈ _ from List.mem_of_getElem? ht)
  obtain rfl : t.1.key = k := hregistry.key k t.1 hrow
  exact ⟨hrow, (lookup_eq_some_iff_mem hnodup _ _).2 hkv, rfl, rfl, rfl, rfl⟩

end Scheduled

private theorem scheduled_of_later {s₁ s'' : Session} {ctx : Context} {e : Event}
    (hproper : (s₁.schedule ctx b.id (.scheduled e (b.registry.lookup r))).1.Proper)
    (hbalanced : (s₁.schedule ctx b.id (.scheduled e (b.registry.lookup r))).1.Balanced)
    (hlater : Transitions (s₁.schedule ctx b.id (.scheduled e (b.registry.lookup r))).1 s'') :
    ∃ q, s''.publications.get? (s₁.issued + 1) = some q ∧ q.scheduled = (r.keys.map b.registry.count).sum ∧
      ∀ d, q.result? = some (.ok d) → d.delivered = (r.keys.map b.registry.count).sum := by
  have hmoves := moves_of_transitions hproper hlater
  have hopened := get?_publications_schedule ctx b.id e s₁ (b.registry.lookup r) (s₁.issued + 1)
  rw [if_pos rfl] at hopened
  obtain ⟨q, hq, hcontinues⟩ := publication_of_moves hproper hmoves hopened
  have hsum : q.scheduled = (r.keys.map b.registry.count).sum :=
    hcontinues.scheduled.trans (b.registry.length_lookup r)
  refine ⟨q, hq, hsum, ?_⟩
  intro d hd
  exact (delivered_eq_scheduled (hbalanced.moves hproper hmoves) hq hd).trans hsum

/-- In any state that can be reached, a publish on an open bus that is not too deep, of an event that can be resolved
and rendered and that some live subscription hears, is scheduled: once for each subscription under one of the event's
keys, with the view of that key, and for no others. Whatever happens afterwards, these are its invocations, and a
delivery that it reports counts the subscriptions that there were. -/
theorem exact_delivery (hs : s.Reachable) (hb : s.buses.get? b.id = some b) (hopen : b.isOpen) {ctx : Context}
    (hlimit : b.exceeded? ctx.depth = none) {e : Event} {m : Matcher}
    (hkeys : b.matcher.keysFor s.hierarchy.declared e.cls = .ok (r, m)) {text : String} (he : e.debug = .ok text)
    {k : Key} (hk : k ∈ r.keys) {listening : Subscription} (hlistening : listening ∈ b.registry.row k) :
    ∃ s' p, s.publishOn ctx b e = (s', .ok p) ∧ s.issued < p ∧
      (∀ k ∈ r.keys, ∀ sub ∈ b.registry.row k,
        ∃! id, ∃ i, s'.invocations.get? id = some i ∧ i.publication = p ∧ i.subscription = sub) ∧
      (∀ id i, s'.invocations.get? id = some i → i.publication = p →
        i.subscription ∈ b.registry.row i.subscription.key ∧ r.lookup i.subscription.key = some i.view ∧
          i.event = e ∧ i.bus = b.id ∧ i.origin = ctx ∧ i.stage = .fresh) ∧
      ∀ s'', Transitions s' s'' →
        (∀ id i'', s''.invocations.get? id = some i'' → i''.publication = p →
          ∃ i, s'.invocations.get? id = some i ∧ i.Continues i'') ∧
        ∃ q, s''.publications.get? p = some q ∧ q.scheduled = (r.keys.map b.registry.count).sum ∧
          ∀ d, q.result? = some (.ok d) → d.delivered = (r.keys.map b.registry.count).sum := by
  have hproper := hs.proper
  have hsound := hs.bus_sound hb
  have hnodup : r.keys.Nodup := (Matcher.keysFor_sound hsound.matcher hkeys).1
  have hheard : b.registry.lookup r ≠ [] := by
    obtain ⟨⟨k, v⟩, hv, rfl⟩ := List.mem_map.1 hk
    exact List.ne_nil_of_mem ((Registry.mem_lookup ..).2 ⟨k, hv, hlistening⟩)
  obtain ⟨s₁, haside, hpublish⟩ := publishOn_of_heard hopen hlimit hkeys he hheard
  have hput : (s.putBus { b with matcher := m }).Proper := hproper.putBus (hproper.bus _ _ hb).2
  have hs₁ : s₁.Proper := hput.aside haside
  have hmoves : Moves s (s₁.schedule ctx b.id (.scheduled e (b.registry.lookup r))).1 := by
    have hacts := acts_publishOn ctx hb e
    rw [hpublish] at hacts
    exact hacts.moves
  have hs' := hproper.moves hmoves
  refine ⟨_, _, hpublish, Nat.lt_succ_of_le haside.issued, ?_, ?_, ?_⟩
  · intro k hk sub hsub
    exact existsUnique_invocation hs₁ hsound.registry hnodup hk hsub
  · intro id i hi hpub
    exact invocation_of_lookup hs₁ hsound.registry hnodup hi hpub
  · intro s'' hlater
    refine ⟨?_, scheduled_of_later hs' (hs.balanced.moves hproper hmoves) hlater⟩
    have hissued : s₁.issued + 1 ≤ (s₁.schedule ctx b.id (.scheduled e (b.registry.lookup r))).1.issued := by
      rw [(schedule_frame ..).2.2.2]
      exact Nat.le_add_right ..
    intro id i'' hi'' hpub
    exact invocation_of_moves hs' (moves_of_transitions hs' hlater) hi'' (hpub ▸ hissued)

/-- An object that listens to one class on the only bus. -/
private def attended : Session :=
  let s := ((start false).perform .outermost (.openBus "bus" .default [])).1
  let s := (s.perform .outermost (.object "listener" "Listener" true .idle [])).1
  (s.perform .outermost (.subscribe "bus" "listener" (.shared (.simple 0)) none)).1

private def attendedBus : Bus :=
  (attended.buses.get? 1).getD ⟨0, .default, false, .empty, .empty⟩

theorem attended_publish_is_invoked : ∃ s' p,
    attended.publishOn .outermost attendedBus (attended.hierarchy.value (.simple 0) 7 "" false) = (s', .ok p) ∧
      ∃ id i, s'.invocations.get? id = some i ∧ i.publication = p ∧ i.subscription.key = .named (.simple 0) := by
  have hreachable : attended.Reachable := ⟨false, .tail (.tail (.single (.perform ..)) (.perform ..)) (.perform ..)⟩
  obtain ⟨listening, hlistening⟩ : ∃ sub, sub ∈ attendedBus.registry.row (.named (.simple 0)) :=
    List.exists_mem_of_length_pos (by decide)
  have hbus : attended.buses.get? attendedBus.id = some attendedBus := rfl
  have hlimit : attendedBus.exceeded? Context.outermost.depth = none := by decide
  have hkey := (hreachable.bus_sound hbus).registry.key _ _ hlistening
  obtain ⟨s', p, hpublish, -, honce, -⟩ := exact_delivery hreachable hbus rfl hlimit
    (e := attended.hierarchy.value (.simple 0) 7 "" false) rfl rfl (k := .named (.simple 0)) (by decide) hlistening
  obtain ⟨id, ⟨i, hi, hpub, rfl⟩, -⟩ := honce _ (by decide) listening hlistening
  exact ⟨s', p, hpublish, id, i, hi, hpub, hkey⟩

end PubSub.Session
