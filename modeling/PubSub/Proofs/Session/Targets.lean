import PubSub.Proofs.Registry.Bulk
import PubSub.Proofs.Session.Enrolment
import PubSub.Proofs.Session.ExactDelivery
import PubSub.Proofs.Session.Receipts

/-!
# Targets

An object whose handler methods are subscribed gets each of them called once for each event that it takes. The registry
tells callbacks of an object apart by their names only, and takes a method that is named like the callback of listeners
for the object as a listener. If it has that already, it does not file the method.
-/

namespace PubSub

/-- The object itself is subscribed as a listener to events of the type. -/
def Object.ListensTo (o : Object) (b : Bus) (type : Name) : Prop :=
  ∃ u ∈ b.registry.row (.named type), o.binding? o.identity (.shared type) = some (.named type, u.callback)

namespace Object

variable {o : Object} (hdistinct : (o.methods.map fun m => (m.type, m.name)).Nodup)
include hdistinct

theorem unlike_handlers : o.handlers.Pairwise fun e e' => ¬ Registry.Alike e e' := by
  rw [handlers, List.pairwise_map]
  refine (List.pairwise_map.1 hdistinct).imp ?_
  intro m m' hne halike
  obtain ⟨hkey, hsame⟩ := halike
  exact hne (Prod.ext (Key.named.inj hkey) ((Callback.isSame_iff ..).1 hsame).2)

theorem handler_of_name {m : Handler} (hm : m ∈ o.methods) {c : Callback} (hc : (.named m.type, c) ∈ o.handlers)
    (hname : c.name = m.name) : c = (o.handler m).2 := by
  obtain ⟨m', hm', he⟩ := List.mem_map.1 hc
  obtain ⟨hkey, rfl⟩ := Prod.mk.inj he
  have hsame : (m'.type, m'.name) = (m.type, m.name) := Prod.ext (Key.named.inj hkey) hname
  obtain rfl := List.inj_on_of_nodup_map hdistinct hm' hm hsame
  rfl

/-- A callback that the object offers under the type of a method, with the name of the method, is the method, unless it
is the object as a listener. -/
theorem Offers.handler {m : Handler} (hm : m ∈ o.methods) {c : Callback} (h : o.Offers (.named m.type) c)
    (hname : c.name = m.name) (hlistener : m.name = Callback.defaultName →
      o.binding? o.identity (.shared m.type) ≠ some (.named m.type, c)) : c = (o.handler m).2 := by
  rcases h with h | ⟨cls, h⟩
  · exact handler_of_name hdistinct hm h hname
  · refine absurd ?_ (hlistener ?_)
    all_goals
      simp only [binding?] at h ⊢
      split at h
      · cases h
        first
          | exact if_pos ‹_›
          | exact hname.symm
      · cases h

end Object

theorem Bus.Sound.becomes {b b' : Bus} (hb : b.Sound) (h : b.Becomes b') : b'.Sound := by
  induction h with
  | refl => exact hb
  | tail _ h ih => exact ih.changes h

namespace Session

variable {s s' : Session} {b b' : Bus}

/-- A publish makes one invocation for a subscription under one of the keys of the event, and no other subscription of the
same callback is invoked under this key. -/
theorem invoked_once (hs : s.Proper) (hb : s.buses.get? b.id = some b) (hopen : b.isOpen) (hsound : b.Sound)
    {calls : List (Key × Callback)} (hcalls : b.registry.Follows calls) {k : Key} {u : Subscription}
    (hu : u ∈ b.registry.row k) {ctx : Context} (hlimit : b.exceeded? ctx.depth = none) {e : Event}
    {r : Resolution} {m : Matcher} (hkeys : b.matcher.keysFor s.hierarchy.declared e.cls = .ok (r, m)) {text : String}
    (he : e.debug = .ok text) (hk : k ∈ r.keys) :
    ∃ s' p, s.publishOn ctx b e = (s', .ok p) ∧ s.issued < p ∧ ∃ id i, s'.invocations.get? id = some i ∧
      i.publication = p ∧ i.event = e ∧ i.subscription = u ∧
      ∀ id' i', s'.invocations.get? id' = some i' → i'.publication = p → i'.subscription.key = k →
        i'.subscription.callback.isSame u.callback → id' = id := by
  have hnodup : r.keys.Nodup := (Matcher.keysFor_sound hsound.matcher hkeys).1
  have hheard : b.registry.lookup r ≠ [] := by
    obtain ⟨⟨k, v⟩, hv, rfl⟩ := List.mem_map.1 hk
    exact List.ne_nil_of_mem ((Registry.mem_lookup ..).2 ⟨k, hv, hu⟩)
  obtain ⟨s₁, haside, hpublish⟩ := publishOn_of_heard hopen hlimit hkeys he hheard
  have hput : (s.putBus { b with matcher := m }).Proper := hs.putBus (hs.bus _ _ hb).2
  have hs₁ : s₁.Proper := hput.aside haside
  obtain ⟨id, ⟨i, hi, hpub, hsub⟩, honly⟩ := existsUnique_invocation hs₁ hsound.registry hnodup hk hu
  have hfound := invocation_of_lookup hs₁ hsound.registry hnodup hi hpub
  refine ⟨_, _, hpublish, Nat.lt_succ_of_le haside.issued, id, i, hi, hpub, hfound.2.2.1, hsub, ?_⟩
  intro id' i' hi' hpub' hkey hsame
  have hrow := (invocation_of_lookup hs₁ hsound.registry hnodup hi' hpub').1
  rw [hkey] at hrow
  refine honly id' ⟨i', hi', hpub', ?_⟩
  exact hcalls.eq_of_same hrow hu hsame

private theorem subscribe_handlers (hs : s.Proper) (hb : s.buses.get? b.id = some b) (hopen : b.isOpen) {o : Object}
    (hsome : o.methods ≠ []) (stored : Option String) {handle : Handle} (h : b.subscribe o.handlers = .ok (b', handle)) :
    (s.subscribe b o .handlers stored).2 = .subscribed handle (some ((List.range o.methods.length).map (· + 1))) ∧
      (s.subscribe b o .handlers stored).1.Proper ∧
      (s.subscribe b o .handlers stored).1.buses.get? b.id = some b' := by
  have hnonempty : o.handlers ≠ [] := by simpa [Object.handlers] using hsome
  have hid : b'.id = b.id := Bus.id_eq_of_changes (.subscribed h)
  have hput : ((s.putBus b').placeAll b.id handle.entries).Proper := hs.effect (effect_placeAll hb h)
  have hreport := aside_report ((s.putBus b').placeAll b.id handle.entries)
    (b.optional (handle.entries.map fun e => .subscribed e.1 e.2))
  have hget {s₁ : Session} (haside : ((s.putBus b').placeAll b.id handle.entries).Aside s₁) :
      s₁.Proper ∧ s₁.buses.get? b.id = some b' := by
    refine ⟨hput.aside haside, ?_⟩
    rw [haside.buses, buses_placeAll, ← hid]
    exact (Table.get?_put ..).trans (if_pos rfl)
  simp only [subscribe, hopen, if_true, Bus.subscribeHandlers, hnonempty, and_false, if_false, h, subscribed]
  refine ⟨trivial, ?_⟩
  cases stored with
  | none => exact hget hreport
  | some name => exact hget (hreport.trans (.rest ..))

/-- Whatever was subscribed before, if it is not the object as a listener to an event type for which it has a method that
is named as the callback of listeners is: when its handlers are subscribed, the handle has one entry with an id of its
own for each of them, in their order, and each of them is subscribed. As long as it stays so, a publish on the bus of an
event that has its type among the keys calls the method, and calls it just once. -/
theorem every_handler_is_called (hs : s.Reachable) (hb : s.buses.get? b.id = some b) (hopen : b.isOpen) {name : String}
    {o : Object} (ho : s.objects.get? name = some o) (hsome : o.methods ≠ [])
    (hdistinct : (o.methods.map fun m => (m.type, m.name)).Nodup)
    (hapart : ∀ m ∈ o.methods, m.name = Callback.defaultName → ¬ o.ListensTo b m.type) (stored : Option String) :
    ∃ s' entries, s.subscribe b o .handlers stored
        = (s', .subscribed ⟨b.id, entries⟩ (some ((List.range o.methods.length).map (· + 1)))) ∧
      entries.map Prod.fst = o.methods.map (fun m => Key.named m.type) ∧ (entries.map Prod.snd).Nodup ∧
      ∀ (j : Nat) m, o.methods[j]? = some m → ∃ u : Subscription, entries[j]? = some (.named m.type, u.id) ∧
        u.callback = (o.handler m).2 ∧
        (∃ b', s'.buses.get? b.id = some b' ∧ b'.isOpen ∧ u ∈ b'.registry.row (.named m.type)) ∧
        ∀ s'', Moves s' s'' → ∀ b'', s''.buses.get? b.id = some b'' → b''.isOpen →
          u ∈ b''.registry.row (.named m.type) → ∀ ctx e r matcher text, b''.exceeded? ctx.depth = none →
          b''.matcher.keysFor s''.hierarchy.declared e.cls = .ok (r, matcher) → e.debug = .ok text →
          Key.named m.type ∈ r.keys → ∃ s₃ p, s''.publishOn ctx b'' e = (s₃, .ok p) ∧ s''.issued < p ∧
            ∃ id i, s₃.invocations.get? id = some i ∧ i.publication = p ∧ i.event = e ∧ i.subscription = u ∧
              ∀ id' i', s₃.invocations.get? id' = some i' → i'.publication = p →
                i'.subscription.key = .named m.type → i'.subscription.callback.identity = o.identity →
                i'.subscription.callback.name = m.name → id' = id := by
  obtain ⟨calls, hcalls⟩ := hs.follows hb
  have hunlike := Object.unlike_handlers hdistinct
  have hsubscribe : b.subscribe o.handlers = .ok ({ b with registry := (b.registry.registerAll o.handlers).1 },
      ⟨b.id, (b.registry.registerAll o.handlers).2⟩) := Bus.subscribe_eq_ok_iff.2 ⟨hopen, rfl, rfl⟩
  obtain ⟨hanswer, hs', hb'⟩ := subscribe_handlers hs.proper hb hopen hsome stored hsubscribe
  have hlisted : (b.registry.registerAll o.handlers).2.map Prod.fst = o.methods.map (fun m => Key.named m.type) := by
    rw [Registry.map_fst_registerAll, Object.handlers, List.map_map]
    rfl
  refine ⟨_, _, Prod.ext rfl hanswer, hlisted, Registry.nodup_registerAll hcalls hunlike, ?_⟩
  intro j m hj
  have hm : m ∈ o.methods := List.mem_of_getElem? hj
  have hentry : o.handlers[j]? = some (.named m.type, (o.handler m).2) := by
    rw [Object.handlers, List.getElem?_map, hj]
    rfl
  obtain ⟨u, hu, hid, hsame, horigin⟩ := Registry.entry_of_registerAll hcalls hunlike hentry
  obtain ⟨hidentity, hname⟩ := (Callback.isSame_iff ..).1 hsame
  have hcallback : u.callback = (o.handler m).2 := by
    rcases horigin with hrow | hcallback
    · have hoffers := hs.attributed.offered b.id b _ u name o hb hrow ho hidentity
      refine hoffers.handler hdistinct hm hname ?_
      intro hdefault hlistener
      exact hapart m hm hdefault ⟨u, hrow, hlistener⟩
    · exact hcallback
  refine ⟨u, hid, hcallback, ⟨_, hb', hopen, hu⟩, ?_⟩
  intro s'' hlater b'' hb'' hopen'' hu'' ctx e r matcher text hlimit hkeys he hk
  obtain ⟨b₁, hb₁, hbecomes⟩ := has_of_moves hs' hlater hb'
  obtain rfl := Option.some.inj (hb''.symm.trans hb₁)
  have hsound := ((hs.bus_sound hb).changes (.subscribed hsubscribe)).becomes hbecomes
  obtain ⟨calls'', hcalls''⟩ := hbecomes.follows (hcalls.registerAll o.handlers)
  have hown : s''.buses.get? b''.id = some b'' := by
    rw [hbecomes.id]
    exact hb''
  obtain ⟨s₃, p, hpublish, hnew, id, i, hi, hpub, hevent, hsub, honly⟩ := invoked_once (hs'.moves hlater) hown
    hopen'' hsound hcalls'' hu'' hlimit hkeys he hk
  refine ⟨s₃, p, hpublish, hnew, id, i, hi, hpub, hevent, hsub, ?_⟩
  intro id' i' hi' hpub' hkey hidentity' hname'
  refine honly id' i' hi' hpub' hkey ((Callback.isSame_iff ..).2 ?_)
  rw [hcallback]
  exact ⟨hidentity', hname'⟩

/-- An object with two methods, one named as the callback of listeners is, that listens to the type of the other. -/
private def twofold : Session :=
  let s := ((start false).perform .outermost (.openBus "bus" .default [])).1
  let s := (s.perform .outermost (.object "target" "Target" true .idle
    [⟨"on_event", .simple 0, .serial, .idle⟩, ⟨"other", .simple 1, .serial, .idle⟩])).1
  (s.perform .outermost (.subscribe "bus" "target" (.shared (.simple 1)) none)).1

private def twofoldBus : Bus :=
  (twofold.buses.get? 1).getD ⟨0, .default, false, .empty, .empty⟩

private def twofoldTarget : Object :=
  (twofold.objects.get? "target").getD ⟨0, "", "", false, Script.listener .idle, []⟩

private def targeted : Session :=
  (twofold.subscribe twofoldBus twofoldTarget .handlers none).1

private def targetedBus : Bus :=
  (targeted.buses.get? 1).getD ⟨0, .default, false, .empty, .empty⟩

theorem twofold_target_is_called : ∃ entries,
    (twofold.subscribe twofoldBus twofoldTarget .handlers none).2 = .subscribed ⟨1, entries⟩ (some [1, 2]) ∧
      entries.map Prod.fst = [.named (.simple 0), .named (.simple 1)] ∧ ∃ s₃ p,
        targeted.publishOn .outermost targetedBus (targeted.hierarchy.value (.simple 1) 7 "" false) = (s₃, .ok p) ∧
          ∃ id i, s₃.invocations.get? id = some i ∧ i.publication = p ∧ i.subscription.callback.name = "other" := by
  have hreachable : twofold.Reachable := ⟨false, .tail (.tail (.single (.perform ..)) (.perform ..)) (.perform ..)⟩
  have hobject : twofold.objects.get? "target" = some twofoldTarget := rfl
  have hapart : ∀ m ∈ twofoldTarget.methods, m.name = Callback.defaultName →
      ¬ twofoldTarget.ListensTo twofoldBus m.type := by
    intro m hm hname hlistens
    obtain ⟨u, hu, -⟩ := hlistens
    rcases List.mem_cons.1 hm with rfl | hm
    · cases hu
    · obtain rfl := List.mem_singleton.1 hm
      exact absurd hname (by decide)
  obtain ⟨s', entries, hsubscribe, hkeys, -, hcalled⟩ := every_handler_is_called hreachable (b := twofoldBus) rfl rfl
    hobject (by decide) (by decide) hapart none
  obtain rfl : targeted = s' := congrArg Prod.fst hsubscribe
  refine ⟨entries, congrArg Prod.snd hsubscribe, hkeys, ?_⟩
  obtain ⟨u, -, hcallback, ⟨b', hb', -, hu⟩, hpublish⟩ := hcalled 1 (Method.handler ⟨"other", .simple 1, .serial, .idle⟩) rfl
  obtain rfl : targetedBus = b' := Option.some.inj hb'
  obtain ⟨s₃, p, hs₃, -, id, i, hi, hpub, -, rfl, -⟩ := hpublish _ .refl targetedBus rfl rfl hu .outermost
    (targeted.hierarchy.value (.simple 1) 7 "" false) _ _ _ (by decide) rfl rfl (by decide)
  exact ⟨s₃, p, hs₃, id, i, hi, hpub, by rw [hcallback]; rfl⟩

/-- An object with a method that is named as the callback of listeners is, which listens to the type of the method. -/
private def namesake : Session :=
  let s := ((start false).perform .outermost (.openBus "bus" .default [])).1
  let s := (s.perform .outermost (.object "target" "Target" true .idle [⟨"on_event", .simple 0, .serial, .idle⟩])).1
  (s.perform .outermost (.subscribe "bus" "target" (.shared (.simple 0)) none)).1

private def namesakeBus : Bus :=
  (namesake.buses.get? 1).getD ⟨0, .default, false, .empty, .empty⟩

private def namesakeTarget : Object :=
  (namesake.objects.get? "target").getD ⟨0, "", "", false, Script.listener .idle, []⟩

private def overshadowed : Session :=
  (namesake.subscribe namesakeBus namesakeTarget .handlers none).1

private def overshadowedBus : Bus :=
  (overshadowed.buses.get? 1).getD ⟨0, .default, false, .empty, .empty⟩

/-- The method is answered to be subscribed, but a publish of its type calls the object only as a listener. -/
theorem namesake_is_not_called : namesake.Reachable ∧ namesakeBus.isOpen ∧
    (namesakeTarget.methods.map fun m => (m.type, m.name)) = [(.simple 0, "on_event")] ∧
    (namesake.subscribe namesakeBus namesakeTarget .handlers none).2
      = .subscribed ⟨1, [(.named (.simple 0), 1)]⟩ (some [1]) ∧
    ∃ s' p r m, overshadowedBus.matcher.keysFor overshadowed.hierarchy.declared (.simple 0) = .ok (r, m) ∧
      .named (.simple 0) ∈ r.keys ∧
      overshadowed.publishOn .outermost overshadowedBus (overshadowed.hierarchy.value (.simple 0) 7 "" false)
        = (s', .ok p) ∧
      ∀ id i, s'.invocations.get? id = some i → i.publication = p →
        ∀ method ∈ namesakeTarget.methods, i.subscription.callback ≠ (namesakeTarget.handler method).2 := by
  have hreachable : namesake.Reachable := ⟨false, .tail (.tail (.single (.perform ..)) (.perform ..)) (.perform ..)⟩
  refine ⟨hreachable, rfl, rfl, rfl, _, _, _, _, rfl, by decide, rfl, ?_⟩
  intro id i hi _ method hm hcallback
  obtain rfl := List.mem_singleton.1 hm
  cases List.mem_singleton.1 (Table.mem_entries_of_get? hi)
  exact absurd (congrArg Callback.target hcallback) (by decide)

end Session
end PubSub
