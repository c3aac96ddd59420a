import PubSub.Proofs.Logging.Behaviours
import PubSub.Proofs.Related

/-!
# Buses under the switch

Two buses that differ in the switch, and in the switch that their listeners set on other buses, answer alike and
schedule the same invocations. They give the same warnings.
-/

namespace PubSub

inductive Callback.Twin : Callback → Callback → Prop
  | mk (identity : Nat) (target name : String) (threadSafe : Bool) (lens : Lens) (object : Nat)
      {listener listener' : Listener}
      (h : ∀ depth sight, sight.Printable → (listener depth sight).Twin (listener' depth sight)) :
    Twin ⟨identity, target, name, threadSafe, lens, object, listener⟩
      ⟨identity, target, name, threadSafe, lens, object, listener'⟩

inductive Subscription.Twin : Subscription → Subscription → Prop
  | mk (id : Nat) (key : Key) {c c' : Callback} (h : c.Twin c') : Twin ⟨id, key, c⟩ ⟨id, key, c'⟩

/-- What is to be registered, with its key. -/
def Callback.KeyedTwin (e e' : Key × Callback) : Prop :=
  e.1 = e'.1 ∧ e.2.Twin e'.2

def Subscription.SeenTwin (t t' : Subscription × Option View) : Prop :=
  t.1.Twin t'.1 ∧ t.2 = t'.2

theorem Callback.Twin.isSame {c c' d d' : Callback} (hc : c.Twin c') (hd : d.Twin d') :
    c.isSame d = c'.isSame d' := by
  cases hc
  cases hd
  rfl

theorem Subscription.Twin.id {u u' : Subscription} (h : u.Twin u') : u.id = u'.id := by
  cases h
  rfl

namespace Registry

structure Twin (r r' : Registry) : Prop where
  rows : r.rows.Related (List.Forall₂ Subscription.Twin) r'.rows
  issued : r.issued = r'.issued

theorem twin_empty : empty.Twin empty :=
  ⟨Table.related_empty _, rfl⟩

namespace Twin

variable {r r' : Registry}

theorem row (h : r.Twin r') (key : Key) : List.Forall₂ Subscription.Twin (r.row key) (r'.row key) := by
  simp only [Registry.row]
  have hget := h.rows.get? key
  generalize r.rows.get? key = found at hget
  generalize r'.rows.get? key = found' at hget
  cases hget with
  | none => exact .nil
  | some hrow => exact hrow

theorem register (h : r.Twin r') (key : Key) {c c' : Callback} (hc : c.Twin c') :
    (r.register key c).1.Twin (r'.register key c').1 ∧ (r.register key c).2 = (r'.register key c').2 := by
  have hfind := rel_find? (h.row key) (p := (·.callback.isSame c)) (q := (·.callback.isSame c')) fun u u' hu => by
    cases hu with
    | mk id key hcallback => exact hcallback.isSame hc
  simp only [Registry.register, h.issued]
  generalize (r.row key).find? _ = found at hfind
  generalize (r'.row key).find? _ = found' at hfind
  cases hfind with
  | none =>
    have hrow := List.rel_append (h.row key) (.cons (.mk (r'.issued + 1) key hc) .nil)
    exact ⟨⟨h.rows.put key hrow, rfl⟩, rfl⟩
  | some hu => exact ⟨⟨h.rows, rfl⟩, hu.id⟩

theorem registerAll (h : r.Twin r') {bindings bindings' : List (Key × Callback)}
    (hb : List.Forall₂ Callback.KeyedTwin bindings bindings') :
    (r.registerAll bindings).1.Twin (r'.registerAll bindings').1 ∧
      (r.registerAll bindings).2 = (r'.registerAll bindings').2 := by
  induction hb generalizing r r' with
  | nil => exact ⟨h, rfl⟩
  | @cons e e' rest rest' he _ ih =>
    obtain ⟨key, c⟩ := e
    obtain ⟨key', c'⟩ := e'
    obtain ⟨rfl, hc⟩ := he
    obtain ⟨hr, hid⟩ := h.register key hc
    obtain ⟨hrest, hentries⟩ := ih hr
    refine ⟨hrest, ?_⟩
    simp only [Registry.registerAll, hid, hentries]

theorem contains (h : r.Twin r') (key : Key) (id : Nat) : r.contains key id = r'.contains key id :=
  any_eq_of_forall₂ (h.row key) fun u u' hu => by rw [hu.id]

theorem unregister (h : r.Twin r') (key : Key) (id : Nat) : (r.unregister key id).Twin (r'.unregister key id) := by
  have hrest := rel_filter (h.row key) (p := (·.id ≠ id)) (q := (·.id ≠ id)) fun u u' hu => by rw [hu.id]
  simp only [Registry.unregister]
  generalize (r.row key).filter _ = rest at hrest
  generalize (r'.row key).filter _ = rest' at hrest
  cases hrest with
  | nil => exact ⟨h.rows.erase key, h.issued⟩
  | cons hu hrest => exact ⟨h.rows.put key (.cons hu hrest), h.issued⟩

theorem removeAll (h : r.Twin r') (entries : List (Key × Nat)) :
    (Bus.removeAll r entries).1.Twin (Bus.removeAll r' entries).1 ∧
      (Bus.removeAll r entries).2 = (Bus.removeAll r' entries).2 := by
  induction entries generalizing r r' with
  | nil => exact ⟨h, rfl⟩
  | cons e rest ih =>
    obtain ⟨hrest, hremoved⟩ := ih (h.unregister e.1 e.2)
    refine ⟨hrest, ?_⟩
    simp only [Bus.removeAll, h.contains, hremoved]

theorem lookup (h : r.Twin r') (resolution : Resolution) :
    List.Forall₂ Subscription.SeenTwin (r.lookup resolution) (r'.lookup resolution) := by
  induction resolution with
  | nil => exact .nil
  | cons e rest ih =>
    simp only [Registry.lookup, List.flatMap_cons]
    refine List.rel_append ?_ ih
    exact List.forall₂_map_left_iff.2 (List.forall₂_map_right_iff.2 ((h.row e.1).imp fun _ _ hu => ⟨hu, rfl⟩))

theorem count (h : r.Twin r') (key : Key) : r.count key = r'.count key :=
  (h.row key).length_eq

theorem size (h : r.Twin r') : r.size = r'.size := by
  simp only [Registry.size, List.length_flatten]
  rw [map_eq_of_forall₂ h.rows.values fun row row' hrow => hrow.length_eq]

theorem clear (h : r.Twin r') : r.clear.Twin r'.clear :=
  ⟨Table.related_empty _, h.issued⟩

end Twin
end Registry

/-- They differ in the switch, and in the switch that their listeners set. -/
structure Bus.Twin (b b' : Bus) : Prop where
  id : b.id = b'.id
  config : b.config.plain = b'.config.plain
  isOpen : b.isOpen = b'.isOpen
  registry : b.registry.Twin b'.registry
  matcher : b.matcher = b'.matcher

/-- The same is to be done, for events that can be rendered. -/
inductive Plan.Twin : Plan → Plan → Prop
  | refused {error : PublishError} (herror : error.isPrintable) : Twin (.refused error) (.refused error)
  | scheduled {event : Event} (hevent : event.Printable) {targets targets' : List (Subscription × Option View)}
      (h : List.Forall₂ Subscription.SeenTwin targets targets') :
    Twin (.scheduled event targets) (.scheduled event targets')

def Notice.HasLine (n : Notice) : Prop :=
  ∃ line, n.line = .ok line

/-- The same is decided, and the same warnings are given. -/
structure Dispatch.Twin (d d' : Dispatch) : Prop where
  matcher : d.matcher = d'.matcher
  grave : d.notice.toList.filter Notice.isGrave = d'.notice.toList.filter Notice.isGrave
  rendered : ∀ n ∈ d.notice, n.HasLine
  rendered' : ∀ n ∈ d'.notice, n.HasLine
  plan : d.plan.Twin d'.plan

theorem Config.validate_plain (c : Config) : c.plain.validate = c.validate :=
  rfl

theorem Config.startWorkers_plain (c : Config) : c.plain.startWorkers = c.startWorkers :=
  rfl

namespace Bus.Twin

variable {b b' : Bus}

theorem start (id : Nat) {c c' : Config} (hc : c.plain = c'.plain) :
    Agree Bus.Twin (Bus.start id c) (Bus.start id c') := by
  simp only [Bus.start]
  rw [← c.validate_plain, ← c'.validate_plain, hc]
  split
  · exact .ok ⟨rfl, hc, rfl, Registry.twin_empty, rfl⟩
  · exact .error _

theorem subscribe (h : b.Twin b') {bindings bindings' : List (Key × Callback)}
    (hb : List.Forall₂ Callback.KeyedTwin bindings bindings') :
    Agree (fun x x' => x.1.Twin x'.1 ∧ x.2 = x'.2) (b.subscribe bindings) (b'.subscribe bindings') := by
  obtain ⟨hregistry, hentries⟩ := h.registry.registerAll hb
  simp only [Bus.subscribe, h.isOpen]
  split
  · refine .ok ⟨⟨h.id, h.config, rfl, hregistry, h.matcher⟩, ?_⟩
    simp only [h.id, hentries]
  · exact .error _

theorem subscribeHandlers (h : b.Twin b') (target : String) {handlers handlers' : List (Key × Callback)}
    (hb : List.Forall₂ Callback.KeyedTwin handlers handlers') :
    Agree (fun x x' => x.1.Twin x'.1 ∧ x.2 = x'.2) (b.subscribeHandlers target handlers)
      (b'.subscribeHandlers target handlers') := by
  have hnil : handlers = [] ↔ handlers' = [] := by
    rw [← List.length_eq_zero_iff, ← List.length_eq_zero_iff, hb.length_eq]
  simp only [Bus.subscribeHandlers, h.isOpen, hnil]
  split
  · exact .error _
  · exact h.subscribe hb

theorem unsubscribe (h : b.Twin b') (handle : Handle) :
    Agree (fun x x' => x.1.Twin x'.1 ∧ x.2 = x'.2) (b.unsubscribe handle) (b'.unsubscribe handle) := by
  obtain ⟨hregistry, hremoved⟩ := h.registry.removeAll handle.entries
  simp only [Bus.unsubscribe, h.isOpen, h.id]
  split
  · exact .error _
  · split
    · exact .ok ⟨⟨rfl, h.config, rfl, hregistry, h.matcher⟩, hremoved⟩
    · exact .error _

theorem close (h : b.Twin b') : b.close.Twin b'.close :=
  ⟨h.id, h.config, rfl, h.registry.clear, h.matcher⟩

theorem keysFor (h : b.Twin b') (declared : Name → Except Crash Descriptor) (cls : Name) :
    Agree (fun x x' => x.1 = x'.1 ∧ x.2.Twin x'.2) (b.keysFor declared cls) (b'.keysFor declared cls) := by
  simp only [Bus.keysFor, h.matcher]
  cases b'.matcher.keysFor declared cls with
  | error c => exact .error c
  | ok found => exact .ok ⟨rfl, h.id, h.config, h.isOpen, h.registry, rfl⟩

theorem maxPublishDepth (h : b.Twin b') : b.config.maxPublishDepth = b'.config.maxPublishDepth := by
  show b.config.plain.maxPublishDepth = b'.config.plain.maxPublishDepth
  rw [h.config]

theorem deadEvents (h : b.Twin b') : b.config.deadEvents = b'.config.deadEvents := by
  show b.config.plain.deadEvents = b'.config.plain.deadEvents
  rw [h.config]

theorem threadName (h : b.Twin b') : b.config.threadName = b'.config.threadName := by
  show b.config.plain.threadName = b'.config.plain.threadName
  rw [h.config]

theorem exceeded? (h : b.Twin b') (depth : Nat) : b.exceeded? depth = b'.exceeded? depth := by
  simp only [Bus.exceeded?, h.maxPublishDepth]

theorem debug (h : b.Twin b') : b.debug = b'.debug := by
  have hcount : b.subscriptionCount = b'.subscriptionCount := h.registry.size
  unfold Bus.debug
  rw [h.isOpen, hcount]

end Bus.Twin

section Publishing

variable {b b' : Bus} {event : Event} {keys : Resolution} {matcher : Matcher}
  {targets targets' : List (Subscription × Option View)}

private theorem Notice.hasLine {n : Notice} (h : event.Printable) {fields : String → List (String × String)}
    (hn : n.fields = event.debug >>= fun text => pure (fields text)) : n.HasLine := by
  obtain ⟨text, htext⟩ := h.debug
  exact ⟨_, by simp only [Notice.line, hn, htext]; rfl⟩

private theorem Notice.hasLine_some {n : Notice} (h : n.HasLine) : ∀ m ∈ some n, m.HasLine := by
  rintro m ⟨⟩
  exact h

private theorem Bus.hasLine_deliver (b : Bus) (h : event.Printable) (depth : Nat) :
    ∀ n ∈ (b.deliver depth event keys matcher targets).notice, n.HasLine := by
  simp only [Bus.deliver]
  split
  · exact Notice.hasLine_some (Notice.hasLine h rfl)
  · simp

private theorem Bus.twin_deliver (h : event.Printable) (depth : Nat)
    (ht : List.Forall₂ Subscription.SeenTwin targets targets') :
    (b.deliver depth event keys matcher targets).Twin (b'.deliver depth event keys matcher targets') where
  matcher := rfl
  grave := by
    simp only [Bus.deliver]
    split <;> split <;> rfl
  rendered := b.hasLine_deliver h depth
  rendered' := b'.hasLine_deliver h depth
  plan := .scheduled h ht

private theorem Bus.Twin.deliverUnheard (hb : b.Twin b') (h : event.Printable)
    (declared : Name → Except Crash Descriptor) (depth : Nat) :
    Agree Dispatch.Twin (b.deliverUnheard declared depth event matcher)
      (b'.deliverUnheard declared depth event matcher) := by
  have hquiet {event : Event} (h : event.Printable) (matcher : Matcher) :
      Dispatch.Twin ⟨matcher, none, .scheduled event []⟩ ⟨matcher, none, .scheduled event []⟩ :=
    ⟨rfl, rfl, by simp, by simp, .scheduled h .nil⟩
  have hline := Notice.hasLine_some (n := .unheard event) (Notice.hasLine h rfl)
  unfold Bus.deliverUnheard
  rw [hb.deadEvents]
  split
  · exact .ok (hquiet h matcher)
  · exact .ok (hquiet h matcher)
  · exact .ok ⟨rfl, rfl, hline, hline, .scheduled h .nil⟩
  · rename_i p _
    refine Agree.bind _ fun found => ?_
    obtain ⟨keys, matcher⟩ := found
    dsimp only
    have hlookup := hb.registry.lookup keys
    have hcarrier : (Event.dead (.value p)).Printable := h
    generalize b.registry.lookup keys = targets at hlookup
    generalize b'.registry.lookup keys = targets' at hlookup
    cases hlookup with
    | nil => exact .ok (hquiet hcarrier matcher)
    | cons ht hlookup => exact .ok (Bus.twin_deliver hcarrier depth (.cons ht hlookup))

theorem Bus.Twin.publish (hb : b.Twin b') (h : event.Printable) (declared : Name → Except Crash Descriptor)
    (depth : Nat) : Agree Dispatch.Twin (b.publish declared depth event) (b'.publish declared depth event) := by
  unfold Bus.publish
  rw [hb.isOpen, hb.exceeded?, hb.matcher]
  split
  · exact .ok ⟨rfl, rfl, by simp, by simp, .refused rfl⟩
  · split
    · rename_i limit _
      have hline := Notice.hasLine_some (n := .depthReached event depth limit) (Notice.hasLine h rfl)
      exact .ok ⟨rfl, rfl, hline, hline, .refused rfl⟩
    · refine Agree.bind _ fun found => ?_
      obtain ⟨keys, matcher⟩ := found
      dsimp only
      have hlookup := hb.registry.lookup keys
      generalize b.registry.lookup keys = targets at hlookup
      generalize b'.registry.lookup keys = targets' at hlookup
      cases hlookup with
      | nil => exact hb.deliverUnheard h declared depth
      | cons ht hlookup => exact .ok (Bus.twin_deliver h depth (.cons ht hlookup))

end Publishing

end PubSub
