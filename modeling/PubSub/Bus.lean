import PubSub.Handle
import PubSub.Hierarchy
import PubSub.Matcher
import PubSub.Registry

/-!
# Buses

One bus by itself: registering listeners, and deciding for whom a published event is scheduled. Once closed, a bus
stays closed and has no subscriptions.
-/

namespace PubSub

structure Bus where
  id : Nat
  config : Config
  isOpen : Bool
  registry : Registry
  matcher : Matcher

/-- What becomes of a publish. -/
inductive Plan where
  | refused (error : PublishError)
  /-- The event is handed to these subscriptions, seen through the views of their keys. -/
  | scheduled (event : Event) (targets : List (Subscription × Option View))

structure Dispatch where
  matcher : Matcher
  notice : Option Notice
  plan : Plan

namespace Bus

/-- An open bus without subscriptions, if the configuration is accepted. -/
def start (id : Nat) (config : Config) : Except BusError Bus :=
  match config.validate with
  | .ok () => .ok ⟨id, config, true, .empty, .empty⟩
  | .error e => .error (.config e)

/-- The notices that a bus gives only if it was told to. -/
def optional (b : Bus) (notices : List Notice) : List Notice :=
  if b.config.enableLogging then notices else []

def subscribe (b : Bus) (bindings : List (Key × Callback)) : Except BusError (Bus × Handle) :=
  if b.isOpen then
    let (registry, entries) := b.registry.registerAll bindings
    .ok ({ b with registry }, ⟨b.id, entries⟩)
  else
    .error .closed

/-- Subscribes the handlers that a target declares. -/
def subscribeHandlers (b : Bus) (target : String) (handlers : List (Key × Callback)) :
    Except BusError (Bus × Handle) :=
  if b.isOpen ∧ handlers = [] then .error (.noHandlers target) else b.subscribe handlers

def removeAll (r : Registry) : List (Key × Nat) → Registry × List (Key × Nat)
  | [] => (r, [])
  | (key, id) :: rest =>
    let (after, removed) := removeAll (r.unregister key id) rest
    (after, if r.contains key id then (key, id) :: removed else removed)

/-- Removes the subscriptions of a handle, and gives those that were still there. -/
def unsubscribe (b : Bus) (handle : Handle) : Except BusError (Bus × List (Key × Nat)) :=
  if handle.bus ≠ b.id then .error .foreignHandle
  else if b.isOpen then
    let (registry, removed) := removeAll b.registry handle.entries
    .ok ({ b with registry }, removed)
  else
    .error .closed

def close (b : Bus) : Bus :=
  { b with isOpen := false, registry := b.registry.clear }

/-- The keys of a class of events. -/
def keysFor (b : Bus) (declared : Name → Except Crash Descriptor) (cls : Name) :
    Except Crash (Resolution × Bus) := do
  let (keys, matcher) ← b.matcher.keysFor declared cls
  return (keys, { b with matcher })

/-- The limit that a publish at this depth runs into. -/
def exceeded? (b : Bus) (depth : Nat) : Option Nat :=
  match b.config.maxPublishDepth with
  | some limit => if limit.toNat ≤ depth then some limit.toNat else none
  | none => none

def deliver (b : Bus) (depth : Nat) (event : Event) (keys : Resolution) (matcher : Matcher)
    (targets : List (Subscription × Option View)) : Dispatch where
  matcher := matcher
  notice := if b.config.enableLogging then some (.publishing event depth keys.length targets.length) else none
  plan := .scheduled event targets

/-- Nobody listens to the event. One that is republished is carried by another event, which is not carried again. -/
def deliverUnheard (b : Bus) (declared : Name → Except Crash Descriptor) (depth : Nat) (event : Event)
    (matcher : Matcher) : Except Crash Dispatch :=
  match b.config.deadEvents, event with
  | .ignore, _ | .republish, .dead _ => .ok ⟨matcher, none, .scheduled event []⟩
  | .log, _ => .ok ⟨matcher, some (.unheard event), .scheduled event []⟩
  | .republish, .value _ => do
    let carrier := Event.dead event
    let (keys, matcher) ← matcher.keysFor declared carrier.cls
    match b.registry.lookup keys with
    | [] => return ⟨matcher, none, .scheduled carrier []⟩
    | targets => return b.deliver depth carrier keys matcher targets

/-- Decides about a publish at some depth: a bus that is closed or too deep refuses before it asks for keys. -/
def publish (b : Bus) (declared : Name → Except Crash Descriptor) (depth : Nat) (event : Event) :
    Except Crash Dispatch :=
  if !b.isOpen then .ok ⟨b.matcher, none, .refused .closed⟩
  else match b.exceeded? depth with
    | some limit => .ok ⟨b.matcher, some (.depthReached event depth limit), .refused (.depthExceeded depth limit)⟩
    | none => do
      let (keys, matcher) ← b.matcher.keysFor declared event.cls
      match b.registry.lookup keys with
      | [] => b.deliverUnheard declared depth event matcher
      | targets => return b.deliver depth event keys matcher targets

def subscriptionCount (b : Bus) : Nat :=
  b.registry.size

def debug (b : Bus) : String :=
  "EventBus \x7b id: *, closed: " ++ (if b.isOpen then "false" else "true") ++ ", subscriptions: "
    ++ toString b.subscriptionCount ++ " \x7d"

end Bus

/-- How a hold that does not keep its bus alive is shown. -/
def weakBusDebug : String :=
  "WeakEventBus"

end PubSub
