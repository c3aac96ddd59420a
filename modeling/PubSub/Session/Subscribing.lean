import PubSub.Session.State

/-!
# Subscribing objects

The callbacks that an object offers, depending on the way in which it is subscribed. A listener that acts
for the object has an identity of its own; the object's handler methods share the object's.
-/

namespace PubSub

/-- The callback that is called when a listener has just one. -/
def Callback.defaultName : String :=
  "on_event"

/-- The text of a target: its name, without the address that would follow. -/
def Callback.targetText (name : String) : String :=
  name ++ "@"

/-- The type of objects, as named by those who subscribe their methods. -/
def Object.typeText : String :=
  "Obj"

namespace Object

def callback (o : Object) (identity : Nat) (label : String) (threadSafe patient : Bool) (lens : Lens) :
    Callback where
  identity := identity
  target := Callback.targetText label
  name := Callback.defaultName
  threadSafe := threadSafe
  lens := lens
  object := o.identity
  listener := o.work ⟨o.name, Callback.defaultName, patient⟩

def handler (o : Object) (m : Handler) : Key × Callback :=
  (.named m.type, {
    identity := o.identity
    target := Callback.targetText typeText
    name := m.name
    threadSafe := m.kind = .concurrent
    lens := if m.kind = .supertype then .supertype m.type else .concrete m.type
    object := o.identity
    listener := m.work ⟨o.name, m.name, false⟩ })

def handlers (o : Object) : List (Key × Callback) :=
  o.methods.map o.handler

/-- The key and the callback for each way but that of the handlers; `fresh` is an identity for a new listener. -/
def binding? (o : Object) (fresh : Nat) : Route → Option (Key × Callback)
  | .shared cls =>
    if cls.isClass then some (.named cls, o.callback o.identity o.label o.threadSafe true (.concrete cls)) else none
  | .moved cls =>
    if cls.isClass then some (.named cls, o.callback fresh o.label o.threadSafe true (.concrete cls)) else none
  | .anonymous cls =>
    if cls.isClass then some (.named cls, o.callback fresh "Anon" false true (.concrete cls)) else none
  | .viewed type => some (.named type, o.callback fresh o.label o.threadSafe true (.supertype type))
  | .function cls =>
    if cls.isClass then some (.named cls, o.callback fresh "FnListener" false false (.concrete cls)) else none
  | .viewedFunction type =>
    some (.named type, o.callback fresh "FnListener" o.threadSafe false (.supertype type))
  | .keyed key => some (key, o.callback fresh o.label o.threadSafe true .whole)
  | .handlers => none

end Object

namespace Session

def subscribed (s : Session) (b : Bus) (handle : Option String) (table : Option (List Nat)) :
    Except BusError (Bus × Handle) → Session × Answer
  | .error e => (s, .refused e table)
  | .ok (b', h) =>
    let s := (s.putBus b').placeAll b.id h.entries
    let s := s.report (b.optional (h.entries.map fun e => .subscribed e.1 e.2))
    let s := match handle with
      | some name => { s with handles := s.handles.put name h }
      | none => s
    (s, .subscribed h table)

def subscribe (s : Session) (b : Bus) (o : Object) (route : Route) (handle : Option String) : Session × Answer :=
  match route with
  | .handlers =>
    let table := if b.isOpen then (List.range o.methods.length).map (· + 1) else []
    s.subscribed b handle (some table) (b.subscribeHandlers Object.typeText o.handlers)
  | route =>
    let (s, fresh) := s.issue
    match o.binding? fresh route with
    | none => (s, .misfit)
    | some binding => s.subscribed b handle none (b.subscribe [binding])

end Session
end PubSub
