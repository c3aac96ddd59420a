/-!
# Names of types

Everything that takes part in dispatch is named: event classes, the interfaces they can be viewed as, raw
wrappers, the universal root, and the event that stands for an unheard one.
-/

namespace PubSub

inductive Name where
  /-- An event class with a declared hierarchy. -/
  | composite (index : Nat)
  /-- An event class that declares nothing beyond itself. -/
  | simple (index : Nat)
  | interface (index : Nat)
  /-- A raw wrapper: only ever a key, never the class of an event. -/
  | wrapper (index : Nat)
  /-- The supertype of every event. -/
  | root
  /-- The class of the event that carries an unheard one. -/
  | dead
  deriving DecidableEq

namespace Name

def text : Name → String
  | composite i => "C" ++ toString i
  | simple i => "P" ++ toString i
  | interface i => "I" ++ toString i
  | wrapper i => "R" ++ toString i
  | root => "root"
  | dead => "DeadEvent"

/-- Classes whose values a publisher can make. -/
def isPublishable : Name → Bool
  | composite _ | simple _ => true
  | _ => false

/-- Classes that a published event can have. -/
def isClass : Name → Bool
  | composite _ | simple _ | dead => true
  | _ => false

end Name
end PubSub
