import PubSub.Config
import PubSub.Hierarchy
import PubSub.Script

/-!
# Commands

Requests to a session that are answered at once. A program makes them, and so do scripted listeners. Buses, objects,
handles, publishes and owners of buses are referred to by the names that the program gave them.
-/

namespace PubSub

/-- The way in which an object is subscribed. -/
inductive Route where
  /-- The object itself. -/
  | shared (cls : Name)
  /-- A new listener that acts for the object, as in the routes below. -/
  | moved (cls : Name)
  | anonymous (cls : Name)
  | viewed (type : Name)
  | function (cls : Name)
  | viewedFunction (type : Name)
  | keyed (key : Key)
  /-- The handler methods of the object. -/
  | handlers
  deriving DecidableEq

/-- The hold on a bus that a publisher goes through. -/
inductive Access where
  | held
  /-- Works on a bus that is gone, too: the publish fails as on a closed bus. -/
  | weak
  deriving DecidableEq

structure Publish where
  bus : String
  access : Access
  recipe : Recipe
  deriving DecidableEq

inductive Command where
  | declare (later : Hierarchy)
  | openBus (bus : String) (base : Config) (settings : List Setting)
  | clone (bus copy : String)
  | drop (bus : String)
  | alive (bus : String)
  | closed (bus : String)
  | close (bus : String)
  | count (bus : String) (type : Option Name)
  | keys (bus : String) (cls : Name)
  | debug (bus : String)
  | config (bus : String)
  | sameBus (left right : String)
  | object (name label : String) (threadSafe : Bool) (script : Script Command) (methods : List (Method Command))
  | subscribe (bus object : String) (route : Route) (handle : Option String)
  | unsubscribe (bus handle : String)
  | handle (handle : String)
  | sameHandle (left right : String)
  | start (publication : String) (publish : Publish)
  | forget (publication : String)
  | release (gate : String) (permits : Nat)
  | peak (object : String)
  | calls (object : String)
  | managed (owner : String) (config : Config)
  | init (owner : String)
  | destroy (owner : String)
  | managedBus (owner bus : String)

end PubSub
