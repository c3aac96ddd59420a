import PubSub.Delivery
import PubSub.Event

/-!
# Scripts

What a scripted listener does with an event. A script asks about the event and the depth until it comes to a leaf:
requests to make, a gate to pass, and a deed that decides the reply. The type of requests is left open.
-/

namespace PubSub

inductive Measure where
  /-- The number that the event carries. -/
  | number
  /-- How deep publishes are nested. -/
  | depth
  deriving DecidableEq

inductive Comparison where
  | less
  | equal
  | greater
  deriving DecidableEq

def Comparison.holds : Comparison → Int → Int → Bool
  | less, a, b => a < b
  | equal, a, b => a = b
  | greater, a, b => b < a

/-- The end of a listener's work, at once or later. -/
inductive Ending where
  | done
  | value (value : Value)
  | fail (message : String)
  /-- The listener gives up, with or without a readable message. -/
  | crash (message : Option String)
  deriving DecidableEq

/-- The number of an event to make, absolute or relative to the event in sight. -/
inductive Amount where
  | fixed (number : Int64)
  | shifted (difference : Int64)
  deriving DecidableEq

def Amount.resolve : Amount → Int64 → Int64
  | fixed n, _ => n
  | shifted d, seen => seen + d

/-- A value of an event class that is yet to be made. -/
structure Recipe where
  cls : Name
  number : Int64
  note : String
  unprintable : Bool
  deriving DecidableEq

inductive Subject where
  | fresh (cls : Name) (amount : Amount) (note : String) (unprintable : Bool)
  /-- The event in sight. -/
  | seen
  /-- The unheard event carried by the one in sight. -/
  | inner
  deriving DecidableEq

/-- What a publisher hands over. -/
inductive Message where
  | recipe (recipe : Recipe)
  | event (event : Event)

def Subject.message? : Subject → Sight → Option Message
  | fresh cls amount note unprintable, sight =>
    some (.recipe ⟨cls, amount.resolve sight.number, note, unprintable⟩)
  | seen, sight => sight.whole?.map .event
  | inner, sight => sight.unheard?.map .event

/-- What a listener does about a publish of its own. -/
inductive Follow where
  /-- It awaits the outcome in its callback. -/
  | await
  /-- It leaves the outcome as its reply. -/
  | defer
  /-- It hands the publish to the program. -/
  | forward
  deriving DecidableEq

inductive Deed where
  | finish (ending : Ending)
  /-- Replies with the name of the worker. -/
  | workerName
  /-- Leaves the end of its work for later, beyond a gate if there is one. -/
  | defer (gate : Option String) (ending : Ending)
  | publish (bus : String) (follow : Follow) (subject : Subject)
  deriving DecidableEq

structure Leaf (α : Type) where
  requests : List α
  gate : Option String
  deed : Deed

inductive Script (α : Type) where
  | leaf (leaf : Leaf α)
  | branch (measure : Measure) (comparison : Comparison) (bound : Int) (yes no : Script α)

namespace Script

/-- Does nothing. -/
def idle {α : Type} : Script α :=
  .leaf ⟨[], none, .finish .done⟩

def pick {α : Type} (depth : Nat) (number : Int64) : Script α → Leaf α
  | leaf l => l
  | branch measure comparison bound yes no =>
    let measured : Int := match measure with
      | .number => number.toInt
      | .depth => depth
    if comparison.holds measured bound then yes.pick depth number else no.pick depth number

end Script

/-- How a handler method of an object is declared. -/
inductive MethodKind where
  | serial
  | concurrent
  /-- Takes a supertype. -/
  | supertype
  deriving DecidableEq

structure Method (α : Type) where
  name : String
  type : Name
  kind : MethodKind
  script : Script α

end PubSub
