import PubSub.Event

/-!
# Views

A view turns an event into a sight of one of its types: the event as its own class, followed by declared
casts. A listener looks through the view of the key that it matched, in the way its lens asks for.
-/

namespace PubSub

/-- A declared cast between two types. A type may declare several to the same target; the rank tells them apart. -/
structure Cast where
  source : Name
  target : Name
  /-- The number of supertypes that the source declares before this one. -/
  rank : Nat
  deriving DecidableEq

/-- Casting to a class finds the embedded value, to an interface or the root keeps the value, to a wrapper
gives the wrapper's constant. -/
def Cast.apply (c : Cast) : Sight → Except Crash Sight
  | .wrapper i => .ok (.wrapper i)
  | .event e _ =>
    match c.target with
    | .interface _ | .root => .ok (.event e c.target)
    | .wrapper i => .ok (.wrapper i)
    | .composite _ | .simple _ | .dead =>
      match e.base? c.target with
      | some p => .ok (.event (.value p) c.target)
      | none => .error (.missingBase e.cls c.target)

inductive View where
  /-- Every event, as the root. -/
  | root
  /-- An event of exactly this class, as itself. -/
  | own (cls : Name)
  | through (view : View) (cast : Cast)
  deriving DecidableEq

namespace View

def target : View → Name
  | root => .root
  | own cls => cls
  | through _ c => c.target

/-- What the view shows of an event; nothing if the event is not of the class where the view starts. -/
def look : View → Event → Except Crash (Option Sight)
  | root, e => .ok (some (.event e .root))
  | own cls, e => .ok (if e.cls = cls then some (.event e cls) else none)
  | through v c, e => do
    match ← v.look e with
    | none => return none
    | some s => return some (← c.apply s)

/-- Looks only if the view shows the wanted type. -/
def cast (v : View) (wanted : Name) (e : Event) : Except Crash (Option Sight) :=
  if v.target = wanted then v.look e else .ok none

/-- The view followed by a path of casts, if each cast starts where the one before it ends. -/
def along (v : View) : List Cast → Option View
  | [] => some v
  | c :: path => if v.target = c.source then (v.through c).along path else none

end View

/-- How a listener takes an event in. -/
inductive Lens where
  /-- As a class: through the view, or else if the event is of that very class. -/
  | concrete (cls : Name)
  /-- As a supertype: through the view alone. -/
  | supertype (name : Name)
  /-- As an event, whatever key it matched. -/
  | whole
  deriving DecidableEq

namespace Lens

/-- The type that the listener is written for. -/
def expected : Lens → Name
  | concrete cls => cls
  | supertype name => name
  | whole => .root

def throughView (view : Option View) (wanted : Name) (e : Event) : Except Crash (Option Sight) :=
  match view with
  | none => .ok none
  | some v => v.cast wanted e

def extract (lens : Lens) (view : Option View) (e : Event) : Except Crash (Option Sight) :=
  match lens with
  | concrete cls => do
    match ← throughView view cls e with
    | some s => return some s
    | none => return if e.cls = cls then some (.event e cls) else none
  | supertype name => throughView view name e
  | whole => .ok (some (.event e .root))

end Lens
end PubSub
