import PubSub.View

/-!
# Descriptors

The declared type of an event: its own name, the supertypes it inherits with the casts that lead to them, and
what it is the reified form of. Resolving a descriptor gives the keys of dispatch, each at most once, with
the views that show the event under them.
-/

namespace PubSub

/-- The first entry of each key, without the keys in `seen`. -/
def freshEntries {α : Type} (seen : List Key) : List (Key × α) → List (Key × α)
  | [] => []
  | e :: es => if e.1 ∈ seen then freshEntries seen es else e :: freshEntries (e.1 :: seen) es

/-- A key reached through declared supertypes, with the casts that lead there; reified and raw keys have none. -/
abbrev Ancestor := Key × Option (List Cast)

/-- What a type is the reified form of: a raw wrapper applied to any key of the argument. -/
structure Parameter where
  raw : Key
  arguments : List Key
  deriving DecidableEq

def Parameter.keys (p : Parameter) : List Key :=
  p.arguments.map (Key.applied p.raw)

/-- The keys of dispatch, most specific first, with their views. -/
abbrev Resolution := List (Key × Option View)

def Resolution.keys (r : Resolution) : List Key :=
  r.map Prod.fst

structure Descriptor where
  name : Name
  /-- The view of an event as this type; absent for types that no event has as its class. -/
  view : Option View
  ancestors : List Ancestor
  parameter : Option Parameter
  deriving DecidableEq

namespace Descriptor

def key (d : Descriptor) : Key :=
  .named d.name

def reified (d : Descriptor) : List Key :=
  d.parameter.elim [] Parameter.keys

def raw (d : Descriptor) : List Key :=
  d.parameter.elim [] fun p => [p.raw]

/-- Own key, reified keys, ancestors, raw key and root, in the order of precedence. -/
def candidates (d : Descriptor) : Resolution :=
  (d.key, d.view)
    :: d.reified.map (·, none)
    ++ d.ancestors.map (fun a => (a.1, do (← d.view).along (← a.2)))
    ++ d.raw.map (·, none)
    ++ [(Key.root, some View.root)]

def resolve (d : Descriptor) : Resolution :=
  freshEntries [] d.candidates

def keys (d : Descriptor) : List Key :=
  d.resolve.keys

/-- A descriptor without a view of its own gets the view of the event's class, if it describes that class. -/
def completed (d : Descriptor) (cls : Name) : Descriptor :=
  if d.view.isNone ∧ d.name = cls then { d with view := some (.own cls) } else d

def debug (d : Descriptor) : String :=
  "EventType \x7b key: " ++ d.key.debug ++ ", ancestors: ["
    ++ ", ".intercalate (d.ancestors.map (·.1.debug)) ++ "] \x7d"

end Descriptor

/-- A descriptor in the making: supertypes named directly come before what they bring along. -/
structure Draft where
  name : Name
  view : Option View
  direct : List Ancestor
  inherited : List Ancestor
  parameter : Option Parameter

namespace Draft

/-- Starts the description of an event class. -/
def concrete (cls : Name) : Draft :=
  ⟨cls, some (.own cls), [], [], none⟩

/-- Starts the description of a type that need not be the class of any event. -/
def abstract (name : Name) : Draft :=
  ⟨name, none, [], [], none⟩

/-- Adds a supertype, reached by a cast to `target`, and all that it inherits. -/
def extend (d : Draft) (parent : Descriptor) (target : Name) : Except Crash Draft :=
  let cast : Cast := ⟨d.name, target, d.direct.length⟩
  if parent.key = .named target then
    .ok { d with
      direct := d.direct ++ [(parent.key, some [cast])]
      inherited := d.inherited ++ parent.reified.map (·, none)
        ++ parent.ancestors.map (fun a => (a.1, a.2.map (cast :: ·)))
        ++ parent.raw.map (·, none) }
  else
    .error (.castMismatch parent.key)

/-- Makes the type the reified form of `raw` applied to the argument's keys. -/
def parameterized (d : Draft) (raw : Key) (argument : Descriptor) : Draft :=
  { d with parameter := some ⟨raw, argument.keys⟩ }

def build (d : Draft) : Descriptor where
  name := d.name
  view := d.view
  ancestors := freshEntries [.named d.name, .root] (d.direct ++ d.inherited)
  parameter := d.parameter

end Draft
end PubSub
