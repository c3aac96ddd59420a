import PubSub.Declaration

/-!
# Hierarchies

The declarations in force, by name. A later declaration of a name replaces the one before. Declarations refer
to each other by name and without cycles, so unfolding one takes no more rounds than there are names.
-/

namespace PubSub

/-- A supertype as it is declared: its values are embedded with a shifted number, and it is reached by a cast
to `target`. -/
structure Supertype where
  name : Name
  shift : Int64
  target : Name
  deriving DecidableEq

/-- What is declared for one name. -/
structure Entry where
  /-- An event class that declares itself without a view of its own. -/
  viewless : Bool
  /-- The class presents the descriptor of this name instead of its own. -/
  presents : Option Name
  supertypes : List Supertype
  parameters : List (Key × Name)
  deriving DecidableEq

def Entry.empty : Entry :=
  ⟨false, none, [], []⟩

abbrev Hierarchy := List (Name × Entry)

namespace Hierarchy

def entry (h : Hierarchy) (n : Name) : Entry :=
  (h.lookup n).getD .empty

/-- The later declarations replace those of the same names. -/
def replace (h later : Hierarchy) : Hierarchy :=
  later ++ h.filter fun e => !later.any (·.1 = e.1)

def extended (decl : Name → Declaration) (start : Declaration) (e : Entry) : Declaration :=
  let whole := e.supertypes.foldl (fun d s => .extending d (decl s.name) s.target) start
  e.parameters.foldl (fun d p => .parameterized d p.1 (decl p.2)) whole

def unfold (h : Hierarchy) : Nat → Name → Declaration
  | 0, n => .abstract n
  | rounds + 1, n =>
    match n with
    | .composite _ =>
      let e := h.entry n
      match e.presents with
      | some other => unfold h rounds other
      | none => extended (unfold h rounds) (if e.viewless then .abstract n else .concrete n) e
    | .interface _ => extended (unfold h rounds) (.abstract n) (h.entry n)
    | .dead => .concrete n
    | .simple _ | .wrapper _ | .root => .abstract n

/-- The declaration in force for a name. -/
def declaration (h : Hierarchy) (n : Name) : Declaration :=
  h.unfold (h.length + 1) n

def describe (h : Hierarchy) (n : Name) : Except Crash Descriptor :=
  (h.declaration n).describe

/-- What an event of the class declares when it is asked. -/
def declared (h : Hierarchy) (cls : Name) : Except Crash Descriptor :=
  match cls with
  | .dead => (Declaration.abstract .dead).describe
  | _ => h.describe cls

def embed (h : Hierarchy) (note : String) (unprintable : Bool) : Nat → Name → Int64 → Payload
  | 0, cls, number => ⟨cls, number, note, unprintable, []⟩
  | rounds + 1, cls, number =>
    let embedded (s : Supertype) : Payload := embed h note unprintable rounds s.name (number + s.shift)
    match cls with
    | .composite _ =>
      ⟨cls, number, note, unprintable, ((h.entry cls).supertypes.filter (·.name.isPublishable)).map embedded⟩
    | _ => ⟨cls, number, note, unprintable, []⟩

/-- A value of an event class with all its base values. -/
def value (h : Hierarchy) (cls : Name) (number : Int64) (note : String) (unprintable : Bool) : Event :=
  .value (h.embed note unprintable (h.length + 1) cls number)

end Hierarchy
end PubSub
