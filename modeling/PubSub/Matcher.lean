import PubSub.Descriptor

/-!
# Matching events to keys

A matcher remembers the resolution of each class that it has met. A class is asked for its declaration only
once; a crash while it answers leaves nothing behind.
-/

namespace PubSub

structure Matcher where
  entries : List (Name × Resolution)
  deriving DecidableEq

namespace Matcher

def empty : Matcher :=
  ⟨[]⟩

/-- How an event of the class resolves when it is not remembered. -/
def resolveFresh (declared : Name → Except Crash Descriptor) (cls : Name) : Except Crash Resolution := do
  return ((← declared cls).completed cls).resolve

def keysFor (m : Matcher) (declared : Name → Except Crash Descriptor) (cls : Name) :
    Except Crash (Resolution × Matcher) :=
  match m.entries.lookup cls with
  | some r => .ok (r, m)
  | none => do
    let r ← resolveFresh declared cls
    return (r, ⟨(cls, r) :: m.entries⟩)

/-- The number of classes remembered. -/
def size (m : Matcher) : Nat :=
  m.entries.length

end Matcher
end PubSub
