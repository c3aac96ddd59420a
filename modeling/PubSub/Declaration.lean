import PubSub.Descriptor

/-!
# Declarations

How a type was declared, call by call. Describing a declaration replays the calls; a supertype reached by a
cast to another type ends it.
-/

namespace PubSub

inductive Declaration where
  | concrete (cls : Name)
  | abstract (name : Name)
  /-- One more supertype, reached by a cast to `target`. -/
  | extending (base parent : Declaration) (target : Name)
  /-- The reified form of `raw`; of several, the last one counts. -/
  | parameterized (base : Declaration) (raw : Key) (argument : Declaration)
  deriving DecidableEq

namespace Declaration

/-- The type that is declared. -/
def name : Declaration → Name
  | concrete n | abstract n => n
  | extending base _ _ | parameterized base _ _ => base.name

def draft : Declaration → Except Crash Draft
  | concrete cls => .ok (.concrete cls)
  | abstract n => .ok (.abstract n)
  | extending base parent target => do
    let d ← base.draft
    d.extend (← parent.draft).build target
  | parameterized base raw argument => do
    let d ← base.draft
    return d.parameterized raw (← argument.draft).build

def describe (d : Declaration) : Except Crash Descriptor :=
  Draft.build <$> d.draft

end Declaration
end PubSub
