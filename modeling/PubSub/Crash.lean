import PubSub.Key

/-!
# Crashes

What can go wrong so badly that the code running at that moment is abandoned.
-/

namespace PubSub

inductive Crash where
  /-- A supertype was declared with a cast to some other type. -/
  | castMismatch (parent : Key)
  /-- A cast asked an event for an embedded value that it does not have. -/
  | missingBase (cls base : Name)
  /-- The event cannot be rendered for diagnostics. -/
  | unprintable
  /-- A listener gave up, with or without a readable message. -/
  | raised (message : Option String)
  /-- Workers cannot have a name that holds a NUL. -/
  | unnameable (name : String)
  /-- There are more workers than can be counted, together with the spare ones. -/
  | workersUncountable
  /-- There are more workers than can be listed in memory. -/
  | workersUnlistable
  deriving DecidableEq

/-- The bytes of a name, and the place of the first NUL among them. -/
private def nulText (name : String) : String :=
  let bytes := name.toUTF8.data.toList
  "NulError(" ++ toString (bytes.idxOf 0) ++ ", [" ++ ", ".intercalate (bytes.map toString) ++ "])"

def Crash.message : Crash → String
  | castMismatch parent => "cast target does not match parent key " ++ parent.text
  | missingBase cls base => cls.text ++ " has no base " ++ base.text
  | unprintable => "debug boom"
  | raised none => "unknown panic"
  | raised (some m) => m
  | unnameable name => "thread name may not contain interior null bytes: " ++ nulText name
  | workersUncountable => "attempt to add with overflow"
  | workersUnlistable => "capacity overflow"

end PubSub
