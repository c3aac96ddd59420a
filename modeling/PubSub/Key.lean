import PubSub.Name

/-!
# Dispatch keys

Subscriptions are filed under keys. A key is a named type, or a raw wrapper applied to an argument, both
of them keys again.
-/

namespace PubSub

inductive Key where
  | named (name : Name)
  | applied (raw argument : Key)
  deriving DecidableEq

namespace Key

/-- The text of a key, for any way to write names. -/
def textWith (write : Name → String) : Key → String
  | named n => write n
  | applied r a => r.textWith write ++ "<" ++ a.textWith write ++ ">"

def text (k : Key) : String :=
  k.textWith Name.text

def debug (k : Key) : String :=
  "TypeKey(" ++ k.text ++ ")"

/-- The key that every event matches. -/
def root : Key :=
  named .root

def isRoot (k : Key) : Bool :=
  k = root

end Key
end PubSub
