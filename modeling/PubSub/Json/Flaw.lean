/-!
# Flaws of a document

Why a JSON document is not accepted. The flaw that is met first, from left to right, is the one reported.
-/

namespace PubSub.Json

inductive Flaw where
  /-- The text is not JSON. -/
  | malformed
  /-- The text ends too early. -/
  | truncated
  /-- A value has the wrong type, is out of bounds, or is given twice. -/
  | mistyped
  deriving DecidableEq

def isBlank (c : Char) : Bool :=
  c = ' ' || c = '\n' || c = '\t' || c = '\r'

def skipBlank (s : List Char) : List Char :=
  s.dropWhile isBlank

/-- The rest of a bare word, such as `null`, letter by letter. -/
def literal : List Char → List Char → Except Flaw (List Char)
  | [], s => .ok s
  | _ :: _, [] => .error .truncated
  | e :: es, c :: s => if c = e then literal es s else .error .malformed

end PubSub.Json
