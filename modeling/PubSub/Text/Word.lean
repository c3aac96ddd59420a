import PubSub.Text.Blank

/-!
# Words and numbers in variables

A variable holds a word in any case or a number that fits 64 bits, with blanks around it. No character outside
ASCII has a lower-case form among the letters of the words in use, so the case of ASCII letters is all that counts.
-/

namespace PubSub.Text

/-- The text is this lower-case word, in any case and between blanks. -/
def isWord (word : String) (text : String) : Bool :=
  (trim text.toList).map Char.toLower = word.toList

def digitsValue (cs : List Char) : Nat :=
  cs.foldl (fun n c => 10 * n + (c.toNat - '0'.toNat)) 0

/-- At least one decimal digit and nothing else. -/
def digits? (cs : List Char) : Option Nat :=
  if cs ≠ [] ∧ cs.all Char.isDigit then some (digitsValue cs) else none

/-- Digits after an optional plus sign, between blanks, that denote a number of 64 bits. -/
def natural? (text : String) : Option UInt64 := do
  let n ← digits? (match trim text.toList with
    | '+' :: cs => cs
    | cs => cs)
  if n < UInt64.size then some (UInt64.ofNat n) else none

end PubSub.Text
