import PubSub.Json.Number
import PubSub.Json.Text

/-!
# Passing over values

A value that nobody asked for still has to be well formed.
-/

namespace PubSub.Json

mutual

def skipWithin : Nat → List Char → Except Flaw (List Char)
  | 0, _ => .error .malformed
  | rounds + 1, s =>
    match skipBlank s with
    | [] => .error .truncated
    | 'n' :: r => literal ['u', 'l', 'l'] r
    | 't' :: r => literal ['r', 'u', 'e'] r
    | 'f' :: r => literal ['a', 'l', 's', 'e'] r
    | '-' :: r => skipNumber r
    | '"' :: r => Prod.snd <$> readText false .plain r
    | '[' :: r =>
      match skipBlank r with
      | ']' :: q => .ok q
      | q => skipElements rounds q
    | '\x7b' :: r =>
      match skipBlank r with
      | '\x7d' :: q => .ok q
      | q => skipMembers rounds q
    | c :: r => if c.isDigit then skipNumber (c :: r) else .error .malformed

def skipElements : Nat → List Char → Except Flaw (List Char)
  | 0, _ => .error .malformed
  | rounds + 1, s => do
    match skipBlank (← skipWithin rounds s) with
    | ',' :: r => skipElements rounds r
    | ']' :: r => .ok r
    | [] => .error .truncated
    | _ => .error .malformed

def skipMembers : Nat → List Char → Except Flaw (List Char)
  | 0, _ => .error .malformed
  | rounds + 1, s =>
    match skipBlank s with
    | '"' :: r => do
      let (_, q) ← readText false .plain r
      match skipBlank q with
      | ':' :: q => do
        match skipBlank (← skipWithin rounds q) with
        | ',' :: r => skipMembers rounds r
        | '\x7d' :: r => .ok r
        | [] => .error .truncated
        | _ => .error .malformed
      | [] => .error .truncated
      | _ => .error .malformed
    | [] => .error .truncated
    | _ => .error .malformed

end

/-- Passes over one value. Every round but the last uses up a character or ends the run, so twice the length of
the text is enough. -/
def skipValue (s : List Char) : Except Flaw (List Char) :=
  skipWithin (2 * s.length + 2) s

end PubSub.Json
