import PubSub.Json.Flaw

/-!
# JSON strings

Reading a string character by character, and writing one. Escapes of characters beyond sixteen bits come in
pairs. A string that is only passed over may hold halves of such pairs.
-/

namespace PubSub.Json

/-- Where a reader stands inside a string. -/
inductive Mode where
  | plain
  /-- After a backslash. -/
  | escaped
  /-- After some of four hexadecimal digits; `high` is the first half of a pair. -/
  | hex (high : Option Nat) (read value : Nat)
  /-- Before the backslash of the second half. -/
  | backslash (high : Nat)
  /-- Before the letter of the second half. -/
  | letter (high : Nat)

def simpleEscape? : Char → Option Char
  | '"' => some '"'
  | '\\' => some '\\'
  | '/' => some '/'
  | 'b' => some '\x08'
  | 'f' => some '\x0c'
  | 'n' => some '\n'
  | 'r' => some '\r'
  | 't' => some '\t'
  | _ => none

def hexValue? (c : Char) : Option Nat :=
  if '0' ≤ c ∧ c ≤ '9' then some (c.toNat - '0'.toNat)
  else if 'a' ≤ c ∧ c ≤ 'f' then some (c.toNat - 'a'.toNat + 10)
  else if 'A' ≤ c ∧ c ≤ 'F' then some (c.toNat - 'A'.toNat + 10)
  else none

def isHighHalf (n : Nat) : Bool :=
  0xD800 ≤ n && n ≤ 0xDBFF

def isLowHalf (n : Nat) : Bool :=
  0xDC00 ≤ n && n ≤ 0xDFFF

def joinHalves (high low : Nat) : Char :=
  Char.ofNat (0x10000 + (high - 0xD800) * 0x400 + (low - 0xDC00))

/-- The number of bytes that the text takes. -/
def byteCount (s : List Char) : Nat :=
  (String.ofList s).utf8ByteSize

def andThen (c : Char) (r : Except Flaw (List Char × List Char)) : Except Flaw (List Char × List Char) :=
  r.map fun p => (c :: p.1, p.2)

/-- Reads up to the closing quote; gives the text and what follows. Lax reading takes any four digits. -/
def readText (strict : Bool) : Mode → List Char → Except Flaw (List Char × List Char)
  | _, [] => .error .truncated
  | .plain, c :: r =>
    if c = '"' then .ok ([], r)
    else if c = '\\' then readText strict .escaped r
    else if c.toNat < 0x20 then .error .malformed
    else andThen c (readText strict .plain r)
  | .escaped, c :: r =>
    if c = 'u' then readText strict (.hex none 0 0) r
    else match simpleEscape? c with
      | some d => andThen d (readText strict .plain r)
      | none => .error .malformed
  | .hex high read value, c :: r =>
    match hexValue? c with
    | none => .error (if read + byteCount (c :: r) < 4 then .truncated else .malformed)
    | some d =>
      let n := 16 * value + d
      if read < 3 then readText strict (.hex high (read + 1) n) r
      else if !strict then readText strict .plain r
      else match high with
        | some h => if isLowHalf n then andThen (joinHalves h n) (readText strict .plain r) else .error .malformed
        | none =>
          if isLowHalf n then .error .malformed
          else if isHighHalf n then readText strict (.backslash n) r
          else andThen (Char.ofNat n) (readText strict .plain r)
  | .backslash high, c :: r => if c = '\\' then readText strict (.letter high) r else .error .malformed
  | .letter high, c :: r => if c = 'u' then readText strict (.hex (some high) 0 0) r else .error .malformed

section Modes

-- what one character does in each mode, so that proofs need not unfold the reader
variable (strict : Bool) (c : Char) (r : List Char)

theorem readText_plain : readText strict .plain (c :: r) =
    if c = '"' then .ok ([], r)
    else if c = '\\' then readText strict .escaped r
    else if c.toNat < 0x20 then .error .malformed
    else andThen c (readText strict .plain r) :=
  rfl

theorem readText_escaped : readText strict .escaped (c :: r) =
    if c = 'u' then readText strict (.hex none 0 0) r
    else match simpleEscape? c with
      | some d => andThen d (readText strict .plain r)
      | none => .error .malformed :=
  rfl

theorem readText_hex (high : Option Nat) (read value : Nat) : readText strict (.hex high read value) (c :: r) =
    match hexValue? c with
    | none => .error (if read + byteCount (c :: r) < 4 then .truncated else .malformed)
    | some d =>
      let n := 16 * value + d
      if read < 3 then readText strict (.hex high (read + 1) n) r
      else if !strict then readText strict .plain r
      else match high with
        | some h => if isLowHalf n then andThen (joinHalves h n) (readText strict .plain r) else .error .malformed
        | none =>
          if isLowHalf n then .error .malformed
          else if isHighHalf n then readText strict (.backslash n) r
          else andThen (Char.ofNat n) (readText strict .plain r) :=
  rfl

theorem readText_backslash (high : Nat) : readText strict (.backslash high) (c :: r) =
    if c = '\\' then readText strict (.letter high) r else .error .malformed :=
  rfl

theorem readText_letter (high : Nat) : readText strict (.letter high) (c :: r) =
    if c = 'u' then readText strict (.hex (some high) 0 0) r else .error .malformed :=
  rfl

end Modes

def hexDigit (n : Nat) : Char :=
  Char.ofNat (if n < 10 then '0'.toNat + n else 'a'.toNat + (n - 10))

/-- Quotes, backslashes and control characters are escaped, and nothing else. -/
def escape (c : Char) : List Char :=
  if c = '"' then ['\\', '"']
  else if c = '\\' then ['\\', '\\']
  else if c = '\x08' then ['\\', 'b']
  else if c = '\x0c' then ['\\', 'f']
  else if c = '\n' then ['\\', 'n']
  else if c = '\r' then ['\\', 'r']
  else if c = '\t' then ['\\', 't']
  else if c.toNat < 0x20 then ['\\', 'u', '0', '0', hexDigit (c.toNat / 16), hexDigit (c.toNat % 16)]
  else [c]

def quote (s : String) : String :=
  String.ofList ('"' :: s.toList.flatMap escape ++ ['"'])

end PubSub.Json
