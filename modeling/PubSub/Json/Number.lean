import PubSub.Json.Flaw

/-!
# JSON numbers

Only natural numbers of 64 bits are of use here; every other number is told apart from malformed text. A number
beyond the largest double-precision number counts as malformed.
-/

namespace PubSub.Json

/-- The nearest number with 53 significant bits; a tie goes to the even one. -/
def nearestDouble (n : Nat) : Nat :=
  let unit := 1 <<< (n.log2 - 52)
  let down := n / unit
  let rest := n % unit
  let up := if 2 * rest > unit ∨ (2 * rest = unit ∧ down % 2 = 1) then 1 else 0
  (down + up) * unit

/-- The least real number that no double-precision number is nearest to. -/
def doubleLimit : Nat :=
  1 <<< 1024 - 1 <<< 970

/-- Whether significand times a power of ten, both rounded first, is beyond all double-precision numbers. -/
def isBeyondDouble (significand : Nat) (exponent : Int) : Bool :=
  if exponent < 0 then false
  else if exponent ≤ 308 then
    doubleLimit ≤ nearestDouble significand * nearestDouble (Nat.pow 10 exponent.toNat)
  else significand ≠ 0

inductive Number where
  | natural (value : UInt64)
  /-- A negative number, a number of more than 64 bits, or one with a fraction or an exponent. -/
  | other
  deriving DecidableEq

/-- The digits at the front, as numbers, and what follows. -/
def digitRun (s : List Char) : List Nat × List Char :=
  ((s.takeWhile Char.isDigit).map fun c => c.toNat - '0'.toNat, s.dropWhile Char.isDigit)

/-- Extends a significand digit by digit while it fits 64 bits; gives also how many digits did not fit. -/
def absorb (significand : Nat) : List Nat → Nat × Nat
  | [] => (significand, 0)
  | d :: ds =>
    if 10 * significand + d < UInt64.size then absorb (10 * significand + d) ds
    else (significand, ds.length + 1)

def bounded (significand : Nat) (exponent : Int) (rest : List Char) :
    Except Flaw (Number × List Char) :=
  if isBeyondDouble significand exponent then .error .malformed else .ok (.other, rest)

def readExponent (significand : Nat) (exponent : Int) (s : List Char) :
    Except Flaw (Number × List Char) :=
  let (negative, r) := match s with
    | '+' :: r => (false, r)
    | '-' :: r => (true, r)
    | r => (false, r)
  match digitRun r with
  | ([], []) => .error .truncated
  | ([], _ :: _) => .error .malformed
  | (ds, rest) =>
    let n : Nat := ds.foldl (fun n d => 10 * n + d) 0
    if n < 1 <<< 31 then bounded significand (exponent + (if negative then -n else n : Int)) rest
    else if significand ≠ 0 ∧ !negative then .error .malformed
    else .ok (.other, rest)

def readFraction (significand left : Nat) (s : List Char) : Except Flaw (Number × List Char) :=
  match digitRun s with
  | ([], []) => .error .truncated
  | ([], _ :: _) => .error .malformed
  | (ds, rest) =>
    let (n, skipped) := absorb significand ds
    let exponent : Int := left - (ds.length - skipped : Nat)
    match rest with
    | 'e' :: r | 'E' :: r => readExponent n exponent r
    | _ => bounded n exponent rest

/-- Reads a number after its sign. -/
def readNumber (negative : Bool) (s : List Char) : Except Flaw (Number × List Char) :=
  match digitRun s with
  | ([], []) => .error .truncated
  | ([], _ :: _) => .error .malformed
  | (0 :: _ :: _, _) => .error .malformed
  | (ds, rest) =>
    let (n, left) := absorb 0 ds
    match rest with
    | '.' :: r => readFraction n left r
    | 'e' :: r | 'E' :: r => readExponent n left r
    | _ =>
      if left ≠ 0 then bounded n left rest
      else .ok (if negative then .other else .natural (UInt64.ofNat n), rest)

/-- Passes over digits of which there has to be one. -/
def skipDigits (s : List Char) : Except Flaw (List Char) :=
  match digitRun s with
  | ([], _) => .error .malformed
  | (_, rest) => .ok rest

def skipExponent (s : List Char) : Except Flaw (List Char) :=
  match s with
  | 'e' :: r | 'E' :: r =>
    match r with
    | '+' :: q | '-' :: q => skipDigits q
    | q => skipDigits q
  | r => .ok r

/-- Passes over a number after its sign, whatever its size. A number cut short is malformed. -/
def skipNumber (s : List Char) : Except Flaw (List Char) :=
  match digitRun s with
  | ([], _) | (0 :: _ :: _, _) => .error .malformed
  | (_, '.' :: r) => do skipExponent (← skipDigits r)
  | (_, rest) => skipExponent rest

end PubSub.Json
