import PubSub.Config
import PubSub.Json.Skip

/-!
# Configuration as a JSON document

A configuration is an object with some of the settings, or an array of the first few of them. Unknown members are
passed over. Settings that are not given keep their defaults.
-/

namespace PubSub

open Json (Flaw skipBlank)

namespace Document

abbrev Reader (α : Type) :=
  List Char → Except Flaw (α × List Char)

/-- The flaw of a value that is well formed but of another type, or else its own flaw. -/
def mismatch (s : List Char) : Flaw :=
  let verdict {α : Type} : Except Flaw α → Flaw
    | .error f => f
    | .ok _ => .mistyped
  match s with
  | [] => .truncated
  | 'n' :: r => verdict (Json.literal ['u', 'l', 'l'] r)
  | 't' :: r => verdict (Json.literal ['r', 'u', 'e'] r)
  | 'f' :: r => verdict (Json.literal ['a', 'l', 's', 'e'] r)
  | '-' :: r => verdict (Json.readNumber true r)
  | '"' :: r => verdict (Json.readText true .plain r)
  | '[' :: _ | '\x7b' :: _ => .mistyped
  | c :: r => if c.isDigit then verdict (Json.readNumber false (c :: r)) else .malformed

def naturalOnly : Json.Number × List Char → Except Flaw (UInt64 × List Char)
  | (.natural n, r) => .ok (n, r)
  | (.other, _) => .error .mistyped

def readNatural : Reader UInt64 := fun s =>
  match skipBlank s with
  | '-' :: r => do naturalOnly (← Json.readNumber true r)
  | c :: r => if c.isDigit then do naturalOnly (← Json.readNumber false (c :: r)) else .error (mismatch (c :: r))
  | [] => .error .truncated

def readOptional : Reader (Option UInt64) := fun s =>
  match skipBlank s with
  | 'n' :: r => do return (none, ← Json.literal ['u', 'l', 'l'] r)
  | r => do
    let (n, q) ← readNatural r
    return (some n, q)

def readString : Reader String := fun s =>
  match skipBlank s with
  | '"' :: r => do
    let (t, q) ← Json.readText true .plain r
    return (String.ofList t, q)
  | r => .error (mismatch r)

def readFlag : Reader Bool := fun s =>
  match skipBlank s with
  | 't' :: r => do return (true, ← Json.literal ['r', 'u', 'e'] r)
  | 'f' :: r => do return (false, ← Json.literal ['a', 'l', 's', 'e'] r)
  | r => .error (mismatch r)

def readColon (s : List Char) : Except Flaw (List Char) :=
  match skipBlank s with
  | ':' :: r => .ok r
  | [] => .error .truncated
  | _ => .error .malformed

def readPolicyName : Reader Policy := fun s => do
  let (t, r) ← readString s
  match Policy.all.find? (·.text = t) with
  | some p => return (p, r)
  | none => throw .mistyped

/-- A policy is its name, or an object whose only member has that name and the value null. -/
def readPolicy : Reader Policy := fun s =>
  match skipBlank s with
  | '"' :: r => readPolicyName ('"' :: r)
  | '\x7b' :: r => do
    let (p, q) ← readPolicyName r
    match skipBlank (← readColon q) with
    | 'n' :: q => do
      match skipBlank (← Json.literal ['u', 'l', 'l'] q) with
      | '\x7d' :: q => return (p, q)
      | [] => throw .truncated
      | _ => throw .malformed
    | q => throw (mismatch q)
  | [] => .error .truncated
  | _ => .error .malformed

/-- Reads the value of one setting. -/
def readField (c : Config) : Field → List Char → Except Flaw (Config × List Char)
  | .workerThreads, s => do
    let (v, r) ← readOptional s
    return ({ c with workerThreads := v }, r)
  | .maxWorkerThreads, s => do
    let (v, r) ← readNatural s
    return ({ c with maxWorkerThreads := v }, r)
  | .threadName, s => do
    let (v, r) ← readString s
    return ({ c with threadName := v }, r)
  | .deadEvents, s => do
    let (v, r) ← readPolicy s
    return ({ c with deadEvents := v }, r)
  | .maxPublishDepth, s => do
    let (v, r) ← readOptional s
    return ({ c with maxPublishDepth := v }, r)
  | .enableLogging, s => do
    let (v, r) ← readFlag s
    return ({ c with enableLogging := v }, r)

/-- Reads one member after its opening quote; gives also the settings met so far. -/
def readMember (met : List Field) (c : Config) (s : List Char) :
    Except Flaw (List Field × Config × List Char) := do
  let (name, r) ← Json.readText true .plain s
  match Field.ofName? (String.ofList name) with
  | some f =>
    if f ∈ met then throw .mistyped
    let (c', q) ← readField c f (← readColon r)
    return (f :: met, c', q)
  | none => return (met, c, ← Json.skipValue (← readColon r))

/-- Reads further members up to the closing brace. Every round uses up a member. -/
def readMembers : Nat → List Field → Config → List Char → Except Flaw (Config × List Char)
  | 0, _, _, _ => .error .malformed
  | rounds + 1, met, c, s =>
    match skipBlank s with
    | '\x7d' :: r => .ok (c, r)
    | ',' :: r =>
      match skipBlank r with
      | '"' :: q => do
        let (met', c', q') ← readMember met c q
        readMembers rounds met' c' q'
      | [] => .error .truncated
      | _ => .error .malformed
    | [] => .error .truncated
    | _ => .error .malformed

/-- Reads an object after its opening brace. -/
def readObject (s : List Char) : Except Flaw (Config × List Char) :=
  match skipBlank s with
  | '\x7d' :: r => .ok (.default, r)
  | '"' :: r => do
    let (met, c, q) ← readMember [] .default r
    readMembers (q.length + 1) met c q
  | [] => .error .truncated
  | _ => .error .malformed

/-- Reads further elements up to the closing bracket, the settings in their order. -/
def readElements (c : Config) : List Field → List Char → Except Flaw (Config × List Char)
  | [], s =>
    match skipBlank s with
    | ']' :: r => .ok (c, r)
    | [] => .error .truncated
    | _ => .error .malformed
  | f :: fs, s =>
    match skipBlank s with
    | ']' :: r => .ok (c, r)
    | ',' :: r =>
      match skipBlank r with
      | ']' :: _ => .error .malformed
      | [] => .error .truncated
      | q => do
        let (c', q') ← readField c f q
        readElements c' fs q'
    | [] => .error .truncated
    | _ => .error .malformed

/-- Reads an array after its opening bracket. -/
def readArray (s : List Char) : Except Flaw (Config × List Char) :=
  match skipBlank s with
  | ']' :: r => .ok (.default, r)
  | [] => .error .truncated
  | q => do
    let (c, r) ← readField .default .workerThreads q
    readElements c Field.all.tail r

def read (s : List Char) : Except Flaw Config := do
  let (c, r) ← match skipBlank s with
    | '\x7b' :: r => readObject r
    | '[' :: r => readArray r
    | [] => .error .truncated
    | r => .error (mismatch r)
  if skipBlank r = [] then return c else throw .malformed

end Document

namespace Config

/-- The configuration that a document describes, if it is accepted. -/
def ofJson (text : String) : Except ConfigError Config :=
  match Document.read text.toList with
  | .error f => .error (.document f)
  | .ok c => c.validated

def optionalText : Option UInt64 → String
  | none => "null"
  | some n => toString n.toNat

def fieldText (c : Config) : Field → String
  | .workerThreads => optionalText c.workerThreads
  | .maxWorkerThreads => toString c.maxWorkerThreads.toNat
  | .threadName => Json.quote c.threadName
  | .deadEvents => Json.quote c.deadEvents.text
  | .maxPublishDepth => optionalText c.maxPublishDepth
  | .enableLogging => if c.enableLogging then "true" else "false"

/-- The object with all settings in their order, without blanks. -/
def toJson (c : Config) : String :=
  "\x7b" ++ ",".intercalate (Field.all.map fun f => Json.quote f.name ++ ":" ++ c.fieldText f) ++ "\x7d"

end Config
end PubSub
