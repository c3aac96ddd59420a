import PubSub.Allocator
import PubSub.Bus
import PubSub.Gate
import PubSub.Invocation
import PubSub.Publication
import PubSub.Script.Listener

/-!
# Sessions

All that a running program can reach: the buses with their invocations and publications, and what the program has
given names to.
-/

namespace PubSub

/-- A handler method of an object, and what it does in each role. -/
structure Handler where
  name : String
  type : Name
  kind : MethodKind
  work : Role → Listener

def Method.handler (m : Method Command) : Handler :=
  ⟨m.name, m.type, m.kind, m.script.listener⟩

/-- An object that can be subscribed, as defined last under its name. -/
structure Object where
  identity : Nat
  name : String
  label : String
  threadSafe : Bool
  /-- What it does as a listener. -/
  work : Role → Listener
  methods : List Handler

/-- How many calls of an object are under way, are over, and were under way at most. -/
structure Activity where
  active : Nat
  finished : Nat
  peak : Nat
  deriving DecidableEq

namespace Activity

def idle : Activity :=
  ⟨0, 0, 0⟩

def enter (a : Activity) : Activity :=
  { a with active := a.active + 1, peak := max a.peak (a.active + 1) }

def leave (a : Activity) : Activity :=
  { a with active := a.active - 1, finished := a.finished + 1 }

end Activity

/-- A name for a bus; the bus lives as long as some name or owner keeps it. -/
structure Hold where
  bus : Nat
  keeps : Bool
  deriving DecidableEq

/-- Starts and ends a bus of its own. -/
structure Owner where
  config : Config
  bus : Option Nat
  deriving DecidableEq

structure Session where
  hierarchy : Hierarchy
  /-- Notices are taken down, which means rendering them. -/
  tracing : Bool
  /-- The number of identities given out, to buses, objects, listeners, publications and invocations, and of tickets. -/
  issued : Nat
  buses : Table Nat Bus
  /-- The invocations that have not ended. -/
  invocations : Table Nat Invocation
  publications : Table Nat Publication
  /-- Where each subscription was put. -/
  addresses : Table Caller Nat
  allocator : Allocator
  activities : Table Nat Activity
  gates : Table String Gate
  holds : Table String Hold
  objects : Table String Object
  handles : Table String Handle
  /-- The publishes that the program started and has neither awaited nor forgotten. -/
  pending : Table String Nat
  owners : Table String Owner
  /-- The publications that listeners handed to the program. -/
  forwarded : List Nat
  log : List LogEntry
  notices : List Notice

namespace Session

def start (tracing : Bool) : Session where
  hierarchy := []
  tracing := tracing
  issued := 0
  buses := .empty
  invocations := .empty
  publications := .empty
  addresses := .empty
  allocator := .lowest
  activities := .empty
  gates := .empty
  holds := .empty
  objects := .empty
  handles := .empty
  pending := .empty
  owners := .empty
  forwarded := []
  log := []
  notices := []

/-- A new identity. -/
def issue (s : Session) : Session × Nat :=
  ({ s with issued := s.issued + 1 }, s.issued + 1)

def putBus (s : Session) (b : Bus) : Session :=
  { s with buses := s.buses.put b.id b }

/-- The bus has workers that take up invocations. -/
def isRunning (s : Session) (bus : Nat) : Bool :=
  (s.buses.get? bus).any (·.isOpen)

def isKept (s : Session) (bus : Nat) : Bool :=
  s.holds.values.any (fun h => h.keeps && h.bus = bus) || s.owners.values.any (·.bus = some bus)

/-- The bus of that name, while something keeps it. -/
def bus? (s : Session) (name : String) : Option Bus := do
  let hold ← s.holds.get? name
  if s.isKept hold.bus then s.buses.get? hold.bus else none

def gate (s : Session) (name : String) : Gate :=
  (s.gates.get? name).getD .empty

def changeGate (s : Session) (name : String) (f : Gate → Gate) : Session :=
  { s with gates := s.gates.put name (f (s.gate name)) }

def activity (s : Session) (object : Nat) : Activity :=
  (s.activities.get? object).getD .idle

def changeActivity (s : Session) (object : Nat) (f : Activity → Activity) : Session :=
  { s with activities := s.activities.put object (f (s.activity object)) }

def putInvocation (s : Session) (id : Nat) (i : Invocation) : Session :=
  { s with invocations := s.invocations.put id i }

def putPublication (s : Session) (id : Nat) (p : Publication) : Session :=
  { s with publications := s.publications.put id p }

/-- Someone still has the subscription: its bus, or an invocation that has not ended. -/
def holdsOn (s : Session) (c : Caller) : Bool :=
  (s.buses.get? c.bus).any (fun b => b.registry.rows.values.any (·.any (·.id = c.subscription)))
    || s.invocations.values.any (·.caller = c)

/-- The addresses of the subscriptions that are not gone. -/
def used (s : Session) : List Nat :=
  s.addresses.entries.filterMap fun e => if s.holdsOn e.1 then some e.2 else none

def address (s : Session) (c : Caller) : Nat :=
  (s.addresses.get? c).getD 0

/-- Finds a place for a subscription, unless it has one. -/
def place (s : Session) (c : Caller) : Session :=
  if (s.addresses.get? c).isSome then s
  else { s with addresses := s.addresses.put c (s.allocator.choose s.used) }

def placeAll (s : Session) (bus : Nat) (entries : List (Key × Nat)) : Session :=
  entries.foldl (fun s e => s.place ⟨bus, e.2⟩) s

/-- Takes down notices that can be rendered in any case. -/
def report (s : Session) (ns : List Notice) : Session :=
  if s.tracing then { s with notices := s.notices ++ ns } else s

/-- Takes down a notice, if it can be rendered. -/
def announce (s : Session) (n : Notice) : Except Crash Session :=
  if s.tracing then n.line.map fun _ => s.report [n] else .ok s

end Session
end PubSub
