import PubSub.Session.Step

/-!
# Programs

A program is a list of steps. Between the steps the invocations go on until none of them can. What listeners did is
reported after each step, unless the program has publishes under way that it has neither awaited nor forgotten.
-/

namespace PubSub

inductive Step where
  | perform (command : Command)
  /-- Publishes and awaits the outcome. -/
  | publish (publish : Publish)
  | await (publication : String)
  /-- Waits for this many arrivals at a gate. -/
  | waitArrivals (gate : String) (count : Nat)
  /-- Waits for this many calls of an object to be over. -/
  | waitCalls (object : String) (count : Nat)
  /-- The number of arrivals at a gate. -/
  | probe (gate : String)

inductive Result where
  | answer (answer : Answer)
  | outcome (outcome : Except PublishError Delivery)
  /-- What the step waits for does not come. -/
  | stuck

structure Report where
  result : Result
  /-- The outcomes of the publishes that listeners handed to the program. -/
  forwarded : List (Except PublishError Delivery)
  log : List LogEntry
  /-- The notices, one line each. -/
  lines : List String

namespace Session

/-- The invocations that were brought about by listeners, the latest first, and then those that the program brought
about, the earliest first. -/
def agenda (s : Session) : List Nat :=
  let (outer, nested) := s.invocations.entries.partition (·.2.origin.depth = 0)
  (nested ++ outer.reverse).map Prod.fst

/-- The next step of the invocation that took the one before, or else of the first that can take one. -/
def next (s : Session) (current : Option Nat) : Option (Nat × Session) :=
  let stepOf (id : Nat) : Option (Nat × Session) := (s.step id).map (id, ·)
  match current.bind stepOf with
  | some taken => some taken
  | none => s.agenda.findSome? stepOf

def settleWithin : Nat → Option Nat → Session → Session
  | 0, _, s => s
  | fuel + 1, current, s =>
    match s.next current with
    | none => s
    | some (id, s) => settleWithin fuel (some id) s

/-- Lets the invocations go on until none can; enough for any run that is worth waiting for. -/
def settle (s : Session) : Session :=
  settleWithin 10000000 none s

def outcome? (s : Session) (publication : Nat) : Option (Except PublishError Delivery) := do
  (← s.publications.get? publication).result?

/-- Awaits a publication. -/
def awaitOutcome (s : Session) (publication : Nat) : Session × Result :=
  let s := (s.watch publication).settle
  (s, (s.outcome? publication).elim .stuck .outcome)

def waitUntil (s : Session) (reached : Bool) : Session × Result :=
  (s, if reached then .answer (.flag true) else .stuck)

def take (s : Session) : Step → Session × Result
  | .perform command =>
    let (s, answer) := s.perform .outermost command
    (s.settle, .answer answer)
  | .publish publish =>
    match s.publish .outermost publish with
    | none => (s, .answer .misfit)
    | some (s, .error c) => (s, .answer (.crashed c))
    | some (s, .ok publication) => s.awaitOutcome publication
  | .await name =>
    match s.pending.get? name with
    | none => (s, .answer .misfit)
    | some publication => { s with pending := s.pending.erase name }.awaitOutcome publication
  | .waitArrivals gate count => s.waitUntil (count ≤ (s.gate gate).arrivals)
  | .waitCalls object count =>
    match s.objects.get? object with
    | none => (s, .answer .misfit)
    | some o => s.waitUntil (count ≤ (s.activity o.identity).finished)
  | .probe gate => (s, .answer (.number (s.gate gate).arrivals))

/-- Awaits what listeners handed over, and takes out all that is to be reported. -/
def drain (s : Session) (result : Result) : Session × Report :=
  if s.pending.entries.isEmpty then
    let s := (s.forwarded.foldl watch s).settle
    ({ s with forwarded := [], log := [], notices := [] },
      ⟨result, s.forwarded.filterMap s.outcome?, s.log, s.notices.filterMap (·.line.toOption)⟩)
  else
    (s, ⟨result, [], [], []⟩)

def run (s : Session) : List Step → List Report
  | [] => []
  | step :: steps =>
    let (s, result) := s.take step
    let (s, report) := s.drain result
    report :: s.run steps

end Session

/-- The reports of a program, one for each step. -/
def Program.run (tracing : Bool) (steps : List Step) : List Report :=
  (Session.start tracing).run steps

end PubSub
