import PubSub.Registry

/-!
# Invocations

The handling of one event by one subscription. Unless calls may overlap, an invocation waits for the turn of its
subscription, and keeps it until the callback has returned; turns are taken in the order in which invocations began to
wait. An invocation that the subscription itself brought about does not wait: the one that it would wait for may be
waiting for it. Publishers know the subscriptions that brought them about by their addresses only. A subscription that
is gone leaves its address to others, which are then taken for it.
-/

namespace PubSub

/-- A subscription, whichever of those that a bus ever had. -/
structure Caller where
  bus : Nat
  subscription : Nat
  deriving DecidableEq

/-- Where a publish is made from: at what depth, and within the invocations of which subscriptions. -/
structure Context where
  depth : Nat
  /-- The addresses of the subscriptions, the outermost first. -/
  callers : List Nat
  deriving DecidableEq

/-- Outside of all listeners. -/
def Context.outermost : Context :=
  ⟨0, []⟩

inductive Stage where
  /-- Nothing was done yet. -/
  | fresh
  /-- It waits for its turn; the ticket tells since when. -/
  | queued (ticket : Nat)
  | calling (rest : Behaviour)
  /-- The callback has returned and left the reply for later. -/
  | deferring (rest : Behaviour)

structure Invocation where
  publication : Nat
  bus : Nat
  subscription : Subscription
  /-- Of the subscription. -/
  address : Nat
  view : Option View
  event : Event
  /-- The place where the publish was made. -/
  origin : Context
  stage : Stage
  /-- It was stopped where it could not go on. -/
  parked : Bool

namespace Invocation

def caller (i : Invocation) : Caller :=
  ⟨i.bus, i.subscription.id⟩

/-- The place where the listener works. -/
def context (i : Invocation) : Context :=
  ⟨i.origin.depth + 1, i.origin.callers ++ [i.address]⟩

/-- It needs no turn. -/
def bypasses (i : Invocation) : Bool :=
  i.subscription.callback.threadSafe || i.origin.callers.contains i.address

def isCalling (i : Invocation) : Bool :=
  match i.stage with
  | .calling _ => true
  | .fresh | .queued _ | .deferring _ => false

/-- It keeps others from their turn. -/
def holdsTurn (i : Invocation) : Bool :=
  i.isCalling && !i.bypasses

/-- It waits for its turn, and has waited longer than `j`. -/
def isAheadOf (i j : Invocation) : Bool :=
  match i.stage, j.stage with
  | .queued ticket, .queued later => ticket < later
  | .queued _, .fresh => true
  | _, _ => false

/-- Nobody works at it: it was stopped, or nothing was done yet. -/
def isIdle (i : Invocation) : Bool :=
  match i.stage with
  | .fresh => true
  | .queued _ | .calling _ | .deferring _ => i.parked

/-- What is left to do of the part that it is in. -/
def rest? (i : Invocation) : Option Behaviour :=
  match i.stage with
  | .fresh | .queued _ => none
  | .calling p | .deferring p => some p

/-- Goes on with `p` in the same part. -/
def goOn (i : Invocation) (p : Behaviour) : Invocation :=
  match i.stage with
  | .deferring _ => { i with stage := .deferring p, parked := false }
  | .fresh | .queued _ | .calling _ => { i with stage := .calling p, parked := false }

/-- Stops where it cannot go on; what has not begun waits for its turn under the ticket. -/
def park (i : Invocation) (ticket : Nat) : Invocation :=
  match i.stage with
  | .fresh => { i with stage := .queued ticket, parked := true }
  | .queued _ | .calling _ | .deferring _ => { i with parked := true }

/-- How the failure of the listener shows, depending on the part that it failed in. -/
def fault (i : Invocation) (fault : Fault) : ListenerError :=
  match i.stage with
  | .deferring _ => .deferred fault
  | .fresh | .queued _ | .calling _ => .failed fault

/-- The failure as it is recorded. Recording it renders the event, and the cause as well where notices are taken
down. -/
def failure (i : Invocation) (tracing : Bool) (cause : ListenerError) : Except Crash ListenerFailure := do
  let callback := i.subscription.callback
  let event ← i.event.debug
  if tracing && !cause.isPrintable then throw .unprintable
  return ⟨event, i.subscription.key, callback.target, callback.name, cause⟩

end Invocation
end PubSub
