import PubSub.Session.State

/-!
# Ends of invocations

How the end of an invocation reaches its publication, and what happens to the invocations of a bus whose workers
stop: those that could not go on, or have not begun, are interrupted. The others go on until they would have to wait.
-/

namespace PubSub.Session

/-- Someone awaits the publication from now on; so crashes in it are reported, also those so far. -/
def watch (s : Session) (publication : Nat) : Session :=
  match s.publications.get? publication with
  | none => s
  | some p =>
    if p.watched then s
    else (s.putPublication publication p.await).report
      ((p.outcomes.filter Outcome.hasCrashed).map fun _ => .listenerCrashed)

/-- Nobody awaits the publication any more. -/
def unwatch (s : Session) (publication : Nat) : Session :=
  match s.publications.get? publication with
  | none => s
  | some p => s.putPublication publication p.leave

/-- The invocation is over. -/
def finish (s : Session) (id : Nat) (i : Invocation) (outcome : Outcome) : Session :=
  let s := { s with invocations := s.invocations.erase id }
  match s.publications.get? i.publication with
  | none => s
  | some p =>
    (s.putPublication i.publication (p.add id outcome)).report
      (if p.watched && outcome.hasCrashed then [.listenerCrashed] else [])

/-- Ends with a reply or a failure; a failure that cannot be recorded is lost. -/
def conclude (s : Session) (id : Nat) (i : Invocation) (result : Except ListenerError (Option Value)) : Session :=
  match result with
  | .ok value => s.finish id i (.replied value)
  | .error cause =>
    match i.failure s.tracing cause with
    | .error _ => s.finish id i (.lost true)
    | .ok failure => (s.report [.listenerFailed failure]).finish id i (.failed failure)

/-- The callback returns, if the invocation is in it. -/
def leaveCall (s : Session) (i : Invocation) : Session :=
  if i.isCalling then s.changeActivity i.subscription.callback.object .leave else s

/-- What the invocation waited for forgets it. -/
def abandonWait (s : Session) (id : Nat) (i : Invocation) : Session :=
  match i.rest? with
  | some (.await publication _) => s.unwatch publication
  | some (.pass gate _) => s.changeGate gate (·.leave id)
  | _ => s

def interrupt (s : Session) (id : Nat) (i : Invocation) : Session :=
  ((s.leaveCall i).abandonWait id i).finish id i (.lost false)

/-- Interrupts the idle invocations of a bus. -/
def stopWorkers (s : Session) (bus : Nat) : Session :=
  s.invocations.entries.foldl
    (fun s e => if e.2.bus = bus && e.2.isIdle then s.interrupt e.1 e.2 else s) s

/-- Closes a bus; does nothing if it is closed. -/
def closeBus (s : Session) (b : Bus) : Session :=
  if b.isOpen then ((s.putBus b.close).stopWorkers b.id).report (b.optional [.closed]) else s

/-- Buses that nothing keeps any more stop. -/
def dropUnkept (s : Session) : Session :=
  s.buses.values.foldl
    (fun s b => if b.isOpen && !s.isKept b.id then (s.putBus b.close).stopWorkers b.id else s) s

end PubSub.Session
