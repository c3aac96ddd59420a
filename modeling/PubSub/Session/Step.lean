import PubSub.Session.Perform

/-!
# Steps of invocations

The smallest steps that invocations take. At any time, any invocation that is able to may take the next one, so the
runs of a session are the sequences of such steps. An invocation that cannot go on parks, or is interrupted if its
bus has no workers any more.
-/

namespace PubSub.Session

/-- No invocation has the turn of this one's subscription, or comes before this one. -/
def turnIsFree (s : Session) (i : Invocation) : Bool :=
  !s.invocations.values.any fun j => j.caller = i.caller && (j.holdsTurn || j.isAheadOf i)

def failed (s : Session) (id : Nat) (i : Invocation) (cause : ListenerError) : Session :=
  (s.leaveCall i).conclude id i (.error cause)

/-- Calls the listener, if the event can be seen as it wants. -/
def call (s : Session) (id : Nat) (i : Invocation) : Session :=
  let callback := i.subscription.callback
  match callback.lens.extract i.view i.event with
  | .error c => s.conclude id i (.error (.crashed c.message))
  | .ok none => s.conclude id i (.error (.typeMismatch callback.lens.expected))
  | .ok (some sight) =>
    (s.changeActivity callback.object .enter).putInvocation id
      (i.goOn (callback.listener i.context.depth sight))

/-- One step of the behaviour of an invocation, if it can be done now. -/
def advance (s : Session) (id : Nat) (i : Invocation) : Behaviour → Option Session
  | .reply value => some ((s.leaveCall i).conclude id i (.ok value))
  | .fail fault => some (s.failed id i (i.fault fault))
  | .crash c => some (s.failed id i (.crashed c.message))
  | .later rest => some ((s.leaveCall i).putInvocation id { i with stage := .deferring rest, parked := false })
  | .request command next =>
    let (s, answer) := s.perform i.context command
    some (s.putInvocation id (i.goOn (next answer)))
  | .record entry next => some ({ s with log := s.log ++ [entry] }.putInvocation id (i.goOn next))
  | .arrive gate next => some ((s.changeGate gate .arrive).putInvocation id (i.goOn next))
  | .pass gate next =>
    if (s.gate gate).admits id then some ((s.changeGate gate (·.pass id)).putInvocation id (i.goOn next))
    else none
  | .publish bus message next =>
    match s.publishMessage i.context bus message with
    | (s, .error c) => some (s.failed id i (.crashed c.message))
    | (s, .ok publication) => some (s.putInvocation id (i.goOn (next publication)))
  | .await publication next => do
    let result ← (← s.publications.get? publication).result?
    some ((s.watch publication).putInvocation id (i.goOn (next result)))
  | .forward publication next =>
    some ({ s with forwarded := s.forwarded ++ [publication] }.putInvocation id (i.goOn next))
  | .workerName next =>
    some (s.putInvocation id (i.goOn (next (((s.buses.get? i.bus).map (·.config.threadName)).getD ""))))

/-- An invocation goes on, or begins when it is its turn. -/
def proceed (s : Session) (id : Nat) (i : Invocation) : Option Session :=
  match i.rest? with
  | none => if i.bypasses || s.turnIsFree i then some (s.call id i) else none
  | some p => s.advance id i p

/-- Waits from now on for what it needs to go on. -/
def park (s : Session) (id : Nat) (i : Invocation) : Session :=
  let (s, ticket) := s.issue
  let s := match i.rest? with
    | some (.await publication _) => s.watch publication
    | some (.pass gate _) => s.changeGate gate (·.wait id)
    | _ => s
  s.putInvocation id (i.park ticket)

/-- The next step of an invocation; none if it is over, or parked and unable to go on. -/
def step (s : Session) (id : Nat) : Option Session :=
  match s.invocations.get? id with
  | none => none
  | some i =>
    match s.proceed id i with
    | some after => some after
    | none =>
      if i.parked then none
      else
        let s := s.park id i
        some (if s.isRunning i.bus then s else s.interrupt id i)

end PubSub.Session
