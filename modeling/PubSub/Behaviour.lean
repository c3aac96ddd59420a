import PubSub.Answer
import PubSub.Command

/-!
# Behaviours

What a listener does after it was called, step by step: each step says how to go on. A behaviour that ends decides
the reply; one that is left for later goes on after the callback has returned.
-/

namespace PubSub

inductive Behaviour where
  | reply (value : Option Value)
  | fail (fault : Fault)
  | crash (crash : Crash)
  /-- Ends the callback; the reply is decided by the rest. -/
  | later (rest : Behaviour)
  | request (command : Command) (next : Answer → Behaviour)
  | record (entry : LogEntry) (next : Behaviour)
  | arrive (gate : String) (next : Behaviour)
  /-- Takes a permit of the gate. -/
  | pass (gate : String) (next : Behaviour)
  /-- Publishes without waiting; there may be no bus any more to publish an existing event on. -/
  | publish (bus : String) (message : Message) (next : Option Nat → Behaviour)
  | await (publication : Nat) (next : Except PublishError Delivery → Behaviour)
  /-- Hands the publication to the program. -/
  | forward (publication : Nat) (next : Behaviour)
  | workerName (next : String → Behaviour)

/-- What a listener does with what it sees, at some depth of nested publishes. -/
abbrev Listener := Nat → Sight → Behaviour

namespace Behaviour

def throughGate (gate : Option String) (p : Behaviour) : Behaviour :=
  match gate with
  | none => p
  | some g => .arrive g (.pass g p)

def ofEnding : Ending → Behaviour
  | .done => .reply none
  | .value v => .reply (some v)
  | .fail message => .fail (.plain message)
  | .crash message => .crash (.raised message)

/-- Ends as the publication ends; its value is passed on. -/
def awaiting (publication : Nat) : Behaviour :=
  .await publication fun
    | .ok delivery => .reply delivery.value
    | .error e => .fail (.publish e)

/-- Makes the requests in order and hands over the answers; a request that crashes has the crash for its answer. -/
def requesting (next : List Answer → Behaviour) : List Answer → List Command → Behaviour
  | answers, [] => next answers
  | answers, command :: rest => .request command fun answer => requesting next (answers ++ [answer]) rest

/-- How the reply of a behaviour that ends its callback shows in diagnostics, whatever it holds. -/
def replyDebug? : Behaviour → Option String
  | .reply none => some "Done"
  | .reply (some _) => some "Value(..)"
  | .later _ => some "Deferred(..)"
  | _ => none

end Behaviour
end PubSub
