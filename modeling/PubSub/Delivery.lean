import PubSub.Failure

/-!
# Outcome of a publish

Each listener that an event was scheduled for ends in one outcome. The outcomes of all of them make the outcome
of the publish, in the order in which they are observed.
-/

namespace PubSub

/-- What a listener can reply with. -/
inductive Value where
  | int (value : Int64)
  | text (value : String)
  | unit
  /-- A value of any other type. -/
  | other
  deriving DecidableEq

/-- The types that a reply can be asked for. -/
inductive ValueType where
  | int
  | text
  | unit
  deriving DecidableEq

def Value.hasType : Value → ValueType → Bool
  | .int _, .int | .text _, .text | .unit, .unit => true
  | _, _ => false

/-- How the handling of an event by one listener ended. -/
inductive Outcome where
  | replied (value : Option Value)
  | failed (failure : ListenerFailure)
  /-- Abandoned: it was interrupted, or crashed while it reported its failure. -/
  | lost (crashed : Bool)

namespace Outcome

def failure? : Outcome → Option ListenerFailure
  | failed f => some f
  | replied _ | lost _ => none

def isLost : Outcome → Bool
  | lost _ => true
  | replied _ | failed _ => false

def hasCrashed : Outcome → Bool
  | lost crashed => crashed
  | replied _ | failed _ => false

def value? : Outcome → Option Value
  | replied v => v
  | failed _ | lost _ => none

end Outcome

structure Delivery where
  /-- The number of listeners that the event was scheduled for. -/
  delivered : Nat
  /-- What the only listener replied. -/
  value : Option Value
  deriving DecidableEq

namespace Delivery

def isDead (d : Delivery) : Bool :=
  d.delivered = 0

/-- The value, if it has that type. -/
def downcast (d : Delivery) (type : ValueType) : Option Value :=
  d.value.filter (·.hasType type)

def debug (d : Delivery) : String :=
  "Delivery \x7b delivered: " ++ toString d.delivered ++ ", value: "
    ++ (if d.value.isSome then "Some(\"..\")" else "None") ++ " \x7d"

/-- The outcome of a publish from the outcomes of its listeners: failures win over losses, and losses over
success. -/
def join (outcomes : List Outcome) : Except PublishError Delivery :=
  match outcomes.filterMap Outcome.failure? with
  | first :: rest => .error (.listenersFailed first rest)
  | [] =>
    let lost := outcomes.countP Outcome.isLost
    if 0 < lost then .error (.interrupted lost)
    else .ok ⟨outcomes.length, match outcomes with
      | [only] => only.value?
      | _ => none⟩

end Delivery
end PubSub
