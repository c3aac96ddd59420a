import PubSub.Behaviour

/-!
# Scripted listeners

The listener that follows a script: the requests come first, then the entry in the log, then the gate and the deed.
-/

namespace PubSub

/-- Who is called, and by which of its methods. -/
structure Role where
  object : String
  method : String
  /-- It can wait while it is called; otherwise it passes no gate and leaves what it would await for later. -/
  patient : Bool
  deriving DecidableEq

/-- Gates that differ by the number in sight are written with a placeholder. -/
def gateFor (sight : Sight) (template : String) : String :=
  template.replace "\x7bn\x7d" (toString sight.number.toInt)

def Follow.behaviour (patient : Bool) (publication : Nat) : Follow → Behaviour
  | .await => if patient then .awaiting publication else .later (.awaiting publication)
  | .defer => .later (.awaiting publication)
  | .forward => .forward publication (.reply none)

def Deed.behaviour (patient : Bool) (sight : Sight) : Deed → Behaviour
  | .finish ending => .ofEnding ending
  | .workerName => .workerName fun name => .reply (some (.text name))
  | .defer gate ending => .later (.throughGate (gate.map (gateFor sight)) (.ofEnding ending))
  | .publish bus follow subject =>
    match subject.message? sight with
    | none => .fail (.plain "no event to publish")
    | some message => .publish bus message fun
      | none => .fail (.plain "bus is gone")
      | some publication => follow.behaviour patient publication

/-- Carries out a leaf of a script. -/
def Leaf.behaviour (leaf : Leaf Command) (role : Role) (depth : Nat) (sight : Sight) : Behaviour :=
  let gate := if role.patient then leaf.gate.map (gateFor sight) else none
  .requesting (fun answers =>
    .record ⟨role.object, role.method, sight.text, depth, answers⟩
      (.throughGate gate (leaf.deed.behaviour role.patient sight))) [] leaf.requests

def Script.listener (script : Script Command) (role : Role) : Listener := fun depth sight =>
  (script.pick depth sight.number).behaviour role depth sight

end PubSub
