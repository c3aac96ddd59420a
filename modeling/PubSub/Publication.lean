import PubSub.Delivery

/-!
# Publications

A publish that is under way or over: how many invocations it scheduled, and the outcomes of those that ended. It is
resolved as soon as all have ended. Nobody looks at the ends before the publish is awaited. Whoever begins to await it
comes upon those that are there in the order in which the invocations were made, and from then on upon each as it
happens.
-/

namespace PubSub

structure Publication where
  /-- The publish failed at once. -/
  refusal : Option PublishError
  scheduled : Nat
  /-- The invocations that ended, and how, in the order in which they did. -/
  ends : List (Nat × Outcome)
  /-- How many had ended when it was awaited for the first time. -/
  early : Option Nat
  /-- Someone awaits it. -/
  watched : Bool

namespace Publication

def refused (error : PublishError) : Publication :=
  ⟨some error, 0, [], none, false⟩

def underWay (scheduled : Nat) : Publication :=
  ⟨none, scheduled, [], none, false⟩

def outcomes (p : Publication) : List Outcome :=
  p.ends.map Prod.snd

/-- Puts an end before those of the invocations that were made later. -/
def file (e : Nat × Outcome) : List (Nat × Outcome) → List (Nat × Outcome)
  | [] => [e]
  | f :: rest => if e.1 ≤ f.1 then e :: f :: rest else f :: file e rest

/-- The ends in the order in which the invocations were made. -/
def filed (ends : List (Nat × Outcome)) : List (Nat × Outcome) :=
  ends.foldr file []

/-- The outcomes in the order in which whoever awaits the publication comes upon them. -/
def observed (p : Publication) : List Outcome :=
  let early := p.early.getD p.ends.length
  (filed (p.ends.take early) ++ p.ends.drop early).map Prod.snd

def result? (p : Publication) : Option (Except PublishError Delivery) :=
  match p.refusal with
  | some e => some (.error e)
  | none => if p.ends.length < p.scheduled then none else some (Delivery.join p.observed)

/-- One more invocation has ended. -/
def add (p : Publication) (invocation : Nat) (outcome : Outcome) : Publication :=
  { p with ends := p.ends ++ [(invocation, outcome)] }

/-- Someone begins to await it. -/
def await (p : Publication) : Publication :=
  { p with early := some (p.early.getD p.ends.length), watched := true }

/-- Nobody awaits it any more. -/
def leave (p : Publication) : Publication :=
  { p with watched := false }

@[simp]
theorem outcomes_add (p : Publication) (invocation : Nat) (outcome : Outcome) :
    (p.add invocation outcome).outcomes = p.outcomes ++ [outcome] :=
  List.map_append

@[simp]
theorem length_outcomes (p : Publication) : p.outcomes.length = p.ends.length :=
  List.length_map ..

/-- How a publish shows in diagnostics, whatever came of it. -/
def debug : String :=
  "PublishFuture"

end Publication
end PubSub
