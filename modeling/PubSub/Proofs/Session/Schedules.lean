import PubSub.Proofs.Session.Transitions

/-!
# Schedules

What happens to a session as a list of actions: what a program asks for, and which invocation takes its next step, in
any order. One list can be replayed in several sessions.
-/

namespace PubSub

inductive Action where
  | perform (command : Command)
  | publish (publish : Publish)
  /-- Awaits a publication from now on. -/
  | watch (publication : Nat)
  /-- Takes up what the program started under this name. -/
  | take (name : String)
  | step (id : Nat)

namespace Session

/-- What comes of an action, with the answer to it; nothing if it is the step of an invocation that cannot take one. -/
def act (s : Session) : Action → Option (Session × Answer)
  | .perform command => some (s.perform .outermost command)
  | .publish publish =>
    match s.publish .outermost publish with
    | none => some (s, .misfit)
    | some (s, .error c) => some (s, .crashed c)
    | some (s, .ok _) => some (s, .started)
  | .watch publication => some (s.watch publication, .ok)
  | .take name => some ({ s with pending := s.pending.erase name }, .ok)
  | .step id => (s.step id).map (·, .ok)

def replay (s : Session) : List Action → Option (Session × List Answer)
  | [] => some (s, [])
  | action :: rest =>
    match s.act action with
    | none => none
    | some (s, answer) => (s.replay rest).map fun x => (x.1, answer :: x.2)

variable {s s' : Session}

/-- Each action is something that can happen next, or changes nothing. -/
theorem transition_of_act {action : Action} {answer : Answer} (h : s.act action = some (s', answer)) :
    s' = s ∨ Transition s s' := by
  cases action with
  | perform command =>
    obtain ⟨rfl, -⟩ := Prod.mk.inj (Option.some.inj h)
    exact Or.inr (.perform s command)
  | publish p =>
    simp only [act] at h
    split at h
    · obtain ⟨rfl, -⟩ := Prod.mk.inj (Option.some.inj h)
      exact Or.inl rfl
    · obtain ⟨rfl, -⟩ := Prod.mk.inj (Option.some.inj h)
      exact Or.inr (.publish ‹_›)
    · obtain ⟨rfl, -⟩ := Prod.mk.inj (Option.some.inj h)
      exact Or.inr (.publish ‹_›)
  | watch publication =>
    obtain ⟨rfl, -⟩ := Prod.mk.inj (Option.some.inj h)
    exact Or.inr (.watch s publication)
  | take name =>
    obtain ⟨rfl, -⟩ := Prod.mk.inj (Option.some.inj h)
    exact Or.inr (.take s name)
  | step id =>
    obtain ⟨s₁, hs₁, hsame⟩ := Option.map_eq_some_iff.1 h
    obtain ⟨rfl, -⟩ := Prod.mk.inj hsame
    exact Or.inr (.step hs₁)

end Session
end PubSub
