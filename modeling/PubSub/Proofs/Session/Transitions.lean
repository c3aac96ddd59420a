import PubSub.Proofs.Session.Steps

/-!
# Transitions

What a program and the invocations that it brought about can do next, in any order. Each transition of a proper session
is made of moves, so what moves keep holds of every session that can be reached.
-/

namespace PubSub.Session

variable {s s' : Session} {id : Nat} {i : Invocation}

section Steps

private theorem Effects.moves (h : Effects s s') : Moves s s' :=
  Relation.ReflTransGen.mono (fun _ _ => Move.effect) _ _ h

theorem Acts.moves {ctx : Context} (h : s.Acts ctx s') : Moves s s' := by
  cases h with
  | calmly h => exact Effects.moves h
  | publishing h haside => exact .tail (.single (.publish h)) (.effect (.aside haside))

theorem moves_of_stepsTo (h : s.StepsTo id i s') : Moves s s' := by
  cases h with
  | wentOn hacts _ hp _ => exact hacts.moves.tail (.progress id hp)
  | ended _ _ heffects hi₁ => exact (Effects.moves heffects).tail (.progress id (.finished hi₁ _))
  | interrupted _ heffects _ hp _ hleave hi₃ _ =>
    have hparked := (Effects.moves heffects).tail (.progress id hp)
    exact (hparked.trans (Effects.moves hleave)).tail (.progress id (.finished hi₃ _))

end Steps

/-- What can happen next: the program makes a request or a publish, defines an object that does anything at all, awaits
a publication, takes up one that it started, or gathers what was noted; an invocation takes a step; or addresses come to
be given out in another way. -/
inductive Transition : Session → Session → Prop
  | perform (s : Session) (command : Command) : Transition s (s.perform .outermost command).1
  | define (s : Session) (name label : String) (threadSafe : Bool) (work : Role → Listener) (methods : List Handler) :
    Transition s (s.define name label threadSafe work methods).1
  | publish {s s' : Session} {p : Publish} {result : Except Crash Nat}
      (h : s.publish .outermost p = some (s', result)) : Transition s s'
  | watch (s : Session) (publication : Nat) : Transition s (s.watch publication)
  | take (s : Session) (name : String) : Transition s { s with pending := s.pending.erase name }
  | gather (s : Session) : Transition s { s with forwarded := [], log := [], notices := [] }
  | step {s s' : Session} {id : Nat} (h : s.step id = some s') : Transition s s'
  | reallocate (s : Session) (allocator : Allocator) : Transition s { s with allocator }

abbrev Transitions : Session → Session → Prop :=
  Relation.ReflTransGen Transition

/-- A session that some program and its listeners can get to. -/
def Reachable (s : Session) : Prop :=
  ∃ tracing, Transitions (start tracing) s

theorem cases_of_transition (hs : s.Proper) (h : Transition s s') :
    s.Acts .outermost s' ∨ ∃ id i, s.step id = some s' ∧ s.invocations.get? id = some i ∧ s.StepsTo id i s' := by
  cases h with
  | perform command => exact Or.inl (acts_perform hs command)
  | define => exact Or.inl (.calmly (aside_define ..).effects)
  | publish h => exact Or.inl (acts_publish hs h)
  | watch publication => exact Or.inl (.calmly (effects_watch s publication))
  | take name => exact Or.inl (.calmly (Aside.effects (.rest ..)))
  | gather => exact Or.inl (.calmly (Aside.effects (.rest ..)))
  | reallocate => exact Or.inl (.calmly (Aside.effects (.rest ..)))
  | @step _ id h =>
    obtain ⟨i, hi, hsteps⟩ := stepsTo_of_step hs h
    exact Or.inr ⟨id, i, h, hi, hsteps⟩

theorem moves_of_transition (hs : s.Proper) (h : Transition s s') : Moves s s' := by
  rcases cases_of_transition hs h with hacts | ⟨id, i, -, -, hsteps⟩
  · exact hacts.moves
  · exact moves_of_stepsTo hsteps

theorem moves_of_transitions (hs : s.Proper) (h : Transitions s s') : Moves s s' := by
  induction h with
  | refl => exact .refl
  | tail _ h ih => exact ih.trans (moves_of_transition (hs.moves ih) h)

theorem Reachable.of_moves {P : Session → Prop} (hstart : ∀ tracing, P (start tracing))
    (hmove : ∀ {tracing s s'}, Moves (start tracing) s → Move s s' → P s → P s') (h : s.Reachable) : P s := by
  obtain ⟨tracing, h⟩ := h
  have hmoves := moves_of_transitions (proper_start tracing) h
  clear h
  induction hmoves with
  | refl => exact hstart tracing
  | tail hprior hm ih => exact hmove hprior hm ih

theorem Reachable.proper (h : s.Reachable) : s.Proper :=
  h.of_moves proper_start fun _ hm hs => hs.move hm

theorem sound_of_moves {tracing : Bool} (h : Moves (start tracing) s) {id : Nat} {b : Bus}
    (hb : s.buses.get? id = some b) : b.Sound := by
  have hnone : ∀ id b, (start tracing).buses.get? id = some b → b.Sound := by
    intro id b hb
    cases hb
  exact forall_bus_of_moves (fun _ _ _ => Bus.sound_start) (fun _ _ hc hb => hb.changes hc) (proper_start tracing)
    hnone h id b hb

theorem Reachable.bus_sound (h : s.Reachable) {id : Nat} {b : Bus} (hb : s.buses.get? id = some b) : b.Sound := by
  obtain ⟨tracing, h⟩ := h
  exact sound_of_moves (moves_of_transitions (proper_start tracing) h) hb

theorem Reachable.trans (h : s.Reachable) (h' : Transitions s s') : s'.Reachable := by
  obtain ⟨tracing, h⟩ := h
  exact ⟨tracing, h.trans h'⟩

section Programs

private theorem step_of_next {current : Option Nat} (h : s.next current = some (id, s')) : s.step id = some s' := by
  have hstep (id' : Nat) (h' : (s.step id').map (id', ·) = some (id, s')) : s.step id = some s' := by
    cases hs : s.step id' with
    | none => simp [hs] at h'
    | some after =>
      obtain ⟨rfl, rfl⟩ : id' = id ∧ after = s' := by simpa [hs] using h'
      exact hs
  simp only [next] at h
  split at h
  · rename_i taken htaken
    cases h
    obtain ⟨id', -, h'⟩ := Option.bind_eq_some_iff.1 htaken
    exact hstep id' h'
  · obtain ⟨id', -, h'⟩ := List.exists_of_findSome?_eq_some h
    exact hstep id' h'

theorem transitions_settle (s : Session) : Transitions s s.settle := by
  have hwithin (fuel : Nat) (current : Option Nat) (s : Session) : Transitions s (settleWithin fuel current s) := by
    induction fuel generalizing current s with
    | zero => exact .refl
    | succ fuel ih =>
      simp only [settleWithin]
      cases hn : s.next current with
      | none => exact .refl
      | some taken =>
        obtain ⟨id, s'⟩ := taken
        exact .head (.step (step_of_next hn)) (ih _ _)
  exact hwithin _ _ s

theorem transitions_awaitOutcome (s : Session) (publication : Nat) : Transitions s (s.awaitOutcome publication).1 :=
  .head (.watch s publication) (transitions_settle _)

theorem transitions_take (s : Session) (step : Step) : Transitions s (s.take step).1 := by
  cases step with
  | perform command => exact .head (.perform s command) (transitions_settle _)
  | publish p =>
    simp only [Session.take]
    cases hp : s.publish .outermost p with
    | none => exact .refl
    | some r =>
      obtain ⟨s₁, result⟩ := r
      cases result with
      | error c => exact .single (.publish hp)
      | ok publication => exact .head (.publish hp) (transitions_awaitOutcome s₁ publication)
  | await name =>
    simp only [Session.take]
    cases s.pending.get? name with
    | none => exact .refl
    | some publication => exact .head (.take s name) (transitions_awaitOutcome _ publication)
  | waitArrivals gate count => exact .refl
  | waitCalls object count =>
    simp only [Session.take]
    cases s.objects.get? object <;> exact .refl
  | probe gate => exact .refl

theorem transitions_drain (s : Session) (result : Result) : Transitions s (s.drain result).1 := by
  have hwatch (publications : List Nat) (s : Session) : Transitions s (publications.foldl watch s) := by
    induction publications generalizing s with
    | nil => exact .refl
    | cons publication rest ih => exact .head (.watch s publication) (ih _)
  simp only [drain]
  split
  · exact ((hwatch s.forwarded s).trans (transitions_settle _)).tail (.gather _)
  · exact .refl

/-- So programs only get to sessions that can be reached. -/
theorem Reachable.after (h : s.Reachable) (step : Step) : ((s.take step).1.drain (s.take step).2).1.Reachable :=
  h.trans ((transitions_take s step).trans (transitions_drain _ _))

end Programs

end Session
end PubSub
