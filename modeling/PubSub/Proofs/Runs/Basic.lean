import PubSub.Proofs.Session.Accounting

/-!
# Runs

What becomes of a session, moment by moment: something happens next, or nothing for a while. Who is there at two moments
is the same at both, and who is gone never comes back.
-/

namespace PubSub

/-- One of the ways in which a program and its listeners can go on. -/
structure Run where
  session : Nat → Session
  start : ∃ tracing, session 0 = .start tracing
  next : ∀ t, session (t + 1) = session t ∨ Session.Transition (session t) (session (t + 1))

namespace Run

variable {r : Run} {t t' id : Nat}

def invocation? (r : Run) (t id : Nat) : Option Invocation :=
  (r.session t).invocations.get? id

def publication? (r : Run) (t id : Nat) : Option Publication :=
  (r.session t).publications.get? id

theorem transitions (h : t ≤ t') : Session.Transitions (r.session t) (r.session t') := by
  induction h with
  | refl => exact .refl
  | @step t' _ ih =>
    rcases r.next t' with hsame | hnext
    · exact hsame ▸ ih
    · exact ih.tail hnext

theorem reachable (r : Run) (t : Nat) : (r.session t).Reachable := by
  obtain ⟨tracing, hstart⟩ := r.start
  exact ⟨tracing, hstart ▸ transitions (Nat.zero_le t)⟩

theorem proper (r : Run) (t : Nat) : (r.session t).Proper :=
  (r.reachable t).proper

theorem balanced (r : Run) (t : Nat) : (r.session t).Balanced :=
  (r.reachable t).balanced

theorem cases_next (r : Run) (t : Nat) : (r.session t).Acts .outermost (r.session (t + 1)) ∨
    ∃ id i, (r.session t).step id = some (r.session (t + 1)) ∧ r.invocation? t id = some i ∧
      (r.session t).StepsTo id i (r.session (t + 1)) := by
  rcases r.next t with hsame | hnext
  · rw [hsame]
    exact Or.inl (.calmly .refl)
  · exact Session.cases_of_transition (r.proper t) hnext

theorem moves_of_le (h : t ≤ t') : Session.Moves (r.session t) (r.session t') :=
  Session.moves_of_transitions (r.proper t) (transitions h)

theorem extends_of_le (h : t ≤ t') : (r.session t).Extends (fun _ => True) (r.session t') :=
  .moves (r.proper t) (moves_of_le h)

def tracing (r : Run) : Bool :=
  (r.session 0).tracing

theorem tracing_session (r : Run) (t : Nat) : (r.session t).tracing = r.tracing :=
  Session.tracing_of_moves (moves_of_le (Nat.zero_le t))

section Invocations

variable {i i' : Invocation}

theorem issued_of_invocation? (hi : r.invocation? t id = some i) : id ≤ (r.session t).issued :=
  (r.proper t).issued id i hi

theorem invocation?_of_le (h : t ≤ t') (hid : id ≤ (r.session t).issued) (hi' : r.invocation? t' id = some i') :
    ∃ i, r.invocation? t id = some i ∧ i.Continues i' := by
  rcases (extends_of_le h).invocation id i' hi' with hold | ⟨hnew, -⟩
  · exact hold
  · omega

theorem gone_of_le (h : t ≤ t') (hid : id ≤ (r.session t).issued) (hgone : r.invocation? t id = none) :
    r.invocation? t' id = none := by
  cases hi' : r.invocation? t' id with
  | none => rfl
  | some i' =>
    obtain ⟨i, hi, -⟩ := invocation?_of_le h hid hi'
    cases hgone.symm.trans hi

theorem invocation?_of_made (h : t ≤ t') {q : Nat} {p : Publication} (hp : r.publication? t q = some p)
    (hi' : r.invocation? t' id = some i') (hpub : i'.publication = q) :
    ∃ i, r.invocation? t id = some i ∧ i.publication = q := by
  have hissued : i'.publication ≤ (r.session t).issued := hpub ▸ (r.proper t).publication q p hp
  obtain ⟨i, hi, hc⟩ := Session.invocation_of_moves (r.proper t) (moves_of_le h) hi' hissued
  exact ⟨i, hi, hc.publication.symm.trans hpub⟩

theorem continues (hi : r.invocation? t id = some i) (hi' : r.invocation? t' id = some i') : i.Continues i' := by
  rcases Nat.le_total t t' with h | h
  · obtain ⟨j, hj, hc⟩ := invocation?_of_le h (issued_of_invocation? hi) hi'
    obtain rfl := Option.some.inj (hi.symm.trans hj)
    exact hc
  · obtain ⟨j, hj, hc⟩ := invocation?_of_le h (issued_of_invocation? hi') hi
    obtain rfl := Option.some.inj (hi'.symm.trans hj)
    exact hc.symm

end Invocations

theorem publication?_of_le {p : Publication} (h : t ≤ t') (hp : r.publication? t id = some p) :
    ∃ p', r.publication? t' id = some p' ∧ p.Continues p' :=
  (extends_of_le h).publication id p hp

/-- What someone who plays a run is told to do next. -/
inductive Cue where
  | perform (command : Command)
  /-- Defines an object that does the same whenever it is called. -/
  | define (name : String) (threadSafe : Bool) (behaviour : Behaviour)
  | step (id : Nat)

def Cue.play (s : Session) : Cue → Session
  | perform command => (s.perform .outermost command).1
  | define name threadSafe behaviour => (s.define name name threadSafe (fun _ _ _ => behaviour) []).1
  | step id => (s.step id).getD s

theorem Cue.play_cases (s : Session) (cue : Cue) : cue.play s = s ∨ Session.Transition s (cue.play s) := by
  cases cue with
  | perform command => exact Or.inr (.perform s command)
  | define name threadSafe behaviour => exact Or.inr (.define s name name threadSafe _ [])
  | step id =>
    cases hstep : s.step id with
    | none => exact Or.inl (by simp [play, hstep])
    | some s' =>
      have hplay : (Cue.step id).play s = s' := by simp [play, hstep]
      exact Or.inr (hplay ▸ .step hstep)

/-- The run that follows the cues. -/
def scripted (tracing : Bool) (cues : List Cue) : Run where
  session t := (cues.take t).foldl Cue.play (.start tracing)
  start := ⟨tracing, rfl⟩
  next t := by
    rw [List.take_add_one, List.foldl_append]
    cases cues[t]? with
    | none => exact Or.inl rfl
    | some cue => exact cue.play_cases _

/-- After the last cue nothing happens. -/
theorem session_scripted {tracing : Bool} {cues : List Cue} {t : Nat} (h : cues.length ≤ t) :
    (scripted tracing cues).session t = (scripted tracing cues).session cues.length := by
  simp only [scripted, List.take_of_length_le h, List.take_length]

theorem forall_scripted {tracing : Bool} {cues : List Cue} {P : Session → Prop}
    (h : ∀ t ≤ cues.length, P ((scripted tracing cues).session t)) (t : Nat) :
    P ((scripted tracing cues).session t) := by
  rcases Nat.le_total t cues.length with hle | hge
  · exact h t hle
  · rw [session_scripted hge]
    exact h cues.length (Nat.le_refl _)

/-- An object listens to a class. While it is called it publishes the class again and awaits that, and all ends well. -/
def echo : Run :=
  .scripted false [.perform (.openBus "bus" .default []),
    .perform (.object "echo" "Echo" false (.branch .number .equal 0
      (.leaf ⟨[], none, .publish "bus" .await (.fresh (.simple 0) (.fixed 1) "" false)⟩) .idle) []),
    .perform (.subscribe "bus" "echo" (.shared (.simple 0)) none),
    .perform (.start "call" ⟨"bus", .held, ⟨.simple 0, 0, "", false⟩⟩),
    .step 5, .step 5, .step 5, .step 7, .step 7, .step 7, .step 5, .step 5]

/-- The first listener publishes for the second one, is over and is unsubscribed. A third one that comes instead of it
gets its address. While that is called, the second one publishes for it as well, in the reply that it has left for
later. -/
def heir : Run :=
  .scripted false [.perform (.openBus "bus" .default []),
    .define "first" false (.publish "bus" (.recipe ⟨.simple 1, 0, "", false⟩) fun _ => .reply none),
    .define "second" false (.later (.publish "bus" (.recipe ⟨.simple 2, 0, "", false⟩) fun _ => .reply none)),
    .define "third" false (.pass "gate" (.reply none)),
    .perform (.subscribe "bus" "first" (.shared (.simple 0)) (some "handle")),
    .perform (.subscribe "bus" "second" (.shared (.simple 1)) none),
    .perform (.start "call" ⟨"bus", .held, ⟨.simple 0, 0, "", false⟩⟩),
    .step 8, .step 8, .step 8,
    .perform (.unsubscribe "bus" "handle"),
    .perform (.subscribe "bus" "third" (.shared (.simple 2)) none),
    .perform (.start "other" ⟨"bus", .held, ⟨.simple 2, 0, "", false⟩⟩),
    .step 13, .step 10, .step 10, .step 10, .step 15]

end Run
end PubSub
