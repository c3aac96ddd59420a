import PubSub.Proofs.Buses

/-!
# Operations

What a bus is asked for, one operation after the other. An operation that fails leaves no trace in the bus, so those
that come later answer as if it had never been made.
-/

namespace PubSub

section Declarations

theorem Draft.mismatch_of_extend {d : Draft} {parent : Descriptor} {target : Name} {c : Crash}
    (h : d.extend parent target = .error c) : c = .castMismatch parent.key := by
  simp only [extend] at h
  split at h
  · cases h
  · exact (Except.error.inj h).symm

theorem Declaration.mismatch_of_draft {d : Declaration} {c : Crash} (h : d.draft = .error c) :
    ∃ parent, c = .castMismatch parent := by
  induction d generalizing c with
  | concrete cls => cases h
  | abstract n => cases h
  | extending base parent target ihbase ihparent =>
    rcases bind_eq_error_iff.1 h with h | ⟨d, -, h⟩
    · exact ihbase h
    · rcases bind_eq_error_iff.1 h with h | ⟨p, -, h⟩
      · exact ihparent h
      · exact ⟨_, Draft.mismatch_of_extend h⟩
  | parameterized base raw argument ihbase ihargument =>
    rcases bind_eq_error_iff.1 h with h | ⟨d, -, h⟩
    · exact ihbase h
    · rcases bind_eq_error_iff.1 h with h | ⟨a, -, h⟩
      · exact ihargument h
      · cases h

theorem Hierarchy.mismatch_of_declared {h : Hierarchy} {cls : Name} {c : Crash} (hc : h.declared cls = .error c) :
    ∃ parent, c = .castMismatch parent := by
  have hdescribe (d : Declaration) (hd : d.describe = .error c) : ∃ parent, c = .castMismatch parent :=
    Declaration.mismatch_of_draft (map_eq_error_iff.1 hd)
  simp only [declared] at hc
  split at hc
  · exact hdescribe _ hc
  · exact hdescribe _ hc

theorem Hierarchy.declared_dead_ne_error (h : Hierarchy) (c : Crash) : h.declared .dead ≠ .error c := by
  intro hc
  cases hc

end Declarations

namespace Matcher

/-- What is remembered once a class was asked for its keys, also if that crashed. -/
def afterAsking (m : Matcher) (declared : Name → Except Crash Descriptor) (cls : Name) : Matcher :=
  match m.keysFor declared cls with
  | .ok (_, m') => m'
  | .error _ => m

variable {m m' : Matcher} {declared : Name → Except Crash Descriptor} {cls : Name} {c : Crash}

theorem keysFor_eq_error_iff :
    m.keysFor declared cls = .error c ↔ m.entries.lookup cls = none ∧ declared cls = .error c := by
  simp only [keysFor]
  split
  · rename_i r hr
    simp [hr]
  · rename_i hnone
    simp only [hnone, true_and, resolveFresh]
    cases declared cls <;> simp [bind, Except.bind, pure, Except.pure]

theorem afterAsking_of_ok {r : Resolution} (h : m.keysFor declared cls = .ok (r, m')) :
    m.afterAsking declared cls = m' := by
  simp only [afterAsking, h]

theorem afterAsking_of_error (h : m.keysFor declared cls = .error c) : m.afterAsking declared cls = m := by
  simp only [afterAsking, h]

end Matcher

namespace Bus

inductive Operation where
  | subscribe (bindings : List (Key × Callback))
  | subscribeHandlers (target : String) (handlers : List (Key × Callback))
  | unsubscribe (handle : Handle)
  /-- A publish at some depth, while this hierarchy is in force. -/
  | publish (h : Hierarchy) (depth : Nat) (e : Event)
  | keys (h : Hierarchy) (cls : Name)
  | close

inductive Reply where
  | subscribed (handle : Handle)
  | unsubscribed (removed : List (Key × Nat))
  | planned (notice : Option Notice) (plan : Plan)
  | keys (keys : Resolution)
  | closed
  | refused (error : BusError)
  | crashed (crash : Crash)

def Reply.fails : Reply → Bool
  | refused _ | crashed _ | planned _ (.refused _) => true
  | subscribed _ | unsubscribed _ | planned _ (.scheduled _ _) | keys _ | closed => false

/-- What the bus remembers once a publish is over, also if it crashed half way. An event that nobody hears may have
another one carry it, and then both have been asked for their declarations, one after the other. -/
def remembered (b : Bus) (declared : Name → Except Crash Descriptor) (depth : Nat) (e : Event) : Matcher :=
  if !b.isOpen || (b.exceeded? depth).isSome then b.matcher
  else match b.matcher.keysFor declared e.cls with
    | .error _ => b.matcher
    | .ok (keys, m) =>
      if (b.registry.lookup keys).isEmpty && b.config.deadEvents = .republish && !e.isDead
      then m.afterAsking declared .dead else m

/-- What comes of a request that changes the registry, if it is met. -/
def settled {α : Type} (b : Bus) (reply : α → Reply) : Except BusError (Bus × α) → Bus × Reply
  | .ok (b', a) => (b', reply a)
  | .error e => (b, .refused e)

def operate (b : Bus) : Operation → Bus × Reply
  | .subscribe bindings => b.settled .subscribed (b.subscribe bindings)
  | .subscribeHandlers target handlers => b.settled .subscribed (b.subscribeHandlers target handlers)
  | .unsubscribe handle => b.settled .unsubscribed (b.unsubscribe handle)
  | .publish h depth e =>
    ({ b with matcher := b.remembered h.declared depth e },
      match b.publish h.declared depth e with
      | .ok d => .planned d.notice d.plan
      | .error c => .crashed c)
  | .keys h cls =>
    ({ b with matcher := b.matcher.afterAsking h.declared cls },
      match b.keysFor h.declared cls with
      | .ok (keys, _) => .keys keys
      | .error c => .crashed c)
  | .close => (b.close, .closed)

def operateAll (b : Bus) : List Operation → Bus × List Reply
  | [] => (b, [])
  | op :: ops =>
    let (b, reply) := b.operate op
    let (b, replies) := b.operateAll ops
    (b, reply :: replies)

/-- The operations that succeed, each where it stands among the others. -/
def successes (b : Bus) : List Operation → List Operation
  | [] => []
  | op :: ops =>
    let rest := (b.operate op).1.successes ops
    if (b.operate op).2.fails then rest else op :: rest

section Publishing

variable {b : Bus} {h : Hierarchy} {depth : Nat} {e : Event}

theorem remembered_of_publish {declared : Name → Except Crash Descriptor} {d : Dispatch}
    (hd : b.publish declared depth e = .ok d) : b.remembered declared depth e = d.matcher := by
  cases decides_of_publish hd with
  | closed hclosed => simp [remembered, hclosed]
  | tooDeep _ hlimit => simp [remembered, hlimit]
  | heard hopen hlimit hkeys hheard => simp [remembered, hopen, hlimit, hkeys, hheard, deliver]
  | unheard hopen hlimit hkeys hnone hpolicy =>
    have huncarried : (decide (b.config.deadEvents = .republish) && !e.isDead) = false := by
      cases hdead : e.isDead with
      | true => simp
      | false => simpa [hdead] using hpolicy
    simp [remembered, hopen, hlimit, hkeys, hnone, huncarried]
  | carried hopen hlimit hkeys hnone hpolicy halive hcarrier =>
    simp [remembered, hopen, hlimit, hkeys, hnone, hpolicy, halive, Matcher.afterAsking_of_ok hcarrier, deliver]
  | uncarried hopen hlimit hkeys hnone hpolicy halive hcarrier =>
    simp [remembered, hopen, hlimit, hkeys, hnone, hpolicy, halive, Matcher.afterAsking_of_ok hcarrier]

/-- A publish crashes only when its own event is asked for its declaration, and that is before anything is
remembered. -/
theorem crash_of_publish {c : Crash} (hc : b.publish h.declared depth e = .error c) :
    (∃ parent, c = .castMismatch parent) ∧ b.matcher.entries.lookup e.cls = none ∧ h.declared e.cls = .error c ∧
      b.remembered h.declared depth e = b.matcher := by
  simp only [publish] at hc
  split at hc
  · cases hc
  have hopen : b.isOpen := by simpa using ‹¬ (!b.isOpen) = true›
  split at hc
  · cases hc
  have hlimit : b.exceeded? depth = none := ‹_›
  rcases bind_eq_error_iff.1 hc with hkeys | ⟨⟨keys, m⟩, hkeys, hc⟩
  · obtain ⟨hnew, hdeclared⟩ := Matcher.keysFor_eq_error_iff.1 hkeys
    refine ⟨Hierarchy.mismatch_of_declared hdeclared, hnew, hdeclared, ?_⟩
    simp [remembered, hopen, hlimit, hkeys]
  · -- from here on only the carrier is asked, which cannot crash
    exfalso
    simp only at hc
    split at hc
    · simp only [deliverUnheard] at hc
      split at hc
      · cases hc
      · cases hc
      · cases hc
      · rcases bind_eq_error_iff.1 hc with hcarrier | ⟨⟨keys', m'⟩, -, hc⟩
        · exact h.declared_dead_ne_error c (Matcher.keysFor_eq_error_iff.1 hcarrier).2
        · simp only at hc
          split at hc <;> cases hc
    · cases hc

theorem refused_of_publish {declared : Name → Except Crash Descriptor} {d : Dispatch} {error : PublishError}
    (hd : b.publish declared depth e = .ok d) (hplan : d.plan = .refused error) :
    d.matcher = b.matcher ∧ (error = .closed ∨ ∃ limit, error = .depthExceeded depth limit) := by
  cases decides_of_publish hd with
  | closed =>
    cases hplan
    exact ⟨rfl, Or.inl rfl⟩
  | tooDeep =>
    cases hplan
    exact ⟨rfl, Or.inr ⟨_, rfl⟩⟩
  | heard | unheard | carried | uncarried => cases hplan

end Publishing

section Failing

variable {b : Bus}

private theorem settled_of_failure {α : Type} {reply : α → Reply} {result : Except BusError (Bus × α)}
    (hreply : ∀ a, (reply a).fails = false) (hfails : (b.settled reply result).2.fails) :
    (b.settled reply result).1 = b := by
  cases result with
  | error e => rfl
  | ok p => cases (hreply p.2).symm.trans hfails

theorem operate_of_failure {op : Operation} (hfails : (b.operate op).2.fails) : (b.operate op).1 = b := by
  cases op with
  | subscribe bindings => exact settled_of_failure (fun _ => rfl) hfails
  | subscribeHandlers target handlers => exact settled_of_failure (fun _ => rfl) hfails
  | unsubscribe handle => exact settled_of_failure (fun _ => rfl) hfails
  | publish h depth e =>
    simp only [operate] at hfails ⊢
    cases hd : b.publish h.declared depth e with
    | error c => rw [(crash_of_publish hd).2.2.2]
    | ok d =>
      rw [remembered_of_publish hd]
      cases hplan : d.plan with
      | refused error => rw [(refused_of_publish hd hplan).1]
      | scheduled event targets =>
        rw [hd] at hfails
        simp only [hplan] at hfails
        cases hfails
  | keys h cls =>
    simp only [operate] at hfails ⊢
    split at hfails
    · cases hfails
    · rename_i c hc
      rcases bind_eq_error_iff.1 hc with hkeys | ⟨⟨keys, m⟩, -, hc⟩
      · rw [Matcher.afterAsking_of_error hkeys]
      · cases hc
  | close => cases hfails

/-- Failed operations may be struck out of a history, wherever they are and however many: the others give the same
replies, and the bus ends up the same. -/
theorem operateAll_successes (b : Bus) (ops : List Operation) :
    b.operateAll (b.successes ops) = ((b.operateAll ops).1, (b.operateAll ops).2.filter (!·.fails)) := by
  induction ops generalizing b with
  | nil => rfl
  | cons op ops ih =>
    simp only [successes, operateAll]
    by_cases hfails : (b.operate op).2.fails
    · rw [operate_of_failure hfails] at *
      simp [hfails, ih]
    · simp [hfails, operateAll, ih]

end Failing

end Bus
end PubSub
