import PubSub.Proofs.Logging.Commands

/-!
# Steps under the switch

An invocation can take its next step in both of two sessions that differ in the switch, or in neither, and the step
does the same to both. So does whatever a program does, and the reports of a program agree.
-/

namespace PubSub.Session

namespace Twin

variable {s s' : Session} (h : s.Twin s')
include h

section Invocations

theorem turnIsFree {i i' : Invocation} (hi : i.Twin i') : s.turnIsFree i = s'.turnIsFree i' := by
  simp only [Session.turnIsFree]
  rw [any_eq_of_forall₂ h.invocations.values fun j j' hj => by
    rw [hj.caller, hi.caller, hj.holdsTurn, hj.isAheadOf hi]]

theorem failed (id : Nat) {i i' : Invocation} (hi : i.Twin i') {cause : ListenerError} (hcause : cause.isPrintable) :
    (s.failed id i cause).Twin (s'.failed id i' cause) := by
  refine (h.leaveCall hi).conclude id hi ?_
  rintro _ ⟨⟩
  exact hcause

theorem call (id : Nat) {i i' : Invocation} (hi : i.Twin i') : (s.call id i).Twin (s'.call id i') := by
  have hsame := hi.sight
  cases hseen : i.subscription.callback.lens.extract i.view i.event with
  | error c =>
    simp only [Session.call, hseen, ← hsame]
    exact h.conclude id hi (by rintro _ ⟨⟩; rfl)
  | ok seen =>
    cases seen with
    | none =>
      simp only [Session.call, hseen, ← hsame]
      rw [hi.lens]
      exact h.conclude id hi (by rintro _ ⟨⟩; rfl)
    | some sight =>
      simp only [Session.call, hseen, ← hsame, hi.object]
      exact (h.changeActivity _ _).putInvocation id (hi.goOn (hi.listener hseen))

theorem advance (id : Nat) {i i' : Invocation} (hi : i.Twin i') {p p' : Behaviour} (hp : p.Twin p') :
    Option.Rel Session.Twin (s.advance id i p) (s'.advance id i' p') := by
  cases hp with
  | reply value => exact .some ((h.leaveCall hi).conclude id hi (by rintro _ ⟨⟩))
  | fail hfault =>
    simp only [Session.advance, hi.fault]
    exact .some (h.failed id hi (i'.isPrintable_fault hfault))
  | crash c => exact .some (h.failed id hi rfl)
  | later hp => exact .some ((h.leaveCall hi).putInvocation id (hi.defers hp))
  | request command hcommand hnext =>
    have hperformed := h.perform i.context hcommand
    simp only [Session.advance, hi.context] at hperformed ⊢
    exact .some (hperformed.1.putInvocation id (hi.goOn (hnext _ _ hperformed.2)))
  | @record entry entry' hentry _ _ hp =>
    have hlog : (s.log ++ [entry]).map LogEntry.plain = (s'.log ++ [entry']).map LogEntry.plain := by
      simp only [List.map_append, h.log, List.map_cons, hentry]
    have hrecorded : Session.Twin { s with log := s.log ++ [entry] } { s' with log := s'.log ++ [entry'] } :=
      { h with log := hlog }
    exact .some (hrecorded.putInvocation id (hi.goOn hp))
  | arrive gate hp => exact .some ((h.changeGate gate _).putInvocation id (hi.goOn hp))
  | pass gate hp =>
    simp only [Session.advance, h.gate]
    split
    · exact .some ((h.changeGate gate _).putInvocation id (hi.goOn hp))
    · exact .none
  | @publish bus message hmessage next next' hnext =>
    have hpublished := h.publishMessage i.context bus hmessage
    simp only [Session.advance]
    rw [← hi.context]
    obtain ⟨ht, hresult⟩ := hpublished
    generalize s.publishMessage i.context bus message = x at ht hresult
    generalize s'.publishMessage i.context bus message = x' at ht hresult
    obtain ⟨t, result⟩ := x
    obtain ⟨t', result'⟩ := x'
    obtain rfl : result = result' := hresult
    cases result with
    | error c => exact .some (ht.failed id hi rfl)
    | ok publication => exact .some (ht.putInvocation id (hi.goOn (hnext publication)))
  | await publication hnext =>
    simp only [Session.advance, h.publications]
    cases hp : s'.publications.get? publication with
    | none => exact .none
    | some p =>
      show Option.Rel _ (p.result?.bind _) (p.result?.bind _)
      cases hresult : p.result? with
      | none => exact .none
      | some result =>
        have herror (e : PublishError) (he : result = .error e) : e.isPrintable :=
          (h.recorded publication p (h.publications ▸ hp)).error (he ▸ hresult)
        exact .some ((h.watch publication).putInvocation id (hi.goOn (hnext result herror)))
  | @forward publication _ _ hp =>
    have hforwarded : s.forwarded ++ [publication] = s'.forwarded ++ [publication] := by rw [h.forwarded]
    have hs : Session.Twin { s with forwarded := s.forwarded ++ [publication] }
        { s' with forwarded := s'.forwarded ++ [publication] } := { h with forwarded := hforwarded }
    exact .some (hs.putInvocation id (hi.goOn hp))
  | workerName hnext =>
    have hname : ((s.buses.get? i.bus).map (·.config.threadName)).getD "" =
        ((s'.buses.get? i'.bus).map (·.config.threadName)).getD "" := by
      have hbus := h.buses.get? i.bus
      rw [← hi.bus]
      generalize s.buses.get? i.bus = found at hbus
      generalize s'.buses.get? i.bus = found' at hbus
      cases hbus with
      | none => rfl
      | some hb => exact hb.threadName
    simp only [Session.advance, hname]
    exact .some (h.putInvocation id (hi.goOn (hnext _)))

theorem proceed (id : Nat) {i i' : Invocation} (hi : i.Twin i') :
    Option.Rel Session.Twin (s.proceed id i) (s'.proceed id i') := by
  have hrest := hi.rest?
  unfold Session.proceed
  generalize i.rest? = p at hrest
  generalize i'.rest? = p' at hrest
  cases hrest with
  | none =>
    simp only [hi.bypasses, h.turnIsFree hi]
    split
    · exact .some (h.call id hi)
    · exact .none
  | some hp => exact h.advance id hi hp

theorem park (id : Nat) {i i' : Invocation} (hi : i.Twin i') : (s.park id i).Twin (s'.park id i') := by
  obtain ⟨hissued, hid⟩ := h.issue
  have hrest := hi.rest?
  simp only [Session.park]
  rw [hid]
  generalize i.rest? = p at hrest
  generalize i'.rest? = p' at hrest
  have hparked := hi.park s'.issue.2
  cases hrest with
  | none => exact hissued.putInvocation id hparked
  | some hp =>
    cases hp with
    | await publication _ => exact (hissued.watch publication).putInvocation id hparked
    | pass gate _ => exact (hissued.changeGate gate _).putInvocation id hparked
    | _ => exact hissued.putInvocation id hparked

theorem step (id : Nat) : Option.Rel Session.Twin (s.step id) (s'.step id) := by
  have hinvocation := h.invocations.get? id
  unfold Session.step
  generalize s.invocations.get? id = found at hinvocation
  generalize s'.invocations.get? id = found' at hinvocation
  cases hinvocation with
  | none => exact .none
  | @some i i' hi =>
    have hproceed := h.proceed id hi
    dsimp only
    generalize s.proceed id i = after at hproceed
    generalize s'.proceed id i' = after' at hproceed
    cases hproceed with
    | some hafter => exact .some hafter
    | none =>
      have hparked := h.park id hi
      have hflag : i.parked = i'.parked := by
        cases hi
        rfl
      simp only [hflag, hi.bus, hparked.isRunning]
      split
      · exact .none
      · split
        · exact .some hparked
        · exact .some (hparked.interrupt id hi)

end Invocations

section Programs

theorem agenda : s.agenda = s'.agenda := by
  have hdepth : ∀ e e' : Nat × Invocation, e.1 = e'.1 ∧ e.2.Twin e'.2 →
      (decide (e.2.origin.depth = 0)) = decide (e'.2.origin.depth = 0) := by
    rintro ⟨id, i⟩ ⟨id', i'⟩ ⟨-, hi⟩
    cases hi
    rfl
  have houter := rel_filter h.invocations hdepth
  have hnested := rel_filter h.invocations fun e e' he => congrArg Bool.not (hdepth e e' he)
  simp only [Session.agenda, List.partition_eq_filter_filter]
  exact map_eq_of_forall₂ (List.rel_append hnested (List.rel_reverse houter)) fun e e' he => he.1

theorem next (current : Option Nat) :
    Option.Rel (fun x x' => x.1 = x'.1 ∧ x.2.Twin x'.2) (s.next current) (s'.next current) := by
  have hstep (id : Nat) : Option.Rel (fun x x' : Nat × Session => x.1 = x'.1 ∧ x.2.Twin x'.2)
      ((s.step id).map (id, ·)) ((s'.step id).map (id, ·)) := by
    have hs := h.step id
    generalize s.step id = after at hs
    generalize s'.step id = after' at hs
    cases hs with
    | none => exact .none
    | some hs => exact .some ⟨rfl, hs⟩
  have hfirst := rel_findSome? s.agenda hstep
  have hcurrent : Option.Rel (fun x x' : Nat × Session => x.1 = x'.1 ∧ x.2.Twin x'.2)
      (current.bind fun id => (s.step id).map (id, ·)) (current.bind fun id => (s'.step id).map (id, ·)) := by
    cases current with
    | none => exact .none
    | some id => exact hstep id
  simp only [Session.next, ← h.agenda]
  generalize (current.bind fun id => (s.step id).map (id, ·)) = taken at hcurrent
  generalize (current.bind fun id => (s'.step id).map (id, ·)) = taken' at hcurrent
  cases hcurrent with
  | none => exact hfirst
  | some htaken => exact .some htaken

omit h in
theorem settleWithin (h : s.Twin s') (fuel : Nat) (current : Option Nat) :
    (s.settleWithin fuel current).Twin (s'.settleWithin fuel current) := by
  induction fuel generalizing s s' current with
  | zero => exact h
  | succ fuel ih =>
    have hnext := h.next current
    simp only [Session.settleWithin]
    generalize s.next current = taken at hnext
    generalize s'.next current = taken' at hnext
    cases hnext with
    | none => exact h
    | @some x x' hx =>
      obtain ⟨id, t⟩ := x
      obtain ⟨id', t'⟩ := x'
      obtain ⟨rfl, ht⟩ := hx
      exact ih ht (some id)

theorem settle : s.settle.Twin s'.settle :=
  h.settleWithin _ none

theorem outcome? (publication : Nat) : s.outcome? publication = s'.outcome? publication := by
  simp only [Session.outcome?, h.publications]

theorem awaitOutcome (publication : Nat) :
    TwinUpTo Result.plain (s.awaitOutcome publication) (s'.awaitOutcome publication) := by
  have hsettled := (h.watch publication).settle
  simp only [Session.awaitOutcome]
  rw [hsettled.outcome?]
  exact ⟨hsettled, rfl⟩

theorem take {step : Step} (hstep : step.isPrintable) :
    TwinUpTo Result.plain (s.take (step.logging true)) (s'.take (step.logging false)) := by
  cases step with
  | perform command =>
    have hperformed := h.perform .outermost (show command.isPrintable from hstep)
    exact ⟨hperformed.1.settle, congrArg Result.answer hperformed.2⟩
  | publish p =>
    have hpublished := h.publish .outermost (show p.recipe.unprintable = false by simpa [Step.isPrintable] using hstep)
    simp only [Step.logging, Session.take]
    generalize s.publish .outermost p = published at hpublished
    generalize s'.publish .outermost p = published' at hpublished
    cases hpublished with
    | none => exact ⟨h, rfl⟩
    | @some x x' hx =>
      obtain ⟨t, result⟩ := x
      obtain ⟨t', result'⟩ := x'
      obtain ⟨ht, rfl⟩ := hx
      cases result with
      | error c => exact ⟨ht, rfl⟩
      | ok publication => exact ht.awaitOutcome publication
  | await name =>
    simp only [Step.logging, Session.take]
    have hfound := Table.rel_get?_of_eq h.pending name
    generalize s.pending.get? name = found at hfound
    generalize s'.pending.get? name = found' at hfound
    cases hfound with
    | none => exact ⟨h, rfl⟩
    | some hsame =>
      subst hsame
      exact (h.erase_pending name).awaitOutcome _
  | waitArrivals gate count =>
    simp only [Step.logging, Session.take, Session.waitUntil, h.gate]
    exact ⟨h, rfl⟩
  | waitCalls object count =>
    have hfound := h.objects.get? object
    simp only [Step.logging, Session.take]
    generalize s.objects.get? object = found at hfound
    generalize s'.objects.get? object = found' at hfound
    cases hfound with
    | none => exact ⟨h, rfl⟩
    | some ho =>
      simp only [Session.waitUntil, ho.identity, h.activity]
      exact ⟨h, rfl⟩
  | probe gate =>
    simp only [Step.logging, Session.take, h.gate]
    exact ⟨h, rfl⟩

omit h in
theorem watchAll (h : s.Twin s') (publications : List Nat) :
    (publications.foldl Session.watch s).Twin (publications.foldl Session.watch s') := by
  induction publications generalizing s s' with
  | nil => exact h
  | cons publication rest ih => exact ih (h.watch publication)

theorem drain {result result' : Result} (hresult : result.plain = result'.plain) :
    TwinUpTo Report.plain (s.drain result) (s'.drain result') := by
  have hsettled := (h.watchAll s.forwarded).settle
  simp only [Session.drain, ← h.pending, ← h.forwarded]
  split
  · have houtcome := funext hsettled.outcome?
    refine ⟨{ hsettled with forwarded := rfl, log := rfl, notices := rfl }, ?_⟩
    simp only [Report.plain, hresult, filter_lines, hsettled.log, hsettled.notices, hsettled.forwarded, houtcome]
  · exact ⟨h, by simp only [Report.plain, hresult]⟩

omit h in
/-- The reports of a program agree, step by step. -/
theorem run (h : s.Twin s') {steps : List Step} (hsteps : ∀ step ∈ steps, step.isPrintable) :
    (s.run (steps.map (Step.logging true))).map Report.plain =
      (s'.run (steps.map (Step.logging false))).map Report.plain := by
  induction steps generalizing s s' with
  | nil => rfl
  | cons step rest ih =>
    obtain ⟨hfirst, hrest⟩ := List.forall_mem_cons.1 hsteps
    obtain ⟨htaken, hresult⟩ := h.take hfirst
    obtain ⟨hdrained, hreport⟩ := htaken.drain hresult
    simp only [List.map_cons, Session.run]
    rw [hreport, ih hdrained hrest]

end Programs

end Twin
end PubSub.Session
