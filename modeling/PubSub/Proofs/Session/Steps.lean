import PubSub.Proofs.Session.Effects
import PubSub.Proofs.Session.Histories

/-!
# Steps

What the step of an invocation comes to. It goes on, or it ends with an outcome of its own, or its bus has no workers
any more and it is interrupted. All else that happens in the step is the effect of what it asked for.
-/

namespace PubSub

namespace Invocation

theorem isIdle_of_rest? {i : Invocation} (hs : i.Sound) {p : Behaviour} (hrest : i.rest? = some p)
    (hp : p.mayBlock = false) : i.isIdle = false := by
  simp only [Sound] at hs
  simp only [rest?] at hrest
  simp only [isIdle]
  split at hrest
  · cases hrest
  · cases hrest
  all_goals
    rename_i q hstage
    obtain rfl := Option.some.inj hrest
    simp only [hstage] at hs ⊢
    cases hparked : i.parked with
    | false => rfl
    | true => exact absurd (hs hparked) (by simp [hp])

end Invocation

namespace Session

/-- What makes an invocation fail in the step that it takes next: its callback or its late reply fails or crashes, or
the event cannot be seen in the way that the listener wants. -/
inductive Fails (s : Session) (i : Invocation) : ListenerError → Prop
  | returned {fault : Fault} (h : i.stage = .calling (.fail fault)) : Fails s i (.failed fault)
  | deferred {fault : Fault} (h : i.stage = .deferring (.fail fault)) : Fails s i (.deferred fault)
  | gaveUp {c : Crash} (h : i.rest? = some (.crash c)) : Fails s i (.crashed c.message)
  | publishing {bus : String} {message : Message} {next : Option Nat → Behaviour} {c : Crash}
      (h : i.rest? = some (.publish bus message next)) (hc : (s.publishMessage i.context bus message).2 = .error c) :
    Fails s i (.crashed c.message)
  | unseen (h : i.rest? = none) (hsight : i.subscription.callback.lens.extract i.view i.event = .ok none) :
    Fails s i (.typeMismatch i.subscription.callback.lens.expected)
  | seeing {c : Crash} (h : i.rest? = none) (hsight : i.subscription.callback.lens.extract i.view i.event = .error c) :
    Fails s i (.crashed c.message)

/-- How an invocation ends by itself. A failure that cannot be recorded is lost. -/
inductive Ends (s : Session) (i : Invocation) : Outcome → Prop
  | replied {value : Option Value} (h : i.rest? = some (.reply value)) : Ends s i (.replied value)
  | failed {cause : ListenerError} {failure : ListenerFailure} (h : s.Fails i cause)
      (hrecorded : i.failure s.tracing cause = .ok failure) : Ends s i (.failed failure)
  | lost {cause : ListenerError} {c : Crash} (h : s.Fails i cause) (hcrashed : i.failure s.tracing cause = .error c) :
    Ends s i (.lost true)

/-- What the step of an invocation makes of a session. -/
inductive StepsTo (s : Session) (id : Nat) (i : Invocation) : Session → Prop
  | wentOn {s₁ s' : Session} {i' : Invocation} (h : s.Acts i.context s₁) (hi : s₁.invocations.get? id = some i)
      (hp : Progress id s₁ s') (hi' : s'.invocations.get? id = some i') : StepsTo s id i s'
  | ended {s₁ : Session} {o : Outcome} (hproceeds : s.proceed id i = some (s₁.finish id i o)) (ho : s.Ends i o)
      (h : Effects s s₁) (hi : s₁.invocations.get? id = some i) : StepsTo s id i (s₁.finish id i o)
  | interrupted {s₁ s₂ s₃ : Session} {i' : Invocation} (hstopped : s.isRunning i.bus = false)
      (h : Effects s s₁) (hi : s₁.invocations.get? id = some i) (hp : Progress id s₁ s₂)
      (hkept : s₂.publications = s₁.publications) (hleave : Effects s₂ s₃)
      (hi' : s₃.invocations.get? id = some i') (hsame : i.Continues i') :
    StepsTo s id i (s₃.finish id i' (.lost false))

variable {s s' s₀ : Session} {id : Nat} {i : Invocation}

theorem get?_putInvocation (s : Session) (id : Nat) (i : Invocation) :
    (s.putInvocation id i).invocations.get? id = some i :=
  (Table.get?_put ..).trans (if_pos rfl)

private theorem StepsTo.replied {value : Option Value} (hrest : i.rest? = some (.reply value))
    (h : Effects s s₀) (hi : s₀.invocations.get? id = some i)
    (hproceeds : s.proceed id i = some (s₀.conclude id i (.ok value))) :
    s.StepsTo id i (s₀.conclude id i (.ok value)) :=
  .ended hproceeds (.replied hrest) h hi

private theorem StepsTo.failed {cause : ListenerError} (hfails : s.Fails i cause) (h : Effects s s₀)
    (hi : s₀.invocations.get? id = some i) (hproceeds : s.proceed id i = some (s₀.conclude id i (.error cause))) :
    s.StepsTo id i (s₀.conclude id i (.error cause)) := by
  have htracing := tracing_of_effects h
  cases hf : i.failure s.tracing cause with
  | error c =>
    have heq : s₀.conclude id i (.error cause) = s₀.finish id i (.lost true) := by
      simp only [conclude, htracing, hf]
    rw [heq] at hproceeds ⊢
    exact .ended hproceeds (.lost hfails hf) h hi
  | ok failure =>
    have heq : s₀.conclude id i (.error cause)
        = (s₀.report [.listenerFailed failure]).finish id i (.failed failure) := by
      simp only [conclude, htracing, hf]
    have haside := aside_report s₀ [.listenerFailed failure]
    rw [heq] at hproceeds ⊢
    exact .ended hproceeds (.failed hfails hf) (h.trans haside.effects) (haside.invocations ▸ hi)

section Calling

private theorem stepsTo_call (hi : s.invocations.get? id = some i) (hrest : i.rest? = none)
    (hturn : i.bypasses || s.turnIsFree i) (hproceeds : s.proceed id i = some (s.call id i)) :
    s.StepsTo id i (s.call id i) := by
  simp only [call] at hproceeds ⊢
  cases hsight : i.subscription.callback.lens.extract i.view i.event with
  | error c =>
    simp only [hsight] at hproceeds
    exact .failed (.seeing hrest hsight) .refl hi hproceeds
  | ok seen =>
    cases seen with
    | none =>
      simp only [hsight] at hproceeds
      exact .failed (.unseen hrest hsight) .refl hi hproceeds
    | some sight =>
      have haside : s.Aside (s.changeActivity i.subscription.callback.object .enter) := .rest ..
      have hi' : (s.changeActivity i.subscription.callback.object .enter).invocations.get? id = some i := hi
      exact .wentOn (.calmly haside.effects) hi' (.called hi' hrest hturn hsight) (get?_putInvocation ..)

end Calling

section Advancing

theorem mayBlock_of_advance {p : Behaviour} (h : s.advance id i p = none) : p.mayBlock = true := by
  cases p with
  | pass gate next => rfl
  | await publication next => rfl
  | publish bus message next =>
    simp only [advance] at h
    split at h <;> cases h
  | _ => cases h

private theorem stepsTo_goOn (hi : s.invocations.get? id = some i) {p p' : Behaviour} (hrest : i.rest? = some p)
    (hp : p.Follows p') (haside : s.Aside s') : s.StepsTo id i (s'.putInvocation id (i.goOn p')) := by
  have hi' : s'.invocations.get? id = some i := haside.invocations ▸ hi
  exact .wentOn (.calmly haside.effects) hi' (.wentOn hi' hrest hp) (get?_putInvocation ..)

private theorem get?_watch {publication : Nat} {p : Publication} (hp : s.publications.get? publication = some p) :
    ∃ p', (s.watch publication).publications.get? publication = some p' ∧ p'.result? = p.result? := by
  simp only [watch, hp]
  split
  · exact ⟨p, hp, rfl⟩
  · refine ⟨p.await, ?_, p.result?_await⟩
    rw [(aside_report _ _).publications]
    exact (Table.get?_put ..).trans (if_pos rfl)

theorem invocations_watch (s : Session) (publication : Nat) : (s.watch publication).invocations = s.invocations := by
  simp only [watch]
  split
  · rfl
  · split
    · rfl
    · exact (aside_report _ _).invocations

private theorem stepsTo_await (hi : s.invocations.get? id = some i) {publication : Nat}
    {next : Except PublishError Delivery → Behaviour} (hrest : i.rest? = some (.await publication next))
    {p : Publication} (hp : s.publications.get? publication = some p) {result : Except PublishError Delivery}
    (hresult : p.result? = some result) :
    s.StepsTo id i ((s.watch publication).putInvocation id (i.goOn (next result))) := by
  obtain ⟨p', hp', hsame⟩ := get?_watch hp
  have hi' : (s.watch publication).invocations.get? id = some i := by rw [invocations_watch, hi]
  have hawaited := Progress.awaited hi' hrest hp' (hsame.trans hresult)
  exact .wentOn (.calmly (effects_watch s publication)) hi' hawaited (get?_putInvocation ..)

private theorem stepsTo_request (hs : s.Proper) (hi : s.invocations.get? id = some i) {command : Command}
    {next : Answer → Behaviour} (hrest : i.rest? = some (.request command next)) :
    s.StepsTo id i ((s.perform i.context command).1.putInvocation id
      (i.goOn (next (s.perform i.context command).2))) := by
  have hidle : i.isIdle = false := Invocation.isIdle_of_rest? (hs.sound id i hi) hrest rfl
  have hacts : s.Acts i.context (s.perform i.context command).1 := acts_perform hs command
  have hi' := hs.get?_of_acts hacts hi hidle
  exact .wentOn hacts hi' (.wentOn hi' hrest (.request command next _)) (get?_putInvocation ..)

private theorem stepsTo_publish (hs : s.Proper) (hi : s.invocations.get? id = some i) {bus : String} {message : Message}
    {next : Option Nat → Behaviour} (hrest : i.rest? = some (.publish bus message next))
    (hproceeds : s.proceed id i = s.advance id i (.publish bus message next))
    (h : s.advance id i (.publish bus message next) = some s') : s.StepsTo id i s' := by
  have hidle : i.isIdle = false := Invocation.isIdle_of_rest? (hs.sound id i hi) hrest rfl
  rw [h] at hproceeds
  simp only [advance] at h
  rcases publishMessage_cases hs i.context bus message with ⟨c, hc, heffects⟩ | hnone | ⟨publication, hp, hpub⟩
  · have hfails : s.Fails i (.crashed c.message) := .publishing hrest hc
    generalize s.publishMessage i.context bus message = r at h hc heffects
    obtain ⟨s₁, result⟩ := r
    obtain rfl : result = .error c := hc
    obtain rfl := Option.some.inj h
    have haside := aside_leaveCall s₁ i
    have hi₁ := get?_of_effects heffects hi hidle
    exact .failed hfails (heffects.trans haside.effects) (haside.invocations ▸ hi₁) hproceeds
  · rw [hnone] at h
    obtain rfl := Option.some.inj h
    exact .wentOn (.calmly .refl) hi (.wentOn hi hrest (.unpublished bus message next)) (get?_putInvocation ..)
  · generalize s.publishMessage i.context bus message = r at h hp hpub
    obtain ⟨s₁, result⟩ := r
    obtain rfl : result = .ok (some publication) := hp
    obtain rfl := Option.some.inj h
    exact .wentOn (.calmly .refl) hi (.published hi hrest hpub) (get?_putInvocation ..)

private theorem stepsTo_advance (hs : s.Proper) (hi : s.invocations.get? id = some i) {p : Behaviour}
    (hrest : i.rest? = some p) (h : s.advance id i p = some s') : s.StepsTo id i s' := by
  have hproceeds : s.proceed id i = s.advance id i p := by simp only [proceed, hrest]
  have haside := aside_leaveCall s i
  have hleft : (s.leaveCall i).invocations.get? id = some i := haside.invocations ▸ hi
  cases p with
  | reply value =>
    rw [h] at hproceeds
    obtain rfl := Option.some.inj h
    exact .replied hrest haside.effects hleft hproceeds
  | fail fault =>
    have hfails : s.Fails i (i.fault fault) := by
      simp only [Invocation.rest?] at hrest
      simp only [Invocation.fault]
      split at hrest
      · cases hrest
      · cases hrest
      · rename_i hstage
        obtain rfl := Option.some.inj hrest
        simp only [hstage]
        exact .returned hstage
      · rename_i hstage
        obtain rfl := Option.some.inj hrest
        simp only [hstage]
        exact .deferred hstage
    rw [h] at hproceeds
    obtain rfl := Option.some.inj h
    exact .failed hfails haside.effects hleft hproceeds
  | crash c =>
    rw [h] at hproceeds
    obtain rfl := Option.some.inj h
    exact .failed (.gaveUp hrest) haside.effects hleft hproceeds
  | later rest =>
    obtain rfl := Option.some.inj h
    exact .wentOn (.calmly haside.effects) hleft (.left hleft hrest) (get?_putInvocation ..)
  | request command next =>
    obtain rfl := Option.some.inj h
    exact stepsTo_request hs hi hrest
  | record entry next =>
    obtain rfl := Option.some.inj h
    exact stepsTo_goOn hi hrest (.record entry next) (.rest ..)
  | arrive gate next =>
    obtain rfl := Option.some.inj h
    exact stepsTo_goOn hi hrest (.arrive gate next) (.rest ..)
  | pass gate next =>
    simp only [advance] at h
    split at h
    · obtain rfl := Option.some.inj h
      exact stepsTo_goOn hi hrest (.pass gate next) (.rest ..)
    · cases h
  | publish bus message next => exact stepsTo_publish hs hi hrest hproceeds h
  | await publication next =>
    simp only [advance] at h
    cases hp : s.publications.get? publication with
    | none => simp [hp] at h
    | some p =>
      cases hresult : p.result? with
      | none => simp [hp, hresult] at h
      | some result =>
        obtain rfl : (s.watch publication).putInvocation id (i.goOn (next result)) = s' := by
          simpa [hp, hresult] using h
        exact stepsTo_await hi hrest hp hresult
  | forward publication next =>
    obtain rfl := Option.some.inj h
    exact stepsTo_goOn hi hrest (.forward publication next) (.rest ..)
  | workerName next =>
    obtain rfl := Option.some.inj h
    exact stepsTo_goOn hi hrest (.workerName next _) (.rest ..)

end Advancing

section Parking

private theorem sound_park (hs : s.Proper) (hi : s.invocations.get? id = some i) (hblocked : s.proceed id i = none)
    (hparked : i.parked = false) (ticket : Nat) : (i.park ticket).Sound := by
  have hsound := hs.sound id i hi
  simp only [proceed] at hblocked
  simp only [Invocation.Sound] at hsound
  cases hstage : i.stage with
  | fresh =>
    have hbypass : i.bypasses = false := by
      simp only [Invocation.rest?, hstage] at hblocked
      split at hblocked
      · cases hblocked
      · simp_all
    simp only [Invocation.park, hstage, Invocation.Sound]
    exact ⟨trivial, hbypass⟩
  | queued _ =>
    simp only [hstage, hparked] at hsound
    cases hsound.1
  | calling p =>
    simp only [Invocation.rest?, hstage] at hblocked
    simp only [Invocation.park, hstage, Invocation.Sound]
    intro _
    exact mayBlock_of_advance hblocked
  | deferring p =>
    simp only [Invocation.rest?, hstage] at hblocked
    simp only [Invocation.park, hstage, Invocation.Sound]
    intro _
    exact mayBlock_of_advance hblocked

private theorem report_issue (s : Session) (ns : List Notice) :
    s.issue.1.report ns = (s.report ns).issue.1 ∧ (s.report ns).issue.2 = s.issue.2 := by
  cases ht : s.tracing <;> simp [report, issue, ht]

private theorem watch_issue (s : Session) (publication : Nat) :
    s.issue.1.watch publication = (s.watch publication).issue.1 ∧ (s.watch publication).issue.2 = s.issue.2 := by
  have hsame : s.issue.1.publications = s.publications := rfl
  simp only [watch]
  rw [hsame]
  cases s.publications.get? publication with
  | none => exact ⟨rfl, rfl⟩
  | some p =>
    simp only
    split
    · exact ⟨rfl, rfl⟩
    · exact report_issue (s.putPublication publication p.await) _

private theorem parks (hi : s.invocations.get? id = some i) (hsound : (i.park s.issue.2).Sound) :
    ∃ s₁, Effects s s₁ ∧ s₁.invocations.get? id = some i ∧ Progress id s₁ (s.park id i) ∧
      (s.park id i).publications = s₁.publications := by
  simp only [park]
  split
  · rename_i publication next _
    obtain ⟨hwatch, hticket⟩ := watch_issue s publication
    have hi' : (s.watch publication).invocations.get? id = some i := by rw [invocations_watch, hi]
    have hparked := Progress.parked hi' (hticket ▸ hsound)
    rw [hwatch, ← hticket]
    exact ⟨_, effects_watch s publication, hi', hparked, rfl⟩
  · rename_i gate next _
    have haside : s.Aside (s.changeGate gate (·.wait id)) := .rest ..
    have hi' : (s.changeGate gate (·.wait id)).invocations.get? id = some i := hi
    exact ⟨_, haside.effects, hi', .parked hi' hsound, rfl⟩
  · exact ⟨s, .refl, hi, .parked hi hsound, rfl⟩

private theorem park_frame (s : Session) (id : Nat) (i : Invocation) :
    (s.park id i).buses = s.buses ∧ (s.park id i).invocations.get? id = some (i.park s.issue.2) := by
  refine ⟨?_, ?_⟩
  · simp only [park]
    split
    · exact buses_watch s.issue.1 _
    · rfl
    · rfl
  · simp only [park, putInvocation, Table.get?_put, if_true]

private theorem finish_congr {j : Invocation} (h : j.publication = i.publication) (o : Outcome) :
    s.finish id j o = s.finish id i o := by
  simp only [finish]
  rw [h]

private theorem stepsTo_interrupt (hi : s.invocations.get? id = some i) (hsound : (i.park s.issue.2).Sound)
    (hstopped : (s.park id i).isRunning i.bus = false) : s.StepsTo id i ((s.park id i).interrupt id i) := by
  obtain ⟨s₁, heffects, hi₁, hparks, hkept⟩ := parks hi hsound
  obtain ⟨hbuses, hi₂⟩ := park_frame s id i
  have haside := aside_leaveCall (s.park id i) i
  have hleave : Effects (s.park id i) (((s.park id i).leaveCall i).abandonWait id i) :=
    haside.effects.trans (effects_abandonWait _ id i)
  have hi₃ : (((s.park id i).leaveCall i).abandonWait id i).invocations.get? id = some (i.park s.issue.2) := by
    rw [(abandonWait_frame ((s.park id i).leaveCall i) id i).2, haside.invocations, hi₂]
  have hrunning : s.isRunning i.bus = false := (isRunning_congr hbuses).symm.trans hstopped
  simp only [interrupt]
  rw [← finish_congr (i.publication_park s.issue.2)]
  exact .interrupted hrunning heffects hi₁ hparks hkept hleave hi₃ (i.continues_park _)

end Parking

theorem StepsTo.extends (hs : s.Proper) (h : s.StepsTo id i s') : s.Extends (· = i.context) s' := by
  cases h with
  | wentOn hacts hi₁ hp _ => exact (Extends.acts hs hacts).trans (.progress (hs.acts hacts) hi₁ hp)
  | ended _ _ heffects hi₁ =>
    exact (Extends.effects heffects).trans (.progress (hs.effects heffects) hi₁ (.finished hi₁ _))
  | interrupted _ heffects hi₁ hp _ hleave hi₃ hsame =>
    have hs₁ := hs.effects heffects
    have hs₂ := hs₁.progress hp
    have hleft := (Extends.effects heffects).trans (.progress hs₁ hi₁ hp)
    have hended := Extends.progress (hs₂.effects hleave) hi₃ (.finished hi₃ (.lost false))
    rw [hsame.context] at hended
    exact (hleft.trans (.effects hleave)).trans hended

/-- The ways in which an invocation takes a step: its listener is called, it does what comes next, or it can do
neither and parks, which is its end if the bus has no workers. -/
inductive Takes (s : Session) (id : Nat) (i : Invocation) : Session → Prop
  | called (hrest : i.rest? = none) (hturn : i.bypasses || s.turnIsFree i) : s.Takes id i (s.call id i)
  | advanced {p : Behaviour} {s' : Session} (hrest : i.rest? = some p) (h : s.advance id i p = some s') :
    s.Takes id i s'
  | parked (hblocked : s.proceed id i = none) (hparked : i.parked = false)
    (hrunning : (s.park id i).isRunning i.bus) : s.Takes id i (s.park id i)
  | interrupted (hblocked : s.proceed id i = none) (hparked : i.parked = false)
    (hstopped : (s.park id i).isRunning i.bus = false) : s.Takes id i ((s.park id i).interrupt id i)

theorem takes_of_step (h : s.step id = some s') : ∃ i, s.invocations.get? id = some i ∧ s.Takes id i s' := by
  simp only [step] at h
  cases hi : s.invocations.get? id with
  | none => simp [hi] at h
  | some i =>
    refine ⟨i, rfl, ?_⟩
    simp only [hi] at h
    cases hp : s.proceed id i with
    | some after =>
      obtain rfl : after = s' := by simpa [hp] using h
      cases hrest : i.rest? with
      | none =>
        simp only [proceed, hrest] at hp
        split at hp
        · obtain rfl := Option.some.inj hp
          exact .called hrest ‹_›
        · cases hp
      | some p => exact .advanced hrest (by simpa only [proceed, hrest] using hp)
    | none =>
      simp only [hp] at h
      split at h
      · cases h
      · have hparked : i.parked = false := Bool.eq_false_iff.2 ‹_›
        obtain rfl := Option.some.inj h
        split
        · exact .parked hp hparked ‹_›
        · exact .interrupted hp hparked (Bool.eq_false_iff.2 ‹_›)

/-- All that a step can come to. -/
theorem stepsTo_of_step (hs : s.Proper) (h : s.step id = some s') :
    ∃ i, s.invocations.get? id = some i ∧ s.StepsTo id i s' := by
  obtain ⟨i, hi, htakes⟩ := takes_of_step h
  refine ⟨i, hi, ?_⟩
  cases htakes with
  | called hrest hturn => exact stepsTo_call hi hrest hturn (by simp only [proceed, hrest, hturn, if_true])
  | advanced hrest h => exact stepsTo_advance hs hi hrest h
  | parked hblocked hparked =>
    obtain ⟨s₁, heffects, hi₁, hparks, -⟩ := parks hi (sound_park hs hi hblocked hparked s.issue.2)
    exact .wentOn (.calmly heffects) hi₁ hparks (park_frame s id i).2
  | interrupted hblocked hparked hstopped =>
    exact stepsTo_interrupt hi (sound_park hs hi hblocked hparked s.issue.2) hstopped

end Session
end PubSub
