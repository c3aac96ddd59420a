import PubSub.Proofs.Logging.Steps
import PubSub.Proofs.Session.Reported
import PubSub.Proofs.Session.Schedules

/-!
# Runs under the switch

The switch changes nothing but the notices that are not grave, and what is read from a configuration. Two runs of one
program under one schedule, the one with the switch on and the other with it off on every bus, go the same way.
-/

namespace PubSub

namespace Action

def logging (on : Bool) : Action → Action
  | perform command => perform (command.logging on)
  | a => a

def isPrintable : Action → Bool
  | perform command => command.isPrintable
  | publish p => !p.recipe.unprintable
  | watch _ | take _ | step _ => true

end Action

namespace Session

variable {s s' : Session}

theorem Twin.act (h : s.Twin s') {action : Action} (hprintable : action.isPrintable) :
    Option.Rel (TwinUpTo Answer.plain) (s.act (action.logging true)) (s'.act (action.logging false)) := by
  cases action with
  | perform command => exact .some (h.perform .outermost (show command.isPrintable from hprintable))
  | publish p =>
    have hpublished := h.publish .outermost
      (show p.recipe.unprintable = false by simpa [Action.isPrintable] using hprintable)
    simp only [Action.logging, Session.act]
    generalize s.publish .outermost p = published at hpublished
    generalize s'.publish .outermost p = published' at hpublished
    cases hpublished with
    | none => exact .some ⟨h, rfl⟩
    | @some x x' hx =>
      obtain ⟨t, result⟩ := x
      obtain ⟨t', result'⟩ := x'
      obtain ⟨ht, rfl⟩ := hx
      cases result with
      | error c => exact .some ⟨ht, rfl⟩
      | ok publication => exact .some ⟨ht, rfl⟩
  | watch publication => exact .some ⟨h.watch publication, rfl⟩
  | take name => exact .some ⟨h.erase_pending name, rfl⟩
  | step id =>
    have hstep := h.step id
    simp only [Action.logging, Session.act]
    generalize s.step id = after at hstep
    generalize s'.step id = after' at hstep
    cases hstep with
    | none => exact .none
    | some hafter => exact .some ⟨hafter, rfl⟩

theorem Twin.replay (h : s.Twin s') {actions : List Action} (hprintable : ∀ a ∈ actions, a.isPrintable) :
    Option.Rel (TwinUpTo (List.map Answer.plain)) (s.replay (actions.map (Action.logging true)))
      (s'.replay (actions.map (Action.logging false))) := by
  induction actions generalizing s s' with
  | nil => exact .some ⟨h, rfl⟩
  | cons action rest ih =>
    obtain ⟨hfirst, hrest⟩ := List.forall_mem_cons.1 hprintable
    have hact := h.act hfirst
    simp only [List.map_cons, Session.replay]
    generalize s.act (action.logging true) = taken at hact
    generalize s'.act (action.logging false) = taken' at hact
    cases hact with
    | none => exact .none
    | @some x x' hx =>
      obtain ⟨t, answer⟩ := x
      obtain ⟨t', answer'⟩ := x'
      obtain ⟨ht, hanswer⟩ := hx
      have hreplayed := ih ht hrest
      dsimp only
      generalize t.replay (rest.map (Action.logging true)) = replayed at hreplayed
      generalize t'.replay (rest.map (Action.logging false)) = replayed' at hreplayed
      cases hreplayed with
      | none => exact .none
      | some hy =>
        refine .some ⟨hy.1, ?_⟩
        simp only [List.map_cons, hy.2]
        rw [show answer.plain = answer'.plain from hanswer]

theorem Reports.act (h : s.Reports) (hs : s.Proper) {action : Action} {answer : Answer}
    (hact : s.act action = some (s', answer)) : s'.Reports := by
  cases action with
  | perform command =>
    obtain ⟨rfl, -⟩ := Prod.mk.inj (Option.some.inj hact)
    exact h.perform .outermost command
  | publish p =>
    simp only [Session.act] at hact
    split at hact
    · obtain ⟨rfl, -⟩ := Prod.mk.inj (Option.some.inj hact)
      exact h
    · obtain ⟨rfl, -⟩ := Prod.mk.inj (Option.some.inj hact)
      exact h.publish .outermost ‹_›
    · obtain ⟨rfl, -⟩ := Prod.mk.inj (Option.some.inj hact)
      exact h.publish .outermost ‹_›
  | watch publication =>
    obtain ⟨rfl, -⟩ := Prod.mk.inj (Option.some.inj hact)
    exact h.watch publication
  | take name =>
    obtain ⟨rfl, -⟩ := Prod.mk.inj (Option.some.inj hact)
    exact h.of_same rfl (Nat.le_refl _) rfl rfl
  | step id =>
    obtain ⟨s₁, hs₁, hsame⟩ := Option.map_eq_some_iff.1 hact
    obtain ⟨rfl, -⟩ := Prod.mk.inj hsame
    exact h.step hs hs₁

theorem Reports.replay (h : s.Reports) (hs : s.Reachable) {actions : List Action} {answers : List Answer}
    (hreplay : s.replay actions = some (s', answers)) : s'.Reports := by
  induction actions generalizing s answers with
  | nil =>
    obtain ⟨rfl, -⟩ := Prod.mk.inj (Option.some.inj hreplay)
    exact h
  | cons action rest ih =>
    simp only [Session.replay] at hreplay
    split at hreplay
    · cases hreplay
    · rename_i s₁ answer hact
      obtain ⟨x, hx, hsame⟩ := Option.map_eq_some_iff.1 hreplay
      obtain ⟨rfl, -⟩ := Prod.mk.inj hsame
      have hs₁ : s₁.Reachable := by
        obtain ⟨tracing, htransitions⟩ := hs
        rcases transition_of_act hact with rfl | hnext
        · exact ⟨tracing, htransitions⟩
        · exact ⟨tracing, htransitions.tail hnext⟩
      exact ih (h.act hs.proper hact) hs₁ hx

/-- The switch is set on every bus of a program, on in one run and off in the other, and every event that is published
can be rendered. Under one schedule, that is with one list of actions in which the steps of invocations come in any
order, both runs are possible or neither is. Then the answers are the same, up to what configurations say about the
switch, and the sessions are twins: they have the same invocations, publications, outcomes and log, the same numbers of
everything, and the same warnings and errors. Among these, each listener that fails is reported by one notice, whether or
not its publication is awaited. Under the schedule of programs, the reports of both runs are the same, up to
configurations and lines that are neither warnings nor errors. -/
theorem logging_changes_no_behaviour (tracing : Bool) (schedule : List Action)
    (hschedule : ∀ a ∈ schedule, a.isPrintable) (steps : List Step) (hsteps : ∀ step ∈ steps, step.isPrintable) :
    Option.Rel (TwinUpTo (List.map Answer.plain)) ((start tracing).replay (schedule.map (Action.logging true)))
      ((start tracing).replay (schedule.map (Action.logging false))) ∧
    (∀ on s answers, (start true).replay (schedule.map (Action.logging on)) = some (s, answers) →
      s.reported.Perm s.failures ∧ ∀ id p, s.publications.get? id = some p → p.IsRecorded) ∧
    (Program.run tracing (steps.map (Step.logging true))).map Report.plain =
      (Program.run tracing (steps.map (Step.logging false))).map Report.plain := by
  refine ⟨(twin_start tracing).replay hschedule, fun on s answers h => ⟨?_, ?_⟩, (twin_start tracing).run hsteps⟩
  · exact (reports_start.replay ⟨true, .refl⟩ h).reported
  · have htwins := (twin_start true).replay hschedule
    cases on with
    | true =>
      rw [h] at htwins
      generalize (start true).replay (schedule.map (Action.logging false)) = replayed at htwins
      cases htwins with
      | some htwins => exact fun id p hp => (htwins.1.recorded id p hp).isRecorded
    | false =>
      rw [h] at htwins
      generalize (start true).replay (schedule.map (Action.logging true)) = replayed at htwins
      cases htwins with
      | some htwins =>
        have hpublications := htwins.1.publications
        intro id p hp
        exact (htwins.1.recorded id p (hpublications ▸ hp)).isRecorded

/-- A listener that looks at the configuration of its bus and fails. -/
private def failing : List Command :=
  [.openBus "bus" .default [],
    .object "target" "Target" true (.leaf ⟨[.config "bus"], none, .finish (.fail "boom")⟩) [],
    .subscribe "bus" "target" (.shared (.simple 0)) none]

private def failingPublish : Publish :=
  ⟨"bus", .held, ⟨.simple 0, 7, "", false⟩⟩

/-- Nobody awaits the publish. -/
private def unawaited : List Action :=
  failing.map .perform ++ [.publish failingPublish, .step 5, .step 5, .step 5, .step 5]

private def awaited : List Step :=
  failing.map .perform ++ [.publish failingPublish]

theorem failure_is_reported_without_logging :
    (∃ s s' answers answers', (start true).replay (unawaited.map (Action.logging true)) = some (s, answers) ∧
      (start true).replay (unawaited.map (Action.logging false)) = some (s', answers') ∧ s.Twin s' ∧
      s.notices.map Notice.level = [.info, .debug, .debug, .error] ∧ s'.notices.map Notice.level = [.error] ∧
      s'.reported.Perm s'.failures ∧ s'.failures.length = 1) ∧
    (Program.run true (awaited.map (Step.logging true))).map (·.lines.length) = [1, 0, 1, 2] ∧
    (Program.run true (awaited.map (Step.logging false))).map (·.lines.length) = [0, 0, 0, 1] ∧
    (Program.run true (awaited.map (Step.logging true))).map Report.plain =
      (Program.run true (awaited.map (Step.logging false))).map Report.plain := by
  obtain ⟨htwins, hreported, hreports⟩ :=
    logging_changes_no_behaviour true unawaited (by decide) awaited (by decide)
  have hon : ((start true).replay (unawaited.map (Action.logging true))).map (·.1.notices.map Notice.level) =
    some [.info, .debug, .debug, .error] := by decide +kernel
  have hoff : ((start true).replay (unawaited.map (Action.logging false))).map
    (fun x => (x.1.notices.map Notice.level, x.1.failures.length)) = some ([.error], 1) := by decide +kernel
  obtain ⟨⟨s, answers⟩, hs, hlevels⟩ := Option.map_eq_some_iff.1 hon
  obtain ⟨⟨s', answers'⟩, hs', hoff⟩ := Option.map_eq_some_iff.1 hoff
  obtain ⟨hlevels', hfailures⟩ := Prod.mk.inj hoff
  refine ⟨⟨s, s', answers, answers', hs, hs', ?_, hlevels, hlevels', ?_, hfailures⟩, by decide +kernel,
    by decide +kernel, hreports⟩
  · rw [hs, hs'] at htwins
    cases htwins with
    | some htwins => exact htwins.1
  · exact (hreported false s' answers' hs').1

end Session
end PubSub
