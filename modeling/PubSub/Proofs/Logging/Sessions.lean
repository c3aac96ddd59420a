import PubSub.Proofs.Logging.Buses
import PubSub.Proofs.Outcomes

/-!
# Sessions under the switch

Two sessions that were led by the same hand, one with the switch on and one with it off, have the same invocations,
publications and grave notices. Whatever ends an invocation, or makes a publish, does the same to both.
-/

namespace PubSub

inductive Stage.Twin : Stage → Stage → Prop
  | fresh : Twin .fresh .fresh
  | queued (ticket : Nat) : Twin (.queued ticket) (.queued ticket)
  | calling {p p' : Behaviour} (h : p.Twin p') : Twin (.calling p) (.calling p')
  | deferring {p p' : Behaviour} (h : p.Twin p') : Twin (.deferring p) (.deferring p')

inductive Invocation.Twin : Invocation → Invocation → Prop
  | mk (publication bus : Nat) {u u' : Subscription} (hu : u.Twin u') (address : Nat) (view : Option View)
      {event : Event} (hevent : event.Printable) (origin : Context) {stage stage' : Stage} (hstage : stage.Twin stage')
      (parked : Bool) :
    Twin ⟨publication, bus, u, address, view, event, origin, stage, parked⟩
      ⟨publication, bus, u', address, view, event, origin, stage', parked⟩

/-- In every role it does the same. -/
def Role.TwinWork (work work' : Role → Listener) : Prop :=
  ∀ role depth sight, sight.Printable → (work role depth sight).Twin (work' role depth sight)

inductive Handler.Twin : Handler → Handler → Prop
  | mk (name : String) (type : Name) (kind : MethodKind) {work work' : Role → Listener}
      (hwork : Role.TwinWork work work') : Twin ⟨name, type, kind, work⟩ ⟨name, type, kind, work'⟩

inductive Object.Twin : Object → Object → Prop
  | mk (identity : Nat) (name label : String) (threadSafe : Bool) {work work' : Role → Listener}
      (hwork : Role.TwinWork work work') {methods methods' : List Handler}
      (hmethods : List.Forall₂ Handler.Twin methods methods') :
    Twin ⟨identity, name, label, threadSafe, work, methods⟩ ⟨identity, name, label, threadSafe, work', methods'⟩

def Owner.plain (o : Owner) : Owner :=
  { o with config := o.config.plain }

theorem Invocation.isPrintable_fault (i : Invocation) {fault : Fault} (h : fault.isPrintable) :
    (i.fault fault).isPrintable := by
  unfold Invocation.fault
  split <;> exact h

namespace Invocation.Twin

variable {i i' : Invocation}

theorem publication (h : i.Twin i') : i.publication = i'.publication := by
  cases h
  rfl

theorem bus (h : i.Twin i') : i.bus = i'.bus := by
  cases h
  rfl

theorem object (h : i.Twin i') : i.subscription.callback.object = i'.subscription.callback.object := by
  obtain ⟨_, _, ⟨_, _, ⟨⟩⟩⟩ := h
  rfl

theorem caller (h : i.Twin i') : i.caller = i'.caller := by
  obtain ⟨_, _, ⟨⟩⟩ := h
  rfl

theorem context (h : i.Twin i') : i.context = i'.context := by
  obtain ⟨_, _, ⟨⟩⟩ := h
  rfl

theorem bypasses (h : i.Twin i') : i.bypasses = i'.bypasses := by
  obtain ⟨_, _, ⟨_, _, ⟨⟩⟩⟩ := h
  rfl

theorem isCalling (h : i.Twin i') : i.isCalling = i'.isCalling := by
  obtain ⟨_, _, _, _, _, _, _, hstage, _⟩ := h
  cases hstage <;> rfl

theorem isIdle (h : i.Twin i') : i.isIdle = i'.isIdle := by
  obtain ⟨_, _, _, _, _, _, _, hstage, _⟩ := h
  cases hstage <;> rfl

theorem holdsTurn (h : i.Twin i') : i.holdsTurn = i'.holdsTurn := by
  rw [Invocation.holdsTurn, Invocation.holdsTurn, h.isCalling, h.bypasses]

theorem isAheadOf (h : i.Twin i') {j j' : Invocation} (hj : j.Twin j') : i.isAheadOf j = i'.isAheadOf j' := by
  obtain ⟨_, _, _, _, _, _, _, hstage, _⟩ := h
  obtain ⟨_, _, _, _, _, _, _, hstage', _⟩ := hj
  cases hstage <;> cases hstage' <;> rfl

theorem rest? (h : i.Twin i') : Option.Rel Behaviour.Twin i.rest? i'.rest? := by
  obtain ⟨_, _, _, _, _, _, _, hstage, _⟩ := h
  cases hstage with
  | fresh => exact .none
  | queued => exact .none
  | calling h => exact .some h
  | deferring h => exact .some h

theorem goOn (h : i.Twin i') {p p' : Behaviour} (hp : p.Twin p') : (i.goOn p).Twin (i'.goOn p') := by
  obtain ⟨_, _, hu, _, _, hevent, _, hstage, _⟩ := h
  cases hstage with
  | deferring => exact .mk _ _ hu _ _ hevent _ (.deferring hp) false
  | _ => exact .mk _ _ hu _ _ hevent _ (.calling hp) false

theorem defers (h : i.Twin i') {p p' : Behaviour} (hp : p.Twin p') :
    Twin { i with stage := .deferring p, parked := false } { i' with stage := .deferring p', parked := false } := by
  obtain ⟨_, _, hu, _, _, hevent, _, hstage, _⟩ := h
  exact .mk _ _ hu _ _ hevent _ (.deferring hp) false

theorem park (h : i.Twin i') (ticket : Nat) : (i.park ticket).Twin (i'.park ticket) := by
  obtain ⟨_, _, hu, _, _, hevent, _, hstage, _⟩ := h
  cases hstage with
  | fresh => exact .mk _ _ hu _ _ hevent _ (.queued ticket) true
  | queued t => exact .mk _ _ hu _ _ hevent _ (.queued t) true
  | calling hp => exact .mk _ _ hu _ _ hevent _ (.calling hp) true
  | deferring hp => exact .mk _ _ hu _ _ hevent _ (.deferring hp) true

theorem fault (h : i.Twin i') (fault : Fault) : i.fault fault = i'.fault fault := by
  obtain ⟨_, _, _, _, _, _, _, hstage, _⟩ := h
  cases hstage <;> rfl

theorem failure (h : i.Twin i') (tracing : Bool) {cause : ListenerError} (hcause : cause.isPrintable) :
    ∃ failure, i.failure tracing cause = .ok failure ∧ i'.failure tracing cause = .ok failure ∧
      failure.isPrintable := by
  obtain ⟨_, _, ⟨_, _, ⟨⟩⟩, _, _, hevent, _, _, _⟩ := h
  obtain ⟨text, htext⟩ := hevent.debug
  simp only [Invocation.failure, htext, hcause, Bool.not_true, Bool.and_false]
  exact ⟨_, rfl, rfl, by simpa [ListenerFailure.isPrintable] using hcause⟩

theorem lens (h : i.Twin i') : i.subscription.callback.lens = i'.subscription.callback.lens := by
  obtain ⟨_, _, ⟨_, _, ⟨⟩⟩⟩ := h
  rfl

theorem sight (h : i.Twin i') : i.subscription.callback.lens.extract i.view i.event =
    i'.subscription.callback.lens.extract i'.view i'.event := by
  obtain ⟨_, _, ⟨_, _, ⟨⟩⟩⟩ := h
  rfl

theorem listener (h : i.Twin i') {sight : Sight}
    (hsight : i.subscription.callback.lens.extract i.view i.event = .ok (some sight)) :
    (i.subscription.callback.listener i.context.depth sight).Twin
      (i'.subscription.callback.listener i'.context.depth sight) := by
  obtain ⟨_, _, ⟨_, _, ⟨_, _, _, _, _, _, hlistener⟩⟩, _, _, hevent, _, _, _⟩ := h
  exact hlistener _ sight (Lens.printable_extract hevent hsight)

end Invocation.Twin

/-- No invocation of it crashed while its failure was to be recorded. -/
def Publication.IsRecorded (p : Publication) : Prop :=
  ∀ o ∈ p.outcomes, o.hasCrashed = false

/-- Nothing crashed, and what failed can be printed. -/
def Outcome.isPrintable : Outcome → Bool
  | .replied _ => true
  | .failed failure => failure.isPrintable
  | .lost crashed => !crashed

theorem Delivery.isPrintable_of_join {outcomes : List Outcome} (h : ∀ o ∈ outcomes, o.isPrintable) {e : PublishError}
    (he : Delivery.join outcomes = .error e) : e.isPrintable := by
  unfold Delivery.join at he
  split at he
  · rename_i first rest hfailures
    cases he
    obtain ⟨o, ho, hfirst⟩ := List.mem_filterMap.1 (hfailures ▸ List.mem_cons_self : first ∈ _)
    cases o <;> cases hfirst
    exact h _ ho
  · by_cases hlost : 0 < outcomes.countP Outcome.isLost
    · rw [if_pos hlost] at he
      cases he
      rfl
    · rw [if_neg hlost] at he
      cases he

namespace Publication

structure IsPrintable (p : Publication) : Prop where
  refusal : ∀ e ∈ p.refusal, e.isPrintable
  outcomes : ∀ o ∈ p.outcomes, o.isPrintable

variable {p : Publication} (h : p.IsPrintable)
include h

theorem IsPrintable.isRecorded : p.IsRecorded := by
  intro o ho
  have hprintable := h.outcomes o ho
  cases o with
  | lost crashed => exact (Bool.not_eq_true' crashed).mp hprintable
  | _ => rfl

theorem IsPrintable.add (id : Nat) {o : Outcome} (ho : o.isPrintable) : (p.add id o).IsPrintable := by
  refine ⟨h.refusal, fun o' ho' => ?_⟩
  rw [outcomes_add] at ho'
  rcases List.mem_append.1 ho' with ho' | ho'
  · exact h.outcomes o' ho'
  · obtain rfl := List.mem_singleton.1 ho'
    exact ho

theorem IsPrintable.await : p.await.IsPrintable :=
  ⟨h.refusal, h.outcomes⟩

theorem IsPrintable.leave : p.leave.IsPrintable :=
  ⟨h.refusal, h.outcomes⟩

theorem IsPrintable.error {e : PublishError} (he : p.result? = some (.error e)) : e.isPrintable := by
  unfold result? at he
  split at he
  · rename_i refusal hrefusal
    cases he
    exact h.refusal _ hrefusal
  · split at he
    · cases he
    · have hobserved : ∀ o ∈ p.observed, o.isPrintable := fun o ho => h.outcomes o (p.observed_perm.mem_iff.1 ho)
      exact Delivery.isPrintable_of_join hobserved (Option.some.inj he)

end Publication

/-- What the switch may change in a session: what configurations say about it, and the notices that are not grave. All
else is the same, and listeners go on in the same way. -/
structure Session.Twin (s s' : Session) : Prop where
  hierarchy : s.hierarchy = s'.hierarchy
  tracing : s.tracing = s'.tracing
  issued : s.issued = s'.issued
  buses : s.buses.Related Bus.Twin s'.buses
  invocations : s.invocations.Related Invocation.Twin s'.invocations
  publications : s.publications = s'.publications
  addresses : s.addresses = s'.addresses
  allocator : s.allocator = s'.allocator
  activities : s.activities = s'.activities
  gates : s.gates = s'.gates
  holds : s.holds = s'.holds
  objects : s.objects.Related Object.Twin s'.objects
  handles : s.handles = s'.handles
  pending : s.pending = s'.pending
  owners : s.owners.Related (fun o o' => o.plain = o'.plain) s'.owners
  forwarded : s.forwarded = s'.forwarded
  log : s.log.map LogEntry.plain = s'.log.map LogEntry.plain
  notices : s.notices.filter Notice.isGrave = s'.notices.filter Notice.isGrave
  /-- No failure is lost, as all events can be rendered and all causes printed. -/
  recorded : ∀ id p, s.publications.get? id = some p → p.IsPrintable

namespace Session

/-- Twins with the same result. -/
def TwinResult {α : Type} (x x' : Session × α) : Prop :=
  x.1.Twin x'.1 ∧ x.2 = x'.2

/-- Twins with results in which `f` sees no difference. -/
def TwinUpTo {α β : Type} (f : α → β) (x x' : Session × α) : Prop :=
  x.1.Twin x'.1 ∧ f x.2 = f x'.2

theorem twin_start (tracing : Bool) : (start tracing).Twin (start tracing) where
  hierarchy := rfl
  tracing := rfl
  issued := rfl
  buses := Table.related_empty _
  invocations := Table.related_empty _
  publications := rfl
  addresses := rfl
  allocator := rfl
  activities := rfl
  gates := rfl
  holds := rfl
  objects := Table.related_empty _
  handles := rfl
  pending := rfl
  owners := Table.related_empty _
  forwarded := rfl
  log := rfl
  notices := rfl
  recorded _ _ h := by cases h

namespace Twin

variable {s s' : Session} (h : s.Twin s')
include h

section State

theorem issue : TwinResult s.issue s'.issue :=
  ⟨{ h with issued := congrArg (· + 1) h.issued }, congrArg (· + 1) h.issued⟩

theorem putBus {b b' : Bus} (hb : b.Twin b') : (s.putBus b).Twin (s'.putBus b') :=
  { h with
    buses := by
      simp only [Session.putBus, hb.id]
      exact h.buses.put _ hb }

theorem putInvocation (id : Nat) {i i' : Invocation} (hi : i.Twin i') :
    (s.putInvocation id i).Twin (s'.putInvocation id i') :=
  { h with invocations := h.invocations.put id hi }

theorem putPublication (id : Nat) {p : Publication} (hp : p.IsPrintable) :
    (s.putPublication id p).Twin (s'.putPublication id p) :=
  { h with
    publications := congrArg (fun t : Table Nat Publication => t.put id p) h.publications
    recorded q p' hq := by
      simp only [Session.putPublication, Table.get?_put] at hq
      split at hq
      · obtain rfl := Option.some.inj hq
        exact hp
      · exact h.recorded q p' hq }

theorem holdsOn (c : Caller) : s.holdsOn c = s'.holdsOn c := by
  have hrows : (s.buses.get? c.bus).any (fun b => b.registry.rows.values.any (·.any (·.id = c.subscription))) =
      (s'.buses.get? c.bus).any (fun b => b.registry.rows.values.any (·.any (·.id = c.subscription))) := by
    have hget := h.buses.get? c.bus
    generalize s.buses.get? c.bus = found at hget
    generalize s'.buses.get? c.bus = found' at hget
    cases hget with
    | none => rfl
    | some hb =>
      refine any_eq_of_forall₂ hb.registry.rows.values fun row row' hrow => ?_
      exact any_eq_of_forall₂ hrow fun u u' hu => by rw [hu.id]
  have hinvocations : s.invocations.values.any (·.caller = c) = s'.invocations.values.any (·.caller = c) :=
    any_eq_of_forall₂ h.invocations.values fun i i' hi => by rw [hi.caller]
  rw [Session.holdsOn, Session.holdsOn, hrows, hinvocations]

theorem address (c : Caller) : s.address c = s'.address c := by
  rw [Session.address, Session.address, h.addresses]

theorem place (c : Caller) : (s.place c).Twin (s'.place c) := by
  have hused : s.used = s'.used := by
    simp only [Session.used, h.addresses, h.holdsOn]
  simp only [Session.place, h.addresses]
  split
  · exact h
  · exact { h with addresses := by simp only [h.allocator, hused] }

omit h in
theorem placeAll (h : s.Twin s') (bus : Nat) (entries : List (Key × Nat)) :
    (s.placeAll bus entries).Twin (s'.placeAll bus entries) := by
  induction entries generalizing s s' with
  | nil => exact h
  | cons e rest ih => exact ih (h.place _)

theorem isRunning (bus : Nat) : s.isRunning bus = s'.isRunning bus := by
  have hget := h.buses.get? bus
  simp only [Session.isRunning]
  generalize s.buses.get? bus = found at hget
  generalize s'.buses.get? bus = found' at hget
  cases hget with
  | none => rfl
  | some hb => exact hb.isOpen

theorem isKept (bus : Nat) : s.isKept bus = s'.isKept bus := by
  have howners : s.owners.values.any (·.bus = some bus) = s'.owners.values.any (·.bus = some bus) :=
    any_eq_of_forall₂ h.owners.values fun o o' ho => by
      have hbus : o.plain.bus = o'.plain.bus := congrArg Owner.bus ho
      exact congrArg (fun id => decide (id = some bus)) hbus
  rw [Session.isKept, Session.isKept, h.holds, howners]

theorem bus? (name : String) : Option.Rel Bus.Twin (s.bus? name) (s'.bus? name) := by
  unfold Session.bus?
  rw [h.holds]
  cases s'.holds.get? name with
  | none => exact .none
  | some hold =>
    show Option.Rel _ (if s.isKept hold.bus then _ else _) (if s'.isKept hold.bus then _ else _)
    rw [h.isKept]
    split
    · exact h.buses.get? hold.bus
    · exact .none

theorem gate (name : String) : s.gate name = s'.gate name := by
  rw [Session.gate, Session.gate, h.gates]

theorem changeGate (name : String) (f : Gate → Gate) : (s.changeGate name f).Twin (s'.changeGate name f) :=
  { h with
    gates := by
      simp only [Session.changeGate, h.gates, h.gate] }

theorem activity (object : Nat) : s.activity object = s'.activity object := by
  rw [Session.activity, Session.activity, h.activities]

theorem changeActivity (object : Nat) (f : Activity → Activity) :
    (s.changeActivity object f).Twin (s'.changeActivity object f) :=
  { h with
    activities := by
      simp only [Session.changeActivity, h.activities, h.activity] }

theorem report {ns ns' : List Notice} (hns : ns.filter Notice.isGrave = ns'.filter Notice.isGrave) :
    (s.report ns).Twin (s'.report ns') := by
  unfold Session.report
  by_cases ht : s.tracing
  · rw [if_pos ht, if_pos (h.tracing ▸ ht)]
    exact { h with notices := by simp only [List.filter_append, h.notices, hns] }
  · rw [if_neg ht, if_neg (h.tracing ▸ ht)]
    exact h

/-- What a bus reports only with the switch on is not grave. -/
theorem report_optional (b b' : Bus) {ns : List Notice} (hns : ∀ n ∈ ns, n.isGrave = false) :
    (s.report (b.optional ns)).Twin (s'.report (b'.optional ns)) := by
  have hminor (b : Bus) : (b.optional ns).filter Notice.isGrave = [] := by
    simp only [Bus.optional]
    split
    · exact List.filter_eq_nil_iff.2 fun n hn => by simp [hns n hn]
    · rfl
  exact h.report ((hminor b).trans (hminor b').symm)

end State

section Ending

theorem watch (publication : Nat) : (s.watch publication).Twin (s'.watch publication) := by
  simp only [Session.watch, ← h.publications]
  split
  · exact h
  · rename_i p hp
    split
    · exact h
    · exact (h.putPublication publication (h.recorded publication p hp).await).report rfl

theorem unwatch (publication : Nat) : (s.unwatch publication).Twin (s'.unwatch publication) := by
  simp only [Session.unwatch, ← h.publications]
  split
  · exact h
  · rename_i p hp
    exact h.putPublication publication (h.recorded publication p hp).leave

theorem finish (id : Nat) {i i' : Invocation} (hi : i.Twin i') {outcome : Outcome}
    (houtcome : outcome.isPrintable) : (s.finish id i outcome).Twin (s'.finish id i' outcome) := by
  have herased : Session.Twin { s with invocations := s.invocations.erase id }
      { s' with invocations := s'.invocations.erase id } :=
    { h with invocations := h.invocations.erase id }
  have hsame : s'.publications.get? i'.publication = s.publications.get? i.publication := by
    rw [h.publications, hi.publication]
  cases hp : s.publications.get? i.publication with
  | none =>
    simp only [Session.finish, hsame, hp]
    exact herased
  | some p =>
    simp only [Session.finish, hsame, hp]
    rw [hi.publication]
    exact (herased.putPublication _ ((h.recorded _ p hp).add id houtcome)).report rfl

theorem conclude (id : Nat) {i i' : Invocation} (hi : i.Twin i') {result : Except ListenerError (Option Value)}
    (hresult : ∀ cause, result = .error cause → cause.isPrintable) :
    (s.conclude id i result).Twin (s'.conclude id i' result) := by
  cases result with
  | ok value => exact h.finish id hi rfl
  | error cause =>
    obtain ⟨failure, hfailure, hfailure', hprintable⟩ := hi.failure s'.tracing (hresult cause rfl)
    simp only [Session.conclude, h.tracing, hfailure, hfailure']
    exact (h.report rfl).finish id hi hprintable

theorem leaveCall {i i' : Invocation} (hi : i.Twin i') : (s.leaveCall i).Twin (s'.leaveCall i') := by
  simp only [Session.leaveCall, hi.isCalling, hi.object]
  split
  · exact h.changeActivity ..
  · exact h

theorem abandonWait (id : Nat) {i i' : Invocation} (hi : i.Twin i') :
    (s.abandonWait id i).Twin (s'.abandonWait id i') := by
  have hrest := hi.rest?
  unfold Session.abandonWait
  generalize i.rest? = p at hrest
  generalize i'.rest? = p' at hrest
  cases hrest with
  | none => exact h
  | some hp =>
    cases hp with
    | await publication _ => exact h.unwatch publication
    | pass gate _ => exact h.changeGate gate _
    | _ => exact h

theorem interrupt (id : Nat) {i i' : Invocation} (hi : i.Twin i') :
    (s.interrupt id i).Twin (s'.interrupt id i') :=
  ((h.leaveCall hi).abandonWait id hi).finish id hi rfl

theorem stopWorkers (bus : Nat) : (s.stopWorkers bus).Twin (s'.stopWorkers bus) := by
  refine rel_foldl h.invocations h ?_
  intro s s' h e e' he
  obtain ⟨id, i⟩ := e
  obtain ⟨id', i'⟩ := e'
  obtain ⟨rfl, hi⟩ := he
  have hstops : (i.bus = bus && i.isIdle) = (i'.bus = bus && i'.isIdle) := by
    rw [hi.bus, hi.isIdle]
  simp only [hstops]
  split
  · exact h.interrupt id hi
  · exact h

theorem stop {b b' : Bus} (hb : b.Twin b') :
    ((s.putBus b.close).stopWorkers b.id).Twin ((s'.putBus b'.close).stopWorkers b'.id) := by
  rw [hb.id]
  exact (h.putBus hb.close).stopWorkers _

theorem closeBus {b b' : Bus} (hb : b.Twin b') : (s.closeBus b).Twin (s'.closeBus b') := by
  simp only [Session.closeBus, hb.isOpen]
  split
  · exact (h.stop hb).report_optional b b' (List.forall_mem_singleton.2 rfl)
  · exact h

theorem dropUnkept : s.dropUnkept.Twin s'.dropUnkept := by
  refine rel_foldl h.buses.values h ?_
  intro s s' h b b' hb
  have hgoes : (b.isOpen && !s.isKept b.id) = (b'.isOpen && !s'.isKept b'.id) := by
    rw [hb.isOpen, hb.id, h.isKept]
  simp only [hgoes]
  split
  · exact h.stop hb
  · exact h

end Ending

section Publishing

theorem refuse {error : PublishError} (herror : error.isPrintable) :
    TwinResult (s.refuse error) (s'.refuse error) := by
  obtain ⟨hissued, hid⟩ := h.issue
  simp only [Session.refuse]
  rw [hid]
  have hrefused : (Publication.refused error).IsPrintable :=
    ⟨by simpa [Publication.refused] using herror, by simp [Publication.outcomes, Publication.refused]⟩
  exact ⟨hissued.putPublication _ hrefused, rfl⟩

theorem invoke (ctx : Context) (bus publication : Nat) {event : Event} (hevent : event.Printable)
    {target target' : Subscription × Option View} (ht : Subscription.SeenTwin target target') :
    (Session.invoke ctx bus publication event s target).Twin
      (Session.invoke ctx bus publication event s' target') := by
  obtain ⟨hissued, hid⟩ := h.issue
  obtain ⟨u, view⟩ := target
  obtain ⟨u', view'⟩ := target'
  obtain ⟨hu, rfl⟩ := ht
  simp only [Session.invoke]
  rw [hid, hissued.address, hu.id]
  exact hissued.putInvocation _ (.mk publication bus hu _ view hevent ctx .fresh false)

theorem schedule (ctx : Context) {bus bus' : Nat} (hbus : bus = bus') {plan plan' : Plan} (hp : plan.Twin plan') :
    TwinResult (s.schedule ctx bus plan) (s'.schedule ctx bus' plan') := by
  subst hbus
  cases hp with
  | refused herror => exact h.refuse herror
  | @scheduled event hevent targets targets' ht =>
    obtain ⟨hissued, hid⟩ := h.issue
    simp only [Session.schedule]
    rw [hid, ht.length_eq]
    have hopened : (Publication.underWay targets'.length).IsPrintable :=
      ⟨by simp [Publication.underWay], by simp [Publication.outcomes, Publication.underWay]⟩
    refine ⟨rel_foldl ht (hissued.putPublication _ hopened) fun s s' h t t' htt => ?_, rfl⟩
    exact h.invoke ctx bus _ hevent htt

omit h in
private theorem announced {notice : Option Notice} (hline : ∀ n ∈ notice, n.HasLine) :
    notice.elim (.ok s) s.announce = .ok (s.report notice.toList) := by
  cases notice with
  | none =>
    simp only [Option.elim_none, Session.report, Option.toList_none, List.append_nil]
    split <;> rfl
  | some n =>
    obtain ⟨line, hn⟩ := hline n rfl
    simp only [Option.elim_some, Session.announce, Session.report, hn, Option.toList_some]
    split <;> rfl

theorem publishOn (ctx : Context) {b b' : Bus} (hb : b.Twin b') {event : Event} (hevent : event.Printable) :
    TwinResult (s.publishOn ctx b event) (s'.publishOn ctx b' event) := by
  have hpublish := hb.publish hevent s.hierarchy.declared ctx.depth
  unfold Session.publishOn
  rw [← h.hierarchy]
  generalize b.publish s.hierarchy.declared ctx.depth event = decided at hpublish
  generalize b'.publish s.hierarchy.declared ctx.depth event = decided' at hpublish
  cases hpublish with
  | error c => exact ⟨h, rfl⟩
  | @ok d d' hd =>
    have hlooked : Bus.Twin { b with matcher := d.matcher } { b' with matcher := d'.matcher } :=
      { hb with matcher := hd.matcher }
    have hput := h.putBus hlooked
    simp only [announced hd.rendered, announced hd.rendered']
    obtain ⟨hscheduled, hid⟩ := (hput.report hd.grave).schedule ctx hb.id hd.plan
    exact ⟨hscheduled, congrArg Except.ok hid⟩

theorem make (r : Recipe) : s.make r = s'.make r := by
  rw [Session.make, Session.make, h.hierarchy]

omit h in
theorem printable_make {r : Recipe} (hr : r.unprintable = false) : (s.make r).Printable := by
  rw [Session.make, Hierarchy.value, hr]
  exact Hierarchy.printable_embed ..

theorem publish (ctx : Context) {p : Publish} (hp : p.recipe.unprintable = false) :
    Option.Rel TwinResult (s.publish ctx p) (s'.publish ctx p) := by
  have hbus := h.bus? p.bus
  unfold Session.publish
  split
  · exact .none
  · rw [h.holds]
    generalize s.bus? p.bus = found at hbus
    generalize s'.bus? p.bus = found' at hbus
    cases hbus with
    | some hb =>
      rw [h.make]
      exact .some (h.publishOn ctx hb (printable_make hp))
    | none =>
      cases p.access with
      | held => exact .none
      | weak =>
        dsimp only
        split
        · exact .none
        · obtain ⟨hrefused, hid⟩ := h.refuse (rfl : PublishError.closed.isPrintable)
          exact .some ⟨hrefused, congrArg Except.ok hid⟩

theorem publishMessage (ctx : Context) (bus : String) {message : Message} (hm : message.Printable) :
    TwinResult (s.publishMessage ctx bus message) (s'.publishMessage ctx bus message) := by
  have hbus := h.bus? bus
  unfold Session.publishMessage
  generalize s.bus? bus = found at hbus
  generalize s'.bus? bus = found' at hbus
  cases hbus with
  | none =>
    cases message with
    | recipe r =>
      obtain ⟨hrefused, hid⟩ := h.refuse (rfl : PublishError.closed.isPrintable)
      exact ⟨hrefused, congrArg (Except.ok ∘ some) hid⟩
    | event e => exact ⟨h, rfl⟩
  | some hb =>
    cases message with
    | recipe r =>
      dsimp only
      rw [h.make]
      obtain ⟨hpublished, hresult⟩ := h.publishOn ctx hb (printable_make (s := s') hm)
      exact ⟨hpublished, congrArg (Except.map some) hresult⟩
    | event e =>
      obtain ⟨hpublished, hresult⟩ := h.publishOn ctx hb hm
      exact ⟨hpublished, congrArg (Except.map some) hresult⟩

end Publishing

end Twin
end Session
end PubSub
