import Mathlib.Data.Set.Defs
import PubSub.Proofs.Runs.Strides
import PubSub.Proofs.Session.Depth
import PubSub.Proofs.Session.ExactDelivery

/-!
# Loops

A listener that is alone on its bus, and replies to whatever it hears with a publish that it hears again. Each of these
has one invocation, until they are nested so deep that the bus refuses.
-/

namespace PubSub

/-- A listener that is alone on a bus with a limit, the names that stand for the bus, and what it hears and publishes
there. -/
structure Loop where
  bus : Nat
  names : Set String
  limit : UInt64
  subscription : Subscription
  messages : Set Message

/-- Publishes one of the messages on the bus and leaves the outcome as its reply. Before that it may take notes. -/
def Behaviour.Republishes (names : Set String) (messages : Set Message) : Behaviour → Prop
  | .record _ next | .arrive _ next => next.Republishes names messages
  | .workerName next => ∀ worker, (next worker).Republishes names messages
  | .publish bus message next =>
    bus ∈ names ∧ message ∈ messages ∧ ∀ publication, next (some publication) = .later (.awaiting publication)
  | .reply _ | .fail _ | .crash _ | .later _ | .request _ _ | .pass _ _ | .await _ _ | .forward _ _ => False

namespace Session

def event (s : Session) : Message → Event
  | .recipe r => s.make r
  | .event e => e

theorem publishMessage_of_bus? {s : Session} {name : String} {b : Bus} (h : s.bus? name = some b) (ctx : Context)
    (m : Message) : s.publishMessage ctx name m =
      ((s.publishOn ctx b (s.event m)).1, (s.publishOn ctx b (s.event m)).2.map some) := by
  cases m <;> simp only [publishMessage, h, event]

end Session

namespace Loop

variable (l : Loop) {s s' : Session} {ctx : Context} {a q : Nat} {i : Invocation}

/-- The listener can see the event, and replies with a publish. -/
def Takes (view : Option View) (e : Event) : Prop :=
  ∃ sight, l.subscription.callback.lens.extract view e = .ok (some sight) ∧
    ∀ depth, (l.subscription.callback.listener depth sight).Republishes l.names l.messages

/-- The names stand for the bus, which is open and has the limit. The listener, and nobody else, hears each of the
messages, and takes it. -/
def Closes (s : Session) : Prop :=
  ∃ b, s.buses.get? l.bus = some b ∧ (∀ name ∈ l.names, s.bus? name = some b) ∧ b.isOpen ∧
    b.config.maxPublishDepth = some l.limit ∧ ∀ m ∈ l.messages, ∃ r matcher view,
      b.matcher.keysFor s.hierarchy.declared (s.event m).cls = .ok (r, matcher) ∧
        b.registry.lookup r = [(l.subscription, view)] ∧ l.Takes view (s.event m)

def Prints (s : Session) : Prop :=
  ∀ m ∈ l.messages, ∃ text, (s.event m).debug = .ok text

/-- An invocation of the listener, by an event that it takes. -/
structure Engages (i : Invocation) : Prop where
  bus : i.bus = l.bus
  subscription : i.subscription = l.subscription
  takes : l.Takes i.view i.event
  printable : ∃ text, i.event.debug = .ok text

/-- What a publish has led to: one invocation that is yet to begin, or a refusal where it was too deep. -/
inductive Opened (s : Session) (ctx : Context) (q : Nat) : Prop
  | invoked {a : Nat} {i : Invocation} (hadmitted : ctx.depth < l.limit.toNat)
      (hi : s.invocations.get? a = some i) (hpub : i.publication = q) (horigin : i.origin = ctx)
      (hfresh : i.stage = .fresh) (he : l.Engages i)
      (hsole : ∀ b j, s.invocations.get? b = some j → j.publication = q → b = a) : Opened s ctx q
  | refused {p : Publication} (hdeep : l.limit.toNat ≤ ctx.depth) (hp : s.publications.get? q = some p)
      (hresult : p.result? = some (.error (.depthExceeded ctx.depth l.limit.toNat)))
      (hnobody : ∀ b j, s.invocations.get? b = some j → j.publication ≠ q) : Opened s ctx q

structure Opens (s : Session) (ctx : Context) (s' : Session) (q : Nat) : Prop where
  fresh : s.issued < q
  opened : l.Opened s' ctx q
  only : ∀ b j, s'.invocations.get? b = some j → s.issued < b → j.publication = q

variable {l}

theorem Engages.continues {i' : Invocation} (h : l.Engages i) (hc : i.Continues i') : l.Engages i' := by
  obtain ⟨stage, parked, rfl⟩ := hc
  exact ⟨h.bus, h.subscription, h.takes, h.printable⟩

def caller (l : Loop) : Caller :=
  ⟨l.bus, l.subscription.id⟩

theorem Engages.caller (h : l.Engages i) : i.caller = l.caller := by
  rw [Invocation.caller, h.bus, h.subscription]
  rfl

theorem Closes.isRunning (h : l.Closes s) : s.isRunning l.bus := by
  obtain ⟨b, hb, -, hopen, -⟩ := h
  simp [Session.isRunning, hb, hopen]

theorem Opens.aside {s₁ : Session} (h : l.Opens s ctx s₁ q) (haside : s₁.Aside s') : l.Opens s ctx s' q where
  fresh := h.fresh
  only := haside.invocations ▸ h.only
  opened := by
    cases h.opened with
    | invoked hadmitted hi hpub horigin hfresh he hsole =>
      rw [← haside.invocations] at hi hsole
      exact .invoked hadmitted hi hpub horigin hfresh he hsole
    | refused hdeep hp hresult hnobody =>
      rw [← haside.publications] at hp
      rw [← haside.invocations] at hnobody
      exact .refused hdeep hp hresult hnobody

private theorem Opens.putInvocation {s₁ : Session} (h : l.Opens s ctx s₁ q) (hi : s₁.invocations.get? a = some i)
    (ha : a ≤ s.issued) (hpub : i.publication ≠ q) {i' : Invocation} (hc : i.Continues i') :
    l.Opens s ctx (s₁.putInvocation a i') q := by
  have hget {b : Nat} {j : Invocation} (hj : (s₁.putInvocation a i').invocations.get? b = some j) :
      (b = a ∧ j.publication ≠ q) ∨ b ≠ a ∧ s₁.invocations.get? b = some j := by
    rw [Session.putInvocation, Table.get?_put] at hj
    split at hj
    · obtain rfl := Option.some.inj hj
      exact Or.inl ⟨‹_›, hc.publication.symm ▸ hpub⟩
    · exact Or.inr ⟨‹_›, hj⟩
  refine ⟨h.fresh, ?_, ?_⟩
  · cases h.opened with
    | @invoked a₁ i₁ hadmitted hi₁ hpub₁ horigin hfresh he hsole =>
      have hne : a₁ ≠ a := by
        rintro rfl
        obtain rfl := Option.some.inj (hi.symm.trans hi₁)
        exact hpub hpub₁
      refine .invoked hadmitted ((Table.get?_put ..).trans ((if_neg hne).trans hi₁)) hpub₁ horigin hfresh he ?_
      intro b j hj hq
      rcases hget hj with ⟨-, hother⟩ | ⟨-, hj⟩
      · exact absurd hq hother
      · exact hsole b j hj hq
    | refused hdeep hp hresult hnobody =>
      refine .refused hdeep hp hresult ?_
      intro b j hj
      rcases hget hj with ⟨-, hother⟩ | ⟨-, hj⟩
      · exact hother
      · exact hnobody b j hj
  · intro b j hj hnew
    rcases hget hj with ⟨rfl, -⟩ | ⟨-, hj⟩
    · omega
    · exact h.only b j hj hnew

section Publishing

variable {b : Bus} {e : Event} {text : String} (hs : s.Proper) (hb : s.buses.get? b.id = some b) (hopen : b.isOpen)
variable (hlimit : b.config.maxPublishDepth = some l.limit) (htext : e.debug = .ok text)
include hs hb hopen hlimit htext

private theorem opens_of_tooDeep (hdeep : l.limit.toNat ≤ ctx.depth) :
    ∃ s' q, s.publishOn ctx b e = (s', .ok q) ∧ l.Opens s ctx s' q := by
  have hexceeded := Bus.exceeded?_of_limit hlimit ctx.depth
  rw [if_pos hdeep] at hexceeded
  obtain ⟨s', q, hpublish, hfresh, -, hinvocations, hp⟩ :=
    Session.publishOn_of_tooDeep hb hopen hexceeded fun _ => ⟨text, htext⟩
  have hmade := Session.publishing_of_publishOn hs hb hpublish
  refine ⟨s', q, hpublish, hfresh, .refused hdeep hp rfl ?_, fun a j hj hnew => (hmade.invoked a j hj hnew).1⟩
  intro a j hj hq
  rw [hinvocations] at hj
  obtain ⟨p, hp⟩ := hs.belongs a j hj
  have := hs.publication _ p hp
  omega

private theorem opens_of_heard (hshallow : ctx.depth < l.limit.toNat) {r : Resolution} {matcher : Matcher}
    (hkeys : b.matcher.keysFor s.hierarchy.declared e.cls = .ok (r, matcher)) {view : Option View}
    (hlookup : b.registry.lookup r = [(l.subscription, view)]) (htakes : l.Takes view e) (hbus : b.id = l.bus) :
    ∃ s' q, s.publishOn ctx b e = (s', .ok q) ∧ l.Opens s ctx s' q := by
  have hexceeded := Bus.exceeded?_of_limit hlimit ctx.depth
  rw [if_neg (Nat.not_le.2 hshallow)] at hexceeded
  obtain ⟨s₁, haside, hpublish⟩ := Session.publishOn_of_heard hopen hexceeded hkeys htext (by simp [hlookup])
  have hs₁ : s₁.Proper := (hs.putBus (b := { b with matcher }) (hs.bus _ _ hb).2).aside haside
  rw [hlookup] at hpublish
  have hmade := Session.publishing_of_publishOn hs hb hpublish
  have hinvoked (a : Nat) (j : Invocation) :
      ((s₁.schedule ctx b.id (.scheduled e [(l.subscription, view)])).1.invocations.get? a = some j ∧
        j.publication = s₁.issued + 1) ↔ _ := Session.invocation_of_schedule hs₁ a j
  obtain ⟨hi, hpub⟩ := (hinvoked (s₁.issued + 2) _).2 ⟨by omega, (l.subscription, view), by simp, rfl⟩
  refine ⟨_, _, hpublish, hmade.fresh, ?_, fun a j hj hnew => (hmade.invoked a j hj hnew).1⟩
  refine .invoked hshallow hi hpub rfl rfl ⟨hbus, rfl, htakes, text, htext⟩ ?_
  intro a j hj hq
  obtain ⟨hlt, t, ht, -⟩ := (hinvoked a j).1 ⟨hj, hq⟩
  have hplace := (List.getElem?_eq_some_iff.1 ht).1
  simp only [List.length_singleton] at hplace
  omega

end Publishing

theorem opens_of_closes (hs : s.Proper) (hl : l.Closes s) (hprints : l.Prints s) {m : Message} (hm : m ∈ l.messages)
    (ctx : Context) : ∃ b s' q, (∀ name ∈ l.names, s.bus? name = some b) ∧
      s.publishOn ctx b (s.event m) = (s', .ok q) ∧ l.Opens s ctx s' q ∧
        ∀ a ≤ s.issued, s'.invocations.get? a = s.invocations.get? a := by
  obtain ⟨b, hget, hname, hopen, hlimit, hheard⟩ := hl
  obtain ⟨r, matcher, view, hkeys, hlookup, htakes⟩ := hheard m hm
  obtain ⟨text, htext⟩ := hprints m hm
  have hbus : b.id = l.bus := (hs.bus _ _ hget).1
  have hb : s.buses.get? b.id = some b := hbus ▸ hget
  obtain ⟨s', q, hpublish, hopens⟩ : ∃ s' q, s.publishOn ctx b (s.event m) = (s', .ok q) ∧ l.Opens s ctx s' q := by
    rcases Nat.lt_or_ge ctx.depth l.limit.toNat with hshallow | hdeep
    · exact opens_of_heard hs hb hopen hlimit htext hshallow hkeys hlookup htakes hbus
    · exact opens_of_tooDeep hs hb hopen hlimit htext hdeep
  exact ⟨b, s', q, hname, hpublish, hopens, (Session.publishing_of_publishOn hs hb hpublish).kept⟩

section Approaching

variable (l) in
/-- It is yet to be called, or has been called and is yet to publish. -/
def Approaches (i : Invocation) : Prop :=
  i.rest? = none ∨ ∃ p, i.stage = .calling p ∧ p.Republishes l.names l.messages

private theorem stage_goOn (hcallback : ∀ p, i.stage ≠ .deferring p) (p : Behaviour) :
    (i.goOn p).stage = .calling p := by
  cases h : i.stage <;> simp_all [Invocation.goOn]

private theorem approaches_goOn (hcallback : ∀ p, i.stage ≠ .deferring p) {p : Behaviour}
    (hp : p.Republishes l.names l.messages) (s : Session) :
    ∃ i', (s.putInvocation a (i.goOn p)).invocations.get? a = some i' ∧ l.Approaches i' :=
  ⟨_, Session.get?_putInvocation .., Or.inr ⟨p, stage_goOn hcallback p, hp⟩⟩

private theorem step_of_waiting (hl : l.Closes s) (hi : s.invocations.get? a = some i) (he : l.Engages i)
    (hrest : i.rest? = none) (hstep : s.step a = some s') :
    ∃ i', s'.invocations.get? a = some i' ∧ l.Approaches i' := by
  have hcallback : ∀ p, i.stage ≠ .deferring p := by
    intro p hdeferring
    simp [Invocation.rest?, hdeferring] at hrest
  simp only [Session.step, hi, Session.proceed, hrest] at hstep
  split at hstep
  · obtain ⟨sight, hsight, hrepublishes⟩ := he.takes
    rename_i after hcalled
    split at hcalled
    · rw [← he.subscription] at hsight hrepublishes
      simp only [Session.call, hsight, Option.some.injEq] at hcalled hstep
      rw [← hstep, ← hcalled]
      exact approaches_goOn hcallback (hrepublishes _) _
    · cases hcalled
  · split at hstep
    · cases hstep
    · have hrunning : (s.park a i).isRunning i.bus := by
        have hbus := hl.isRunning
        rw [← he.bus] at hbus
        simp only [Session.park, hrest]
        exact hbus
      rw [if_pos hrunning] at hstep
      obtain rfl := Option.some.inj hstep
      exact ⟨_, Session.get?_putInvocation .., Or.inl ((i.rest?_park _).trans hrest)⟩

theorem step_of_approaches (hs : s.Proper) (hl : l.Closes s) (hprints : l.Prints s)
    (hi : s.invocations.get? a = some i) (he : l.Engages i) (happroaches : l.Approaches i)
    (hstep : s.step a = some s') :
    ((∃ i', s'.invocations.get? a = some i' ∧ l.Approaches i') ∧
        ∀ b ≠ a, s'.invocations.get? b = s.invocations.get? b) ∨
      ∃ q, l.Opens s i.context s' q ∧ ∃ i', s'.invocations.get? a = some i' ∧
        i'.stage = .calling (.later (.awaiting q)) := by
  have halone (hquiet : ∀ p, i.rest? = some p → p.isQuiet) (b : Nat) (hne : b ≠ a) :
      s'.invocations.get? b = s.invocations.get? b :=
    Session.kept_of_step hi hquiet hstep hne
  rcases happroaches with hrest | ⟨p, hstage, hp⟩
  · exact Or.inl ⟨step_of_waiting hl hi he hrest hstep, halone (by simp [hrest])⟩
  · have hcallback : ∀ p, i.stage ≠ .deferring p := by simp [hstage]
    have hrest : i.rest? = some p := by simp [Invocation.rest?, hstage]
    simp only [Session.step, hi, Session.proceed, hrest] at hstep
    cases p with
    | record entry next | arrive gate next =>
      simp only [Session.advance, Option.some.injEq] at hstep
      exact Or.inl ⟨hstep ▸ approaches_goOn hcallback (p := next) hp _, halone (by simp [hrest, Behaviour.isQuiet])⟩
    | workerName next =>
      simp only [Session.advance, Option.some.injEq] at hstep
      exact Or.inl ⟨hstep ▸ approaches_goOn hcallback (hp _) _, halone (by simp [hrest, Behaviour.isQuiet])⟩
    | publish bus message next =>
      obtain ⟨hbus, hm, hnext⟩ := hp
      obtain ⟨b, s₁, q, hname, hpublish, hopens, hkept⟩ := opens_of_closes hs hl hprints hm i.context
      simp only [Session.advance, Session.publishMessage_of_bus? (hname bus hbus), hpublish] at hstep
      obtain rfl := Option.some.inj hstep
      have ha := hs.issued a i hi
      have hpub : i.publication ≠ q := by
        obtain ⟨p, hp⟩ := hs.belongs a i hi
        have := hs.publication _ p hp
        have := hopens.fresh
        omega
      refine Or.inr ⟨q, hopens.putInvocation ((hkept a ha).trans hi) ha hpub (i.continues_goOn _), _,
        Session.get?_putInvocation .., ?_⟩
      rw [hnext, stage_goOn hcallback]
    | _ => exact hp.elim

theorem republishes_of_rest? (happroaches : l.Approaches i) {p : Behaviour} (hrest : i.rest? = some p) :
    p.Republishes l.names l.messages := by
  rcases happroaches with hnone | ⟨p', hstage, hp⟩
  · cases hnone.symm.trans hrest
  · simp only [Invocation.rest?, hstage, Option.some.injEq] at hrest
    exact hrest ▸ hp

theorem not_ends_of_approaches (hs : s.Proper) (hl : l.Closes s) (hprints : l.Prints s) (he : l.Engages i)
    (happroaches : l.Approaches i) {o : Outcome} : ¬ s.Ends i o := by
  have hgoes {p : Behaviour} (hrest : i.rest? = some p) : p.Republishes l.names l.messages :=
    republishes_of_rest? happroaches hrest
  have hfails {cause : ListenerError} : ¬ s.Fails i cause := by
    obtain ⟨sight, hsight, -⟩ := he.takes
    rw [← he.subscription] at hsight
    intro hfails
    cases hfails with
    | @returned fault hstage | @deferred fault hstage =>
      have hrest : i.rest? = some (.fail fault) := by simp only [Invocation.rest?, hstage]
      exact hgoes hrest
    | gaveUp hrest => exact hgoes hrest
    | publishing hrest hc =>
      obtain ⟨hbus, hm, -⟩ := hgoes hrest
      obtain ⟨b, s', q, hname, hpublish, -⟩ := opens_of_closes hs hl hprints hm i.context
      rw [Session.publishMessage_of_bus? (hname _ hbus), hpublish] at hc
      cases hc
    | unseen _ hunseen => cases hsight.symm.trans hunseen
    | seeing _ hcrashed => cases hsight.symm.trans hcrashed
  intro hends
  cases hends with
  | replied hrest => exact hgoes hrest
  | failed h | lost h => exact hfails h

/-- It gets on, unless it waits for its turn. -/
theorem step_ne_none_of_approaches (hs : s.Proper) (hi : s.invocations.get? a = some i)
    (happroaches : l.Approaches i)
    (hturn : i.bypasses ∨ ∀ b j, s.invocations.get? b = some j → j.caller = i.caller → b = a) : s.step a ≠ none := by
  suffices hproceeds : s.proceed a i ≠ none by
    obtain ⟨after, hafter⟩ := Option.ne_none_iff_exists'.1 hproceeds
    simp [Session.step, hi, hafter]
  intro hblocked
  simp only [Session.proceed] at hblocked
  rcases happroaches with hrest | ⟨p, hstage, hp⟩
  · have hnext : i.isAheadOf i = false ∧ i.holdsTurn = false := by
      cases hstage : i.stage <;>
        simp [Invocation.rest?, Invocation.isAheadOf, Invocation.holdsTurn, Invocation.isCalling, hstage] at hrest ⊢
    have hfree : (i.bypasses || s.turnIsFree i) = true := by
      rcases hturn with hbypasses | halone
      · simp [hbypasses]
      · rw [Bool.or_eq_true, Session.turnIsFree, Bool.not_eq_true', List.any_eq_false]
        refine Or.inr fun j hj => ?_
        obtain ⟨b, hb⟩ := (Table.mem_values_iff hs.invocations j).1 hj
        by_cases hsame : j.caller = i.caller
        · obtain rfl := halone b j hb hsame
          obtain rfl := Option.some.inj (hi.symm.trans hb)
          simp [hnext]
        · simp [hsame]
    simp [hrest, hfree] at hblocked
  · have hrest : i.rest? = some p := by simp [Invocation.rest?, hstage]
    simp only [hrest] at hblocked
    have hblock := Session.mayBlock_of_advance hblocked
    cases p with
    | pass | await => exact hp.elim
    | _ => cases hblock

end Approaching

end Loop
end PubSub
