import PubSub.Proofs.Session.Accounting

/-!
# Awaiting one's own publishes

A listener that waits for nothing but publishes that it made itself. All invocations of such a publish were made in its
own context, so each of them has it among its callers.
-/

namespace PubSub

namespace Behaviour

/-- It waits for nothing but publications that it makes itself, besides the given ones. -/
def AwaitsOwn (own : List Nat) : Behaviour → Prop
  | .reply _ | .fail _ | .crash _ => True
  | .later rest => rest.AwaitsOwn own
  | .request _ next => ∀ answer, (next answer).AwaitsOwn own
  | .record _ next | .arrive _ next | .forward _ next => next.AwaitsOwn own
  | .pass _ _ => False
  | .publish _ _ next =>
    (next none).AwaitsOwn own ∧ ∀ publication, (next (some publication)).AwaitsOwn (publication :: own)
  | .await publication next => publication ∈ own ∧ ∀ result, (next result).AwaitsOwn own
  | .workerName next => ∀ name, (next name).AwaitsOwn own

theorem AwaitsOwn.follows {own : List Nat} {p p' : Behaviour} (hp : p.AwaitsOwn own) (h : p.Follows p') :
    p'.AwaitsOwn own := by
  cases h with
  | request command next answer => exact hp answer
  | record entry => exact hp
  | arrive gate => exact hp
  | pass gate => exact hp.elim
  | unpublished bus message next => exact hp.1
  | forward publication => exact hp
  | workerName next name => exact hp name

private theorem awaitsOwn_ofEnding (own : List Nat) (ending : Ending) : (ofEnding ending).AwaitsOwn own := by
  cases ending <;> trivial

private theorem awaitsOwn_awaiting (own : List Nat) (publication : Nat) :
    (awaiting publication).AwaitsOwn (publication :: own) := by
  refine ⟨List.mem_cons_self .., ?_⟩
  intro result
  cases result <;> trivial

private theorem awaitsOwn_requesting {own : List Nat} {next : List Answer → Behaviour}
    (h : ∀ answers, (next answers).AwaitsOwn own) (answers : List Answer) (commands : List Command) :
    (requesting next answers commands).AwaitsOwn own := by
  induction commands generalizing answers with
  | nil => exact h answers
  | cons command rest ih =>
    intro answer
    exact ih _

end Behaviour

def Listener.AwaitsOwn (l : Listener) : Prop :=
  ∀ depth sight, (l depth sight).AwaitsOwn []

/-- It passes no gate, neither at once nor later. -/
def Leaf.Gateless {α : Type} (leaf : Leaf α) : Prop :=
  leaf.gate = none ∧ ∀ gate ending, leaf.deed = .defer gate ending → gate = none

def Script.Gateless {α : Type} : Script α → Prop
  | leaf l => l.Gateless
  | branch _ _ _ yes no => yes.Gateless ∧ no.Gateless

private theorem Script.gateless_pick {α : Type} {script : Script α} (h : script.Gateless) (depth : Nat)
    (number : Int64) :
    (script.pick depth number).Gateless := by
  induction script with
  | leaf l => exact h
  | branch measure comparison bound yes no ihy ihn =>
    simp only [pick]
    generalize comparison.holds _ bound = met
    cases met
    · exact ihn h.2
    · exact ihy h.1

private theorem Deed.awaitsOwn_behaviour {deed : Deed} (h : ∀ gate ending, deed = .defer gate ending → gate = none)
    (patient : Bool) (sight : Sight) (own : List Nat) : (deed.behaviour patient sight).AwaitsOwn own := by
  cases deed with
  | finish ending => exact Behaviour.awaitsOwn_ofEnding own ending
  | workerName => exact fun _ => trivial
  | defer gate ending =>
    obtain rfl := h gate ending rfl
    exact Behaviour.awaitsOwn_ofEnding own ending
  | publish bus follow subject =>
    simp only [behaviour]
    cases subject.message? sight with
    | none => trivial
    | some message =>
      refine ⟨trivial, ?_⟩
      intro publication
      cases follow with
      | await => cases patient <;> exact Behaviour.awaitsOwn_awaiting own publication
      | defer => exact Behaviour.awaitsOwn_awaiting own publication
      | forward => trivial

/-- A script that passes no gate awaits its own publishes at most. -/
theorem Script.awaitsOwn_listener {script : Script Command} (h : script.Gateless) (role : Role) :
    (script.listener role).AwaitsOwn := by
  intro depth sight
  obtain ⟨hgate, hdeed⟩ := gateless_pick h depth sight.number
  simp only [listener, Leaf.behaviour]
  rw [hgate]
  apply Behaviour.awaitsOwn_requesting
  intro answers
  have hnone : (if role.patient then Option.map (gateFor sight) none else none) = none := by
    split <;> rfl
  simp only [hnone]
  exact Deed.awaitsOwn_behaviour hdeed role.patient sight []

namespace Session

variable {s s' : Session} {place : Context}

/-- The publications that the invocation may await are there, and their invocations were made in its context. -/
def KeepsOwn (s : Session) (i : Invocation) : Prop :=
  ∀ p, i.rest? = some p → ∃ own, p.AwaitsOwn own ∧ ∀ q ∈ own, (∃ made, s.publications.get? q = some made) ∧
    ∀ id j, s.invocations.get? id = some j → j.publication = q → j.origin = i.context

namespace KeepsOwn

private theorem carries (hs : s.Proper) (h : s.Carries place s') {own : List Nat} {ctx : Context}
    (hown : ∀ q ∈ own, (∃ made, s.publications.get? q = some made) ∧
      ∀ id j, s.invocations.get? id = some j → j.publication = q → j.origin = ctx) :
    ∀ q ∈ own, (∃ made, s'.publications.get? q = some made) ∧
      ∀ id j, s'.invocations.get? id = some j → j.publication = q → j.origin = ctx := by
  intro q hq
  obtain ⟨⟨made, hmade⟩, hinvoked⟩ := hown q hq
  refine ⟨?_, ?_⟩
  · obtain ⟨made', hmade', -⟩ := h.publication q made hmade
    exact ⟨made', hmade'⟩
  · intro id j hj he
    subst he
    rcases h.invocation id j hj with ⟨i, hi, stage, parked, rfl⟩ | ⟨-, hnew, -⟩
    · exact hinvoked id i hi rfl
    · have := hs.publication _ made hmade
      omega

private theorem of_carries (hs : s.Proper) (h : s.Carries place s') {i : Invocation} (hi : s.KeepsOwn i) :
    s'.KeepsOwn i := by
  intro p hp
  obtain ⟨own, hawaits, hown⟩ := hi p hp
  exact ⟨own, hawaits, carries hs h hown⟩

private theorem of_rest?_eq_none {i : Invocation} (h : i.rest? = none) : s.KeepsOwn i := by
  intro p hp
  rw [h] at hp
  cases hp

end KeepsOwn

/-- All invocations of listeners that await their own publishes stick to it. -/
def KeepOwn (s : Session) : Prop :=
  ∀ id i, s.invocations.get? id = some i → i.subscription.callback.listener.AwaitsOwn → s.KeepsOwn i

namespace KeepOwn

private theorem of_found (hs : s.Proper) (hk : s.KeepOwn) (h : s.Carries place s') {id : Nat} {i : Invocation}
    (hi : s.invocations.get? id = some i ∨ i.stage = .fresh) (hl : i.subscription.callback.listener.AwaitsOwn) :
    s'.KeepsOwn i := by
  rcases hi with hi | hfresh
  · exact (hk id i hi hl).of_carries hs h
  · exact .of_rest?_eq_none (by simp [Invocation.rest?, hfresh])

private theorem effect (hs : s.Proper) (hk : s.KeepOwn) (h : Effect s s') : s'.KeepOwn := by
  have hcarries : s.Carries .outermost s' := .effect h
  intro id i hi hl
  exact of_found hs hk hcarries (Or.inl (invocation_of_effect h hi)) hl

private theorem publishes (hs : s.Proper) (hk : s.KeepOwn) {publication : Nat} (h : s.Publishes place s' publication) :
    s'.KeepOwn := by
  intro id i hi hl
  exact of_found hs hk (.publishes hs h) (((publishing_of_publishes hs h).invocation hi).imp_right And.right) hl

private theorem put {s₁ : Session} (hs : s.Proper) (hk : s.KeepOwn) {id₀ : Nat} {i₀ : Invocation}
    (h : s.Carries place (s₁.putInvocation id₀ i₀))
    (hothers : ∀ id i, s₁.invocations.get? id = some i → s.invocations.get? id = some i ∨ i.stage = .fresh)
    (hown : i₀.subscription.callback.listener.AwaitsOwn → (s₁.putInvocation id₀ i₀).KeepsOwn i₀) :
    (s₁.putInvocation id₀ i₀).KeepOwn := by
  intro id i hi hl
  simp only [putInvocation, Table.get?_put] at hi
  split at hi
  · obtain rfl := Option.some.inj hi
    exact hown hl
  · exact of_found hs hk h (hothers id i hi) hl

private theorem goOn (hs : s.Proper) (hk : s.KeepOwn) (h : s.Carries place s') {id : Nat} {i : Invocation}
    (hi : s.invocations.get? id = some i) (hl : i.subscription.callback.listener.AwaitsOwn) {p p' : Behaviour}
    (hrest : i.rest? = some p) (hp : ∀ own, p.AwaitsOwn own → p'.AwaitsOwn own) {i' : Invocation}
    (hrest' : i'.rest? = some p') (hcontext : i'.context = i.context) : s'.KeepsOwn i' := by
  intro q hq
  obtain rfl := Option.some.inj (hrest'.symm.trans hq)
  obtain ⟨own, hawaits, hown⟩ := hk id i hi hl p hrest
  exact ⟨own, hp own hawaits, hcontext ▸ KeepsOwn.carries hs h hown⟩

private theorem publish (hs : s.Proper) (hk : s.KeepOwn) {s₁ : Session} {id : Nat} {i : Invocation}
    (hi : s.invocations.get? id = some i) {bus : String} {message : Message} {next : Option Nat → Behaviour}
    (hrest : i.rest? = some (.publish bus message next)) {publication : Nat} (h : s.Publishes i.context s₁ publication)
    (hl : i.subscription.callback.listener.AwaitsOwn) :
    (s₁.putInvocation id (i.goOn (next (some publication)))).KeepsOwn (i.goOn (next (some publication))) := by
  have hcarries : s.Carries i.context (s₁.putInvocation id (i.goOn (next (some publication)))) :=
    .progress hs hi (.published hi hrest h)
  have hpublishing := publishing_of_publishes hs h
  obtain ⟨own, hawaits, hown⟩ := hk id i hi hl _ hrest
  intro p hp
  obtain rfl := Option.some.inj ((i.rest?_goOn _).symm.trans hp)
  refine ⟨publication :: own, hawaits.2 publication, ?_⟩
  rw [i.context_goOn]
  intro q hq
  rcases List.mem_cons.1 hq with rfl | hq
  · obtain ⟨made, hmade, -⟩ := hpublishing.opened
    refine ⟨⟨made, hmade⟩, ?_⟩
    intro id' j hj hpub
    have hnew := hpublishing.fresh
    rcases hcarries.invocation id' j hj with ⟨j₀, hj₀, stage, parked, rfl⟩ | ⟨hid', -, -⟩
    · obtain ⟨p₀, hp₀⟩ := hs.belongs id' j₀ hj₀
      have := hs.publication _ p₀ hp₀
      simp only at hpub
      omega
    · have hid : id' ≠ id := by
        have := hs.issued id i hi
        omega
      simp only [putInvocation, Table.get?_put, if_neg hid] at hj
      exact (hpublishing.invoked id' j hj hid').2.1
  · exact KeepsOwn.carries hs hcarries hown q hq

private theorem progress (hs : s.Proper) (hk : s.KeepOwn) {id : Nat} (h : Progress id s s') : s'.KeepOwn := by
  obtain ⟨i₀, hi₀⟩ := h.exists_invocation
  have hcarries := Carries.progress hs hi₀ h
  cases h with
  | @parked i hi _ =>
    refine hk.put hs hcarries (fun _ _ hj => Or.inl hj) fun hl => ?_
    rw [i.subscription_park] at hl
    intro p hp
    rw [i.rest?_park] at hp
    exact hk.goOn hs hcarries hi hl hp (fun _ h => h) ((i.rest?_park _).trans hp) (i.context_park _) p
      ((i.rest?_park _).trans hp)
  | @called i sight hi _ _ _ =>
    refine hk.put hs hcarries (fun _ _ hj => Or.inl hj) fun hl => ?_
    rw [i.subscription_goOn] at hl
    intro p hp
    obtain rfl := Option.some.inj ((i.rest?_goOn _).symm.trans hp)
    exact ⟨[], hl _ sight, by simp⟩
  | @wentOn i p p' hi hrest hp =>
    refine hk.put hs hcarries (fun _ _ hj => Or.inl hj) fun hl => ?_
    rw [i.subscription_goOn] at hl
    exact hk.goOn hs hcarries hi hl hrest (fun _ h => h.follows hp) (i.rest?_goOn _) (i.context_goOn _)
  | @left i rest hi hrest =>
    refine hk.put hs hcarries (fun _ _ hj => Or.inl hj) fun hl => ?_
    have hlater : ∀ own, (Behaviour.later rest).AwaitsOwn own → rest.AwaitsOwn own := fun _ h => h
    exact hk.goOn hs hcarries hi hl hrest hlater rfl rfl
  | @awaited i _ next _ result hi hrest _ _ =>
    refine hk.put hs hcarries (fun _ _ hj => Or.inl hj) fun hl => ?_
    rw [i.subscription_goOn] at hl
    exact hk.goOn hs hcarries hi hl hrest (fun _ h => h.2 result) (i.rest?_goOn _) (i.context_goOn _)
  | @published s₁ i _ _ _ _ hi hrest hp =>
    have hpublishing := publishing_of_publishes hs hp
    refine hk.put hs hcarries (fun _ _ hj => (hpublishing.invocation hj).imp_right And.right) fun hl => ?_
    rw [i.subscription_goOn] at hl
    exact hk.publish hs hi hrest hp hl
  | finished hi o =>
    intro id' i' hi' hl
    exact of_found hs hk hcarries (Or.inl (invocation_of_finish hi')) hl

theorem move (hs : s.Proper) (hk : s.KeepOwn) (h : Move s s') : s'.KeepOwn := by
  cases h with
  | effect he => exact hk.effect hs he
  | publish hp => exact hk.publishes hs hp
  | progress id hp => exact hk.progress hs hp

end KeepOwn

theorem Reachable.keepOwn (h : s.Reachable) : s.KeepOwn := by
  refine h.of_moves ?_ ?_
  · intro tracing id i hi
    cases hi
  · intro tracing s s' hprior hm hkeep
    exact hkeep.move ((proper_start tracing).moves hprior) hm

end Session
end PubSub
