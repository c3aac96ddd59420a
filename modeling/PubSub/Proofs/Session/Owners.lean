import PubSub.Proofs.Session.Fates
import PubSub.Proofs.Session.Keeping

/-!
# Owners

An owner stays in its place until another one is put there. Meanwhile only its own requests touch its slot: to start
fills an empty slot with a new bus, and to end empties the slot and leaves the bus closed.
-/

namespace PubSub

/-- It puts a new owner in the place of that name. -/
def Command.replaces (name : String) : Command → Bool
  | .managed owner _ => owner = name
  | _ => false

namespace Session

variable {s s' : Session} {name : String} {owner : Owner} {b : Bus} {config : Config}

section Opening

theorem openBus_of_invalid {e : ConfigError} (h : config.validate = .error e) :
    s.openBus config = .error (.refused (.config e) none) := by
  simp only [openBus, Bus.start, h]
  rfl

theorem openBus_of_unstartable (hvalid : config.validate = .ok ()) {c : Crash} (h : config.startWorkers = .error c) :
    s.openBus config = .error (.crashed c) := by
  simp only [openBus, Bus.start, hvalid, h]
  rfl

theorem openBus_of_valid (hvalid : config.validate = .ok ()) (h : config.startWorkers = .ok ()) :
    s.openBus config = .ok ((s.issue.1.putBus ⟨s.issued + 1, config, true, .empty, .empty⟩).report
      (Bus.optional ⟨s.issued + 1, config, true, .empty, .empty⟩ [.started]),
        ⟨s.issued + 1, config, true, .empty, .empty⟩) := by
  simp only [openBus, Bus.start, hvalid, h]
  rfl

theorem opened_of_openBus (h : s.openBus config = .ok (s', b)) :
    config.validate = .ok () ∧ b = ⟨s.issued + 1, config, true, .empty, .empty⟩ ∧ s'.buses = s.buses.put b.id b := by
  cases hvalid : config.validate with
  | error e =>
    rw [openBus_of_invalid hvalid] at h
    cases h
  | ok =>
    cases hworkers : config.startWorkers with
    | error c =>
      rw [openBus_of_unstartable hvalid hworkers] at h
      cases h
    | ok =>
      rw [openBus_of_valid hvalid hworkers] at h
      obtain ⟨rfl, rfl⟩ := Prod.mk.inj (Except.ok.inj h)
      exact ⟨rfl, rfl, (aside_report ..).buses⟩

end Opening

section Slots

/-- What happens to the slot of an owner, and to the bus in it. -/
inductive Tends (s s' : Session) (owner : Owner) : Owner → Prop
  | left : Tends s s' owner owner
  | filled {b : Bus} (hempty : owner.bus = none) (hvalid : owner.config.validate = .ok ()) (hnew : s.issued < b.id)
      (hb : s'.buses.get? b.id = some b) : Tends s s' owner { owner with bus := some b.id }
  | emptied (hclosed : ∀ id, owner.bus = some id → s'.isRunning id = false) :
    Tends s s' owner { owner with bus := none }

/-- The owner is still there, and its slot was tended. -/
def Retains (s s' : Session) (name : String) (owner : Owner) : Prop :=
  ∃ owner', s'.owners.get? name = some owner' ∧ s.Tends s' owner owner'

theorem retains_of_same (howner : s.owners.get? name = some owner)
    (h : s'.owners.get? name = s.owners.get? name) : s.Retains s' name owner :=
  ⟨owner, h.trans howner, .left⟩

theorem retains_provided {α : Type} {found : Option α} {act : α → Session × Answer}
    (howner : s.owners.get? name = some owner)
    (hact : ∀ a, found = some a → s.Retains (act a).1 name owner) : s.Retains (s.provided found act).1 name owner :=
  provided_cases (motive := fun r => s.Retains r.1 name owner) (retains_of_same howner rfl) hact

theorem owners_hold (s : Session) (name : String) (bus : Nat) : (s.hold name bus).owners = s.owners :=
  (Quiet.dropUnkept _).owners

private theorem retains_initOwner (howner : s.owners.get? name = some owner) :
    s.Retains (s.initOwner name owner).1 name owner := by
  simp only [initOwner]
  cases hempty : owner.bus with
  | some id => exact retains_of_same howner rfl
  | none =>
    cases ho : s.openBus owner.config with
    | error answer => exact retains_of_same howner rfl
    | ok r =>
      obtain ⟨s₁, b⟩ := r
      obtain ⟨hvalid, hb, hbuses⟩ := opened_of_openBus ho
      refine ⟨_, ?_, .filled (b := b) hempty hvalid ?_ ?_⟩
      · rw [(Quiet.report ..).owners]
        exact (Table.get?_put ..).trans (if_pos rfl)
      · rw [hb]
        exact Nat.lt_succ_self _
      · rw [(aside_report ..).buses]
        show s₁.buses.get? b.id = some b
        rw [hbuses, Table.get?_put, if_pos rfl]

theorem not_running_closeBus (hb : s.buses.get? b.id = some b) : (s.closeBus b).isRunning b.id = false := by
  cases hopen : b.isOpen with
  | false => simp only [closeBus, hopen, isRunning, hb, Option.any_some, Bool.false_eq_true, if_false]
  | true =>
    rw [closeBus, hopen, if_pos rfl, isRunning, (aside_report ..).buses, buses_stopWorkers]
    rw [putBus, Table.get?_put, if_pos (show b.id = b.close.id from rfl)]
    rfl

theorem destroyOwner_of_bus (hs : s.Proper) (name : String) {id : Nat} (hbus : owner.bus = some id)
    (hb : s.buses.get? id = some b) :
    (s.destroyOwner name owner).owners = s.owners.put name { owner with bus := none } ∧
      (s.destroyOwner name owner).isRunning id = false := by
  obtain ⟨rfl, -⟩ := hs.bus id b hb
  simp only [destroyOwner, hbus, Option.bind_some, hb]
  have hcalm := Quiet.dropUnkept { (s.closeBus b).report [.destroyed] with
    owners := s.owners.put name { owner with bus := none } }
  refine ⟨hcalm.owners, Bool.eq_false_iff.2 fun hrunning => ?_⟩
  have hreported : ((s.closeBus b).report [.destroyed]).isRunning b.id := hcalm.running b.id hrunning
  cases (not_running_closeBus hb).symm.trans ((Quiet.report ..).running b.id hreported)

theorem destroyOwner_of_none (h : owner.bus.bind s.buses.get? = none) : s.destroyOwner name owner = s := by
  simp only [destroyOwner, h]

private theorem retains_destroyOwner (hs : s.Proper) (howner : s.owners.get? name = some owner) :
    s.Retains (s.destroyOwner name owner) name owner := by
  cases hb : owner.bus.bind s.buses.get? with
  | none => exact retains_of_same howner (by rw [destroyOwner_of_none hb])
  | some b =>
    obtain ⟨id, hbus, hid⟩ := Option.bind_eq_some_iff.1 hb
    obtain ⟨howners, hclosed⟩ := destroyOwner_of_bus hs name hbus hid
    refine ⟨_, by rw [howners, Table.get?_put, if_pos rfl], .emptied ?_⟩
    intro id' hbus'
    obtain rfl := Option.some.inj (hbus.symm.trans hbus')
    exact hclosed

private theorem owners_initOwner_of_ne {other : String} (hne : name ≠ other) (o : Owner) :
    (s.initOwner other o).1.owners.get? name = s.owners.get? name := by
  simp only [initOwner]
  split
  · rfl
  · cases ho : s.openBus o.config with
    | error answer => rfl
    | ok r =>
      obtain ⟨s₁, b⟩ := r
      rw [(Quiet.report ..).owners]
      refine ((Table.get?_put ..).trans (if_neg hne)).trans ?_
      rw [(openBus_frame ho).2.1]

private theorem owners_destroyOwner_of_ne (hs : s.Proper) {other : String} (hne : name ≠ other) (o : Owner) :
    (s.destroyOwner other o).owners.get? name = s.owners.get? name := by
  cases hb : o.bus.bind s.buses.get? with
  | none => rw [destroyOwner_of_none hb]
  | some b =>
    obtain ⟨id, hbus, hid⟩ := Option.bind_eq_some_iff.1 hb
    rw [(destroyOwner_of_bus hs other hbus hid).1]
    exact (Table.get?_put ..).trans (if_neg hne)

theorem retains_perform (hs : s.Proper) (howner : s.owners.get? name = some owner) (ctx : Context) {command : Command}
    (h : command.replaces name = false) : s.Retains (s.perform ctx command).1 name owner := by
  by_cases hreassigns : command.reassigns
  swap
  · exact retains_of_same howner (by rw [(Calm.perform hs ctx (Bool.eq_false_iff.2 hreassigns)).owners])
  have hheld {s₁ : Session} (hsame : s₁.owners = s.owners) (copy : String) (bus : Nat) :
      s.Retains (s₁.hold copy bus) name owner :=
    retains_of_same howner (by rw [owners_hold, hsame])
  cases command with
  | openBus bus base settings =>
    simp only [perform]
    cases ho : s.openBus (settings.foldl Config.set base) with
    | error answer => exact retains_of_same howner rfl
    | ok r => exact hheld (openBus_frame ho).2.1 _ _
  | clone bus copy => exact retains_provided howner fun b _ => hheld rfl copy b.id
  | drop bus =>
    refine retains_provided howner fun hold _ => ?_
    simp only [dropName]
    split
    · exact retains_of_same howner (by rw [(Quiet.dropUnkept _).owners])
    · exact retains_of_same howner rfl
  | managed other config =>
    have hne : name ≠ other := fun he => by simp [Command.replaces, he] at h
    refine retains_of_same howner ?_
    simp only [perform]
    rw [(Quiet.dropUnkept _).owners]
    exact (Table.get?_put ..).trans (if_neg hne)
  | init other =>
    refine retains_provided howner fun o ho => ?_
    by_cases hne : name = other
    · subst hne
      obtain rfl := Option.some.inj (howner.symm.trans ho)
      exact retains_initOwner howner
    · exact retains_of_same howner (owners_initOwner_of_ne hne o)
  | destroy other =>
    refine retains_provided howner fun o ho => ?_
    by_cases hne : name = other
    · subst hne
      obtain rfl := Option.some.inj (howner.symm.trans ho)
      exact retains_destroyOwner hs howner
    · exact retains_of_same howner (owners_destroyOwner_of_ne hs hne o)
  | managedBus other bus =>
    refine retains_provided howner fun o _ => ?_
    cases o.bus with
    | none => exact retains_of_same howner rfl
    | some id => exact hheld rfl bus id
  | _ => cases hreassigns

end Slots

section Answers

/-- How an owner answers. A bus is opened only for an empty slot, and just one; if it cannot be opened, nothing happens at
all. To end always works, and leaves the slot empty and the bus that was there closed. -/
structure Serves (s : Session) (name : String) (owner : Owner) : Prop where
  full : owner.bus ≠ none → ∀ ctx, s.perform ctx (.init name) = (s, .ok)
  invalid : ∀ e, owner.config.validate = .error e → owner.bus = none ∧
    ∀ ctx, s.perform ctx (.init name) = (s, .refused (.config e) none)
  unstartable : owner.bus = none → owner.config.validate = .ok () → ∀ c, owner.config.startWorkers = .error c →
    ∀ ctx, s.perform ctx (.init name) = (s, .crashed c)
  opens : owner.bus = none → owner.config.validate = .ok () → owner.config.startWorkers = .ok () →
    ∀ ctx, ∃ s', s.perform ctx (.init name) = (s', .ok) ∧ s.buses.get? (s.issued + 1) = none ∧
      s'.buses = s.buses.put (s.issued + 1) ⟨s.issued + 1, owner.config, true, .empty, .empty⟩ ∧
      s'.owners.get? name = some { owner with bus := some (s.issued + 1) }
  ends : ∀ ctx, ∃ s', s.perform ctx (.destroy name) = (s', .ok) ∧
    s'.owners.get? name = some { owner with bus := none } ∧
    ∀ id, owner.bus = some id → ∃ b, s'.buses.get? id = some b ∧ b.isOpen = false
  gives : ∀ ctx copy, match owner.bus with
    | none => s.perform ctx (.managedBus name copy) = (s, .flag false)
    | some id => ∃ s' b, s.perform ctx (.managedBus name copy) = (s', .flag true) ∧ s'.bus? copy = some b ∧ b.id = id

/-- A name that is given a hold of a bus refers to it. -/
theorem bus?_hold (name : String) (bus : Nat) : (s.hold name bus).bus? name = s.buses.get? bus := by
  have hcalm := Quiet.dropUnkept { s with holds := s.holds.put name ⟨bus, true⟩ }
  have hhold : (s.hold name bus).holds.get? name = some ⟨bus, true⟩ := by
    rw [hold, hcalm.holds]
    exact (Table.get?_put ..).trans (if_pos rfl)
  have hkept : { s with holds := s.holds.put name ⟨bus, true⟩ }.isKept bus :=
    isKept_eq_true_iff.2 (Or.inl ⟨_, (Table.mem_values_put ..).1, rfl, rfl⟩)
  have hkept' : (s.hold name bus).isKept bus := (hcalm.isKept bus).trans hkept
  have hsame : (s.hold name bus).buses.get? bus = s.buses.get? bus := get?_dropUnkept hkept
  simp only [bus?, hhold, Option.bind_eq_bind, Option.bind_some, hkept', if_true, hsame]

private theorem initOwner_opens (hs : s.Proper) (hempty : owner.bus = none) (hvalid : owner.config.validate = .ok ())
    (hworkers : owner.config.startWorkers = .ok ()) :
    ∃ s', s.initOwner name owner = (s', .ok) ∧ s.buses.get? (s.issued + 1) = none ∧
      s'.buses = s.buses.put (s.issued + 1) ⟨s.issued + 1, owner.config, true, .empty, .empty⟩ ∧
      s'.owners.get? name = some { owner with bus := some (s.issued + 1) } := by
  have hfresh : s.buses.get? (s.issued + 1) = none := by
    cases hb : s.buses.get? (s.issued + 1) with
    | none => rfl
    | some b => exact absurd (hs.bus _ b hb).2 (Nat.not_succ_le_self _)
  refine ⟨_, by simp only [initOwner, hempty, openBus_of_valid hvalid hworkers]; rfl, hfresh, ?_, ?_⟩
  · rw [(aside_report ..).buses]
    exact (aside_report ..).buses
  · rw [(Quiet.report ..).owners]
    exact (Table.get?_put ..).trans (if_pos rfl)

private theorem destroyOwner_empties (hs : s.Proper) (howner : s.owners.get? name = some owner)
    (hbus : ∀ id, owner.bus = some id → ∃ b, s.buses.get? id = some b) :
    (s.destroyOwner name owner).owners.get? name = some { owner with bus := none } ∧
      ∀ id, owner.bus = some id → ∃ b, (s.destroyOwner name owner).buses.get? id = some b ∧ b.isOpen = false := by
  cases hid : owner.bus with
  | none =>
    rw [destroyOwner_of_none (by rw [hid]; rfl), howner]
    refine ⟨?_, ?_⟩
    · rw [← hid]
    · intro id hid'
      cases hid'
  | some id =>
    obtain ⟨b, hb⟩ := hbus id hid
    obtain ⟨howners, hclosed⟩ := destroyOwner_of_bus hs name hid hb
    refine ⟨by rw [howners, Table.get?_put, if_pos rfl], ?_⟩
    intro id' hid'
    obtain rfl := Option.some.inj hid'
    have hacts : s.Acts .outermost (s.perform .outermost (.destroy name)).1 := acts_perform hs (.destroy name)
    simp only [perform, provided, howner, Option.elim_some] at hacts
    obtain ⟨b', hb', -⟩ := has_of_moves hs hacts.moves hb
    refine ⟨b', hb', Bool.eq_false_iff.2 fun hopen => ?_⟩
    cases hclosed.symm.trans (isRunning_eq_true_iff.2 ⟨b', hb', hopen⟩)

theorem serves (hs : s.Proper) (howner : s.owners.get? name = some owner)
    (hvalid : owner.bus ≠ none → owner.config.validate = .ok ())
    (hbus : ∀ id, owner.bus = some id → ∃ b, s.buses.get? id = some b) : s.Serves name owner := by
  have hinit (ctx : Context) : s.perform ctx (.init name) = s.initOwner name owner := by
    simp only [perform, provided, howner, Option.elim_some]
  have hdestroy (ctx : Context) : s.perform ctx (.destroy name) = (s.destroyOwner name owner, .ok) := by
    simp only [perform, provided, howner, Option.elim_some]
  refine ⟨?_, ?_, ?_, ?_, ?_, ?_⟩
  · intro hfull ctx
    obtain ⟨id, hid⟩ := Option.ne_none_iff_exists'.1 hfull
    simp only [hinit, initOwner, hid]
  · intro e he
    have hempty : owner.bus = none := by
      by_contra hfull
      cases he.symm.trans (hvalid hfull)
    refine ⟨hempty, fun ctx => ?_⟩
    simp only [hinit, initOwner, hempty, openBus_of_invalid he]
  · intro hempty hvalid c hc ctx
    simp only [hinit, initOwner, hempty, openBus_of_unstartable hvalid hc]
  · intro hempty hvalid hworkers ctx
    rw [hinit]
    exact initOwner_opens hs hempty hvalid hworkers
  · intro ctx
    obtain ⟨hslot, hclosed⟩ := destroyOwner_empties hs howner hbus
    exact ⟨_, hdestroy ctx, hslot, hclosed⟩
  · intro ctx copy
    cases hid : owner.bus with
    | none => simp only [perform, provided, howner, Option.elim_some, hid]
    | some id =>
      obtain ⟨b, hb⟩ := hbus id hid
      refine ⟨_, b, ?_, (bus?_hold copy id).trans hb, (hs.bus id b hb).1⟩
      simp only [perform, provided, howner, Option.elim_some, hid]

end Answers

end Session
end PubSub
