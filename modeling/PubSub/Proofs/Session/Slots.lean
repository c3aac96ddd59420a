import PubSub.Proofs.Session.Running

/-!
# Slots of owners

A slot is only ever filled with a new bus, so no two owners have the same one, and the bus in a slot goes on running
until somebody closes it under one of its names.
-/

namespace PubSub.Session

variable {s s' : Session} {name name' : String} {bus : Nat}

def slot? (s : Session) (name : String) : Option Nat :=
  (s.owners.get? name).bind Owner.bus

theorem slot?_congr (h : s'.owners = s.owners) (name : String) : s'.slot? name = s.slot? name := by
  simp only [slot?, h]

theorem slot?_of_put {owner : Owner} (h : s'.owners = s.owners.put name' owner) (name : String) :
    s'.slot? name = if name = name' then owner.bus else s.slot? name := by
  simp only [slot?, h, Table.get?_put]
  split <;> rfl

theorem isKept_of_slot? (h : s.slot? name = some bus) : s.isKept bus := by
  obtain ⟨owner, howner, hbus⟩ := Option.bind_eq_some_iff.1 h
  exact isKept_eq_true_iff.2 (Or.inr ⟨owner, List.mem_map.2 ⟨_, Table.mem_entries_of_get? howner, rfl⟩, hbus⟩)

section Assigning

/-- What can happen to the owners: to none of them anything, or one gets an empty slot, or one a new bus that runs. -/
inductive Assigns (s s' : Session) : Prop
  | same (h : s'.owners = s.owners)
  | emptied {name : String} {config : Config} (h : s'.owners = s.owners.put name ⟨config, none⟩)
  | filled {name : String} {config : Config} {bus : Nat} (h : s'.owners = s.owners.put name ⟨config, some bus⟩)
    (hnew : s.issued < bus) (hrunning : s'.isRunning bus)

private theorem assigns_provided {α : Type} {found : Option α} {act : α → Session × Answer}
    (hact : ∀ a, found = some a → s.Assigns (act a).1) : s.Assigns (s.provided found act).1 :=
  provided_cases (motive := fun r => s.Assigns r.1) (.same rfl) hact

private theorem assigns_initOwner (name : String) (owner : Owner) : s.Assigns (s.initOwner name owner).1 := by
  simp only [initOwner]
  split
  · exact .same rfl
  · cases ho : s.openBus owner.config with
    | error answer => exact .same rfl
    | ok r =>
      obtain ⟨s₁, b⟩ := r
      obtain ⟨-, hb, hbuses⟩ := opened_of_openBus ho
      refine .filled (?_ : _ = s.owners.put name ⟨owner.config, some b.id⟩) ?_ ?_
      · rw [(Quiet.report ..).owners]
        simp only
        rw [(openBus_frame ho).2.1]
      · rw [hb]
        exact Nat.lt_succ_self _
      · rw [isRunning_congr (aside_report ..).buses]
        refine isRunning_eq_true_iff.2 ⟨b, ?_, by rw [hb]⟩
        simp only
        rw [hbuses, Table.get?_put, if_pos rfl]

private theorem assigns_destroyOwner (hs : s.Proper) (name : String) (owner : Owner) :
    s.Assigns (s.destroyOwner name owner) := by
  cases hb : owner.bus.bind s.buses.get? with
  | none =>
    rw [destroyOwner_of_none hb]
    exact .same rfl
  | some b =>
    obtain ⟨id, hbus, hid⟩ := Option.bind_eq_some_iff.1 hb
    exact .emptied (destroyOwner_of_bus hs name hbus hid).1

theorem assigns_perform (hs : s.Proper) (ctx : Context) (command : Command) :
    s.Assigns (s.perform ctx command).1 := by
  by_cases hreassigns : command.reassigns
  swap
  · exact .same (Calm.perform hs ctx (Bool.eq_false_iff.2 hreassigns)).owners
  cases command with
  | openBus name base settings =>
    simp only [perform]
    cases ho : s.openBus (settings.foldl Config.set base) with
    | error answer => exact .same rfl
    | ok r => exact .same ((owners_hold ..).trans (openBus_frame ho).2.1)
  | clone name copy => exact assigns_provided fun b _ => .same (owners_hold ..)
  | drop name =>
    refine assigns_provided fun hold _ => ?_
    simp only [dropName]
    split
    · exact .same (Quiet.dropUnkept _).owners
    · exact .same rfl
  | managed name config => exact .emptied (Quiet.dropUnkept _).owners
  | init name => exact assigns_provided fun owner _ => assigns_initOwner name owner
  | destroy name => exact assigns_provided fun owner _ => assigns_destroyOwner hs name owner
  | managedBus name copy =>
    refine assigns_provided fun owner _ => ?_
    cases owner.bus with
    | none => exact .same rfl
    | some id => exact .same (owners_hold ..)
  | _ => cases hreassigns

theorem assigns_transition (hs : s.Proper) (h : Transition s s') : s.Assigns s' := by
  cases h with
  | perform command => exact assigns_perform hs _ command
  | publish h => exact .same (Quiet.publish hs h).owners
  | watch publication => exact .same (Quiet.watch s publication).owners
  | define | take | gather | reallocate => exact .same rfl
  | step h =>
    rcases quiet_or_request_of_step hs h with h | ⟨i, command, next, -, -, rfl⟩
    · exact .same h.owners
    · cases assigns_perform hs i.context command with
      | same h => exact .same h
      | emptied h => exact .emptied h
      | filled h hnew hrunning => exact .filled h hnew hrunning

theorem Assigns.slot? (h : s.Assigns s') (hslot : s'.slot? name = some bus) :
    s.slot? name = some bus ∨ s.issued < bus ∧ s'.isRunning bus := by
  cases h with
  | same h => exact Or.inl (slot?_congr h name ▸ hslot)
  | emptied h =>
    rw [slot?_of_put h] at hslot
    split at hslot
    · cases hslot
    · exact Or.inl hslot
  | filled h hnew hrunning =>
    rw [slot?_of_put h] at hslot
    split at hslot
    · obtain rfl := Option.some.inj hslot
      exact Or.inr ⟨hnew, hrunning⟩
    · exact Or.inl hslot

end Assigning

section Apart

/-- No two owners have the same bus, and none has one that is yet to be opened. -/
structure Apart (s : Session) : Prop where
  issued : ∀ name bus, s.slot? name = some bus → bus ≤ s.issued
  unique : ∀ name name' bus, s.slot? name = some bus → s.slot? name' = some bus → name = name'

theorem Apart.next (h : s.Apart) (hs' : s'.Proper) (hissued : s.issued ≤ s'.issued) (hassigns : s.Assigns s') :
    s'.Apart := by
  refine ⟨?_, ?_⟩
  · intro name bus hslot
    rcases hassigns.slot? hslot with hbefore | ⟨-, hrunning⟩
    · exact Nat.le_trans (h.issued name bus hbefore) hissued
    · obtain ⟨b, hb, -⟩ := isRunning_eq_true_iff.1 hrunning
      exact (hs'.bus bus b hb).2
  · intro name name' bus hslot hslot'
    cases hassigns with
    | same h' =>
      rw [slot?_congr h'] at hslot hslot'
      exact h.unique name name' bus hslot hslot'
    | emptied h' =>
      rw [slot?_of_put h'] at hslot hslot'
      split at hslot
      · cases hslot
      · split at hslot'
        · cases hslot'
        · exact h.unique name name' bus hslot hslot'
    | @filled filled _ new h' hnew _ =>
      have hold (name : String) (hslot : s.slot? name = some new) : False := by
        have := h.issued name new hslot
        omega
      rw [slot?_of_put h'] at hslot hslot'
      split at hslot <;> split at hslot'
      · exact (‹name = filled›).trans (‹name' = filled›).symm
      · exact (hold name' (hslot'.trans hslot.symm)).elim
      · exact (hold name (hslot.trans hslot'.symm)).elim
      · exact h.unique name name' bus hslot hslot'

theorem Reachable.apart (h : s.Reachable) : s.Apart := by
  obtain ⟨tracing, h⟩ := h
  induction h with
  | refl =>
    refine ⟨?_, ?_⟩
    · intro name bus hslot
      cases hslot
    · intro name name' bus hslot
      cases hslot
  | tail hprior ht ih =>
    have hs := Reachable.proper ⟨tracing, hprior⟩
    have hmoves := moves_of_transition hs ht
    exact ih.next (hs.moves hmoves) (Extends.moves hs hmoves).issued (assigns_transition hs ht)

end Apart

section Closing

/-- A bus is asked to close under one of its names, by the program or by a listener. -/
inductive AskedToClose (bus : Nat) : Session → Session → Prop
  | program {s : Session} {name : String} {b : Bus} (hb : s.bus? name = some b) (hid : b.id = bus) :
    AskedToClose bus s (s.perform .outermost (.close name)).1
  | listener {s s' : Session} {id : Nat} {i : Invocation} {name : String} {next : Answer → Behaviour} {b : Bus}
      (hi : s.invocations.get? id = some i) (hrest : i.rest? = some (.request (.close name) next))
      (hb : s.bus? name = some b) (hid : b.id = bus) (h : s.step id = some s') : AskedToClose bus s s'

private theorem not_running_close (hs : s.Proper) {b : Bus} (hb : s.bus? name = some b) (ctx : Context) :
    (s.perform ctx (.close name)).1.isRunning b.id = false := by
  simp only [perform, provided, hb, Option.elim_some]
  exact not_running_closeBus (get?_of_bus? hs hb)

theorem AskedToClose.exists_bus (hs : s.Proper) (h : AskedToClose bus s s') : ∃ b, s.buses.get? bus = some b := by
  cases h with
  | program hb hid => exact ⟨_, hid ▸ get?_of_bus? hs hb⟩
  | listener _ _ hb hid _ => exact ⟨_, hid ▸ get?_of_bus? hs hb⟩

theorem AskedToClose.not_running (hs : s.Proper) (h : AskedToClose bus s s') : s'.isRunning bus = false := by
  cases h with
  | program hb hid => exact hid ▸ not_running_close hs hb _
  | @listener _ id i name next b hi hrest hb hid h =>
    have hstep : s.step id = some ((s.perform i.context (.close name)).1.putInvocation id
        (i.goOn (next (s.perform i.context (.close name)).2))) := by
      simp only [step, hi, proceed, hrest, advance]
    obtain rfl := Option.some.inj (hstep.symm.trans h)
    exact hid ▸ not_running_close hs hb i.context

private theorem running_or_close (hs : s.Proper) (hapart : s.Apart) (ctx : Context) {command : Command}
    (hbefore : s.slot? name = some bus) (hafter : (s.perform ctx command).1.slot? name = some bus)
    (hrunning : s.isRunning bus) :
    (s.perform ctx command).1.isRunning bus ∨
      ∃ copy b, command = .close copy ∧ s.bus? copy = some b ∧ b.id = bus := by
  by_cases hends : s.EndsBus bus command
  swap
  · exact Or.inl (running_perform hs ctx hrunning (isKept_of_slot? hafter) hends)
  cases hends with
  | close hb hid => exact Or.inr ⟨_, _, rfl, hb, hid⟩
  | @destroy other owner howner hbus =>
    -- the other owner is this one, and would have emptied its slot
    obtain rfl := hapart.unique name other bus hbefore (by rw [Session.slot?, howner]; exact hbus)
    obtain ⟨b, hb, -⟩ := isRunning_eq_true_iff.1 hrunning
    simp only [perform, provided, howner, Option.elim_some] at hafter
    rw [slot?_of_put (destroyOwner_of_bus hs name hbus hb).1, if_pos rfl] at hafter
    cases hafter

/-- A bus that stays in a slot goes on running, unless it is asked to close. -/
theorem running_or_askedToClose (hs : s.Reachable) (ht : Transition s s') (hbefore : s.slot? name = some bus)
    (hafter : s'.slot? name = some bus) (hrunning : s.isRunning bus) : s'.isRunning bus ∨ AskedToClose bus s s' := by
  cases ht with
  | perform command =>
    rcases running_or_close hs.proper hs.apart _ hbefore hafter hrunning with hon | ⟨copy, b, rfl, hb, hid⟩
    · exact Or.inl hon
    · exact Or.inr (.program hb hid)
  | publish h => exact Or.inl ((congrFun (isRunning_publish hs.proper h) bus).trans hrunning)
  | watch publication => exact Or.inl ((isRunning_congr (buses_watch s publication)).trans hrunning)
  | define | take | gather | reallocate => exact Or.inl hrunning
  | step h =>
    rcases isRunning_or_request_of_step hs.proper h with hsame | ⟨i, command, next, hi, hrest, rfl⟩
    · exact Or.inl ((congrFun hsame bus).trans hrunning)
    · rcases running_or_close hs.proper hs.apart _ hbefore hafter hrunning with hon | ⟨copy, b, rfl, hb, hid⟩
      · exact Or.inl hon
      · exact Or.inr (.listener hi hrest hb hid h)

end Closing

end PubSub.Session
