import PubSub.Proofs.Registry.Requests
import PubSub.Proofs.Session.Transitions

/-!
# Fates of buses

A bus that was opened stays where it is, under its id and with its configuration. It only changes in the ways of buses,
so its registry is always one that registrations and removals have made, and once it is closed nothing changes any more
but what it remembers of classes.
-/

namespace PubSub

namespace Bus

variable {b b' : Bus}

/-- What can become of a bus. -/
abbrev Becomes : Bus → Bus → Prop :=
  Relation.ReflTransGen Changes

theorem config_of_changes (h : b.Changes b') : b'.config = b.config := by
  rcases cases_of_changes h with ⟨-, ⟨bindings, rfl⟩ | ⟨entries, rfl⟩⟩ | rfl | ⟨matcher, rfl⟩ <;> rfl

namespace Becomes

theorem id (h : b.Becomes b') : b'.id = b.id := by
  induction h with
  | refl => rfl
  | tail _ h ih => exact (id_eq_of_changes h).trans ih

theorem config (h : b.Becomes b') : b'.config = b.config := by
  induction h with
  | refl => rfl
  | tail _ h ih => exact (config_of_changes h).trans ih

theorem registry (h : b.Becomes b') : b.registry.issued ≤ b'.registry.issued ∧
    ∀ k, ∀ s ∈ b'.registry.row k, s ∈ b.registry.row k ∨ b.registry.issued < s.id := by
  induction h with
  | refl => exact ⟨Nat.le_refl _, fun _ _ => Or.inl⟩
  | tail _ h ih =>
    obtain ⟨hissued, hrow⟩ := ih
    obtain ⟨hissued', hrow'⟩ := registry_of_changes h
    refine ⟨Nat.le_trans hissued hissued', ?_⟩
    intro k s hs
    rcases hrow' k s hs with hold | hnew
    · exact hrow k s hold
    · exact Or.inr (Nat.lt_of_le_of_lt hissued hnew)

end Becomes

theorem follows_removeAll {r : Registry} {calls : List (Key × Callback)} (hr : r.Follows calls)
    (entries : List (Key × Nat)) : (removeAll r entries).1.Follows calls := by
  induction entries generalizing r with
  | nil => exact hr
  | cons e entries ih => exact ih (hr.unregister e.1 e.2)

theorem follows_of_changes {calls : List (Key × Callback)} (hr : b.registry.Follows calls) (h : b.Changes b') :
    ∃ calls', b'.registry.Follows calls' := by
  rcases cases_of_changes h with ⟨-, ⟨bindings, rfl⟩ | ⟨entries, rfl⟩⟩ | rfl | ⟨matcher, rfl⟩
  · exact ⟨_, hr.registerAll bindings⟩
  · exact ⟨calls, follows_removeAll hr entries⟩
  · exact ⟨calls, hr.clear⟩
  · exact ⟨calls, hr⟩

def Shut (b : Bus) : Prop :=
  b.isOpen = false ∧ b.registry.rows = .empty

theorem shut_close (b : Bus) : b.close.Shut :=
  ⟨rfl, rfl⟩

theorem Shut.changes (hb : b.Shut) (h : b.Changes b') : b'.Shut ∧ b'.registry = b.registry := by
  obtain ⟨hclosed, hrows⟩ := hb
  rcases cases_of_changes h with ⟨hopen, -⟩ | rfl | ⟨matcher, rfl⟩
  · cases hopen.symm.trans hclosed
  · refine ⟨b.shut_close, ?_⟩
    rw [close, Registry.clear, ← hrows]
  · exact ⟨⟨hclosed, hrows⟩, rfl⟩

theorem Shut.becomes (hb : b.Shut) (h : b.Becomes b') : b'.Shut ∧ b'.registry = b.registry := by
  induction h with
  | refl => exact ⟨hb, rfl⟩
  | tail _ h ih =>
    obtain ⟨hshut, hsame⟩ := ih.1.changes h
    exact ⟨hshut, hsame.trans ih.2⟩

theorem isOpen_of_start {id : Nat} {config : Config} (h : start id config = .ok b) : b.isOpen := by
  simp only [start] at h
  split at h
  · cases h
    rfl
  · cases h

end Bus

namespace Session

variable {s s' : Session} {id : Nat} {b : Bus}

def Has (s : Session) (id : Nat) (b : Bus) : Prop :=
  ∃ b', s.buses.get? id = some b' ∧ b.Becomes b'

theorem Has.trans (h : s.Has id b) (hlater : ∀ b', s.buses.get? id = some b' → s'.Has id b') : s'.Has id b := by
  obtain ⟨b', hb', hbecomes⟩ := h
  obtain ⟨b'', hb'', hbecomes'⟩ := hlater b' hb'
  exact ⟨b'', hb'', hbecomes.trans hbecomes'⟩

theorem has_of_same (hbuses : s'.buses = s.buses) (hb : s.buses.get? id = some b) : s'.Has id b :=
  ⟨b, hbuses ▸ hb, .refl⟩

private theorem has_putBus {b₀ b₁ : Bus} (hb₀ : s.buses.get? b₀.id = some b₀) (h : b₀.Changes b₁)
    (hb : s.buses.get? id = some b) : (s.putBus b₁).Has id b := by
  by_cases hid : id = b₀.id
  · subst hid
    obtain rfl := Option.some.inj (hb₀.symm.trans hb)
    exact ⟨b₁, (Table.get?_put ..).trans (if_pos (Bus.id_eq_of_changes h).symm), .single h⟩
  · refine ⟨b, ?_, .refl⟩
    exact ((Table.get?_put ..).trans (if_neg ((Bus.id_eq_of_changes h).symm ▸ hid))).trans hb

private theorem has_effect (hs : s.Proper) (h : Effect s s') (hb : s.buses.get? id = some b) : s'.Has id b := by
  cases h with
  | aside h => exact has_of_same h.buses hb
  | declared | flagged => exact ⟨b, hb, .refl⟩
  | opened h =>
    have hold := (hs.bus id b hb).2
    have hne : id ≠ s.issued + 1 := by omega
    exact ⟨b, ((Table.get?_put ..).trans (if_neg (Bus.id_of_start h ▸ hne))).trans hb, .refl⟩
  | changed hb₀ h => exact has_putBus hb₀ h hb
  | interrupted => exact has_of_same (finish_frame ..).2.2.1 hb

private theorem has_publishes {ctx : Context} {publication : Nat} (h : s.Publishes ctx s' publication)
    (hb : s.buses.get? id = some b) : s'.Has id b := by
  cases h with
  | refused => exact ⟨b, hb, .refl⟩
  | @planned b₀ e d s₁ hb₀ hd haside =>
    obtain ⟨b', hb', hbecomes⟩ := has_putBus hb₀ (.published hd) hb
    refine ⟨b', ?_, hbecomes⟩
    rw [← haside.buses] at hb'
    cases d.plan with
    | refused error => exact hb'
    | scheduled event ts => exact (schedule_frame ctx b₀.id event s₁ ts).1 ▸ hb'

theorem has_of_move (hs : s.Proper) (h : Move s s') (hb : s.buses.get? id = some b) : s'.Has id b := by
  cases h with
  | effect h => exact has_effect hs h hb
  | publish h => exact has_publishes h hb
  | progress _ h =>
    cases h with
    | parked | called | wentOn | left | awaited => exact ⟨b, hb, .refl⟩
    | published _ _ h =>
      obtain ⟨b', hb', hbecomes⟩ := has_publishes h hb
      exact ⟨b', hb', hbecomes⟩
    | finished => exact has_of_same (finish_frame ..).2.2.1 hb

theorem has_of_moves (hs : s.Proper) (h : Moves s s') (hb : s.buses.get? id = some b) : s'.Has id b := by
  induction h with
  | refl => exact ⟨b, hb, .refl⟩
  | tail hprior h ih => exact ih.trans fun _ => has_of_move (hs.moves hprior) h

private theorem forall_bus {tracing : Bool} {P : Bus → Prop}
    (hstart : ∀ id config b, Bus.start id config = .ok b → P b) (hchanges : ∀ b b', b.Changes b' → P b → P b')
    (h : Moves (start tracing) s) (hb : s.buses.get? id = some b) : P b := by
  refine forall_bus_of_moves hstart hchanges (proper_start tracing) ?_ h id b hb
  intro id b hb
  cases hb

theorem follows_of_moves {tracing : Bool} (h : Moves (start tracing) s) (hb : s.buses.get? id = some b) :
    ∃ calls, b.registry.Follows calls := by
  refine forall_bus (P := fun b => ∃ calls, b.registry.Follows calls) ?_ ?_ h hb
  · intro id config b hstart
    rw [Bus.registry_of_start hstart]
    exact ⟨[], Registry.follows_empty⟩
  · intro b b' hchanges hfollows
    obtain ⟨calls, hcalls⟩ := hfollows
    exact Bus.follows_of_changes hcalls hchanges

theorem Reachable.follows (h : s.Reachable) (hb : s.buses.get? id = some b) : ∃ calls, b.registry.Follows calls := by
  obtain ⟨tracing, h⟩ := h
  exact follows_of_moves (moves_of_transitions (proper_start tracing) h) hb

/-- Whoever closed a bus has cleared its registry. -/
theorem Reachable.shut (h : s.Reachable) (hb : s.buses.get? id = some b) (hclosed : b.isOpen = false) : b.Shut := by
  obtain ⟨tracing, h⟩ := h
  refine forall_bus (P := fun b => b.isOpen = false → b.Shut) ?_ ?_
    (moves_of_transitions (proper_start tracing) h) hb hclosed
  · intro id config b hstart hclosed
    rw [Bus.isOpen_of_start hstart] at hclosed
    cases hclosed
  · intro b b' hchanges hshut hclosed'
    rcases Bus.cases_of_changes hchanges with ⟨hopen, ⟨bindings, rfl⟩ | ⟨entries, rfl⟩⟩ | rfl | ⟨matcher, rfl⟩
    · cases hopen.symm.trans hclosed'
    · cases hopen.symm.trans hclosed'
    · exact b.shut_close
    · exact hshut hclosed'

end Session
end PubSub
