import Mathlib.Algebra.GroupWithZero.Nat
import Mathlib.Data.List.Nodup
import PubSub.Registry

/-!
# Rows

Each subscription is filed under its own key, once, and no two have the same id. So a look-up finds each subscription at
most once, and as many as there are under the keys together.
-/

namespace PubSub.Registry

theorem mem_lookup (r : Registry) (resolution : Resolution) (s : Subscription) (v : Option View) :
    (s, v) ∈ r.lookup resolution ↔ ∃ k, (k, v) ∈ resolution ∧ s ∈ r.row k := by
  simp only [lookup, List.mem_flatMap, List.mem_map, Prod.mk.injEq, Prod.exists]
  constructor
  · intro h
    rcases h with ⟨k, v', hk, s', hs, rfl, rfl⟩
    exact ⟨k, hk, hs⟩
  · intro h
    rcases h with ⟨k, hk, hs⟩
    exact ⟨k, v, hk, s, hs, rfl, rfl⟩

theorem length_lookup (r : Registry) (resolution : Resolution) :
    (r.lookup resolution).length = (resolution.keys.map r.count).sum := by
  simp [lookup, Resolution.keys, count, List.length_flatMap, Function.comp_def]

theorem mem_row_register {r : Registry} {key k : Key} {callback : Callback} {s : Subscription}
    (hs : s ∈ (r.register key callback).1.row k) :
    s ∈ r.row k ∨ (k = key ∧ s = ⟨r.issued + 1, key, callback⟩) := by
  rw [row_register] at hs
  split at hs
  · rename_i hnew
    rcases List.mem_append.1 hs with hs | hs
    · exact Or.inl hs
    · exact Or.inr ⟨hnew.1, List.mem_singleton.1 hs⟩
  · exact Or.inl hs

theorem mem_row_register_of_mem {r : Registry} {key k : Key} {callback : Callback} {s : Subscription}
    (hs : s ∈ r.row k) : s ∈ (r.register key callback).1.row k := by
  rw [row_register]
  split
  · exact List.mem_append_left _ hs
  · exact hs

theorem exists_of_register (r : Registry) (key : Key) (callback : Callback) :
    ∃ s ∈ (r.register key callback).1.row key, s.id = (r.register key callback).2 := by
  simp only [register]
  cases hfound : (r.row key).find? (·.callback.isSame callback) with
  | some s => exact ⟨s, List.mem_of_find?_eq_some hfound, rfl⟩
  | none =>
    refine ⟨⟨r.issued + 1, key, callback⟩, ?_, rfl⟩
    simp [row]

theorem registerAll_cons (r : Registry) (key : Key) (callback : Callback) (rest : List (Key × Callback)) :
    r.registerAll ((key, callback) :: rest) = (((r.register key callback).1.registerAll rest).1,
      (key, (r.register key callback).2) :: ((r.register key callback).1.registerAll rest).2) :=
  rfl

theorem mem_row_registerAll_of_mem {r : Registry} {bindings : List (Key × Callback)} {k : Key}
    {s : Subscription} (hs : s ∈ r.row k) : s ∈ (r.registerAll bindings).1.row k := by
  induction bindings generalizing r with
  | nil => exact hs
  | cons binding rest ih => exact ih (mem_row_register_of_mem hs)

theorem exists_of_mem_registerAll {r : Registry} {bindings : List (Key × Callback)} {e : Key × Nat}
    (he : e ∈ (r.registerAll bindings).2) : ∃ s ∈ (r.registerAll bindings).1.row e.1, s.id = e.2 := by
  induction bindings generalizing r with
  | nil => cases he
  | cons binding rest ih =>
    obtain ⟨key, callback⟩ := binding
    rw [registerAll_cons] at he ⊢
    rcases List.mem_cons.1 he with rfl | he
    · obtain ⟨s, hs, hid⟩ := r.exists_of_register key callback
      exact ⟨s, mem_row_registerAll_of_mem hs, hid⟩
    · exact ih he

theorem mem_receipt_of_new {r : Registry} {bindings : List (Key × Callback)} {k : Key} {s : Subscription}
    (hs : s ∈ (r.registerAll bindings).1.row k) (hnew : s ∉ r.row k) : (k, s.id) ∈ (r.registerAll bindings).2 := by
  induction bindings generalizing r with
  | nil => exact absurd hs hnew
  | cons binding rest ih =>
    obtain ⟨key, callback⟩ := binding
    rw [registerAll_cons] at hs ⊢
    by_cases hfirst : s ∈ (r.register key callback).1.row k
    · rcases mem_row_register hfirst with hold | ⟨rfl, rfl⟩
      · exact absurd hold hnew
      · refine List.mem_cons.2 (Or.inl ?_)
        rw [row_register] at hfirst
        split at hfirst
        · rename_i hunlike
          have hnone : (r.row k).find? (·.callback.isSame callback) = none := by
            simpa [List.find?_eq_none] using hunlike.2
          simp only [register, hnone]
        · exact absurd hfirst hnew
    · exact List.mem_cons_of_mem _ (ih hs hfirst)

theorem mem_row_registerAll {r : Registry} {bindings : List (Key × Callback)} {k : Key} {s : Subscription}
    (h : s ∈ (r.registerAll bindings).1.row k) : s ∈ r.row k ∨ r.issued < s.id := by
  induction bindings generalizing r with
  | nil => exact Or.inl h
  | cons binding rest ih =>
    have hissued := r.issued_register binding.1 binding.2
    have hrest : s ∈ ((r.register binding.1 binding.2).1.registerAll rest).1.row k := h
    rcases ih hrest with hold | hnew
    · rcases mem_row_register hold with hold | ⟨-, rfl⟩
      · exact Or.inl hold
      · exact Or.inr (Nat.lt_succ_self _)
    · exact Or.inr (by omega)

theorem issued_le_registerAll (r : Registry) (bindings : List (Key × Callback)) :
    r.issued ≤ (r.registerAll bindings).1.issued := by
  induction bindings generalizing r with
  | nil => exact Nat.le_refl _
  | cons binding rest ih =>
    have hissued := r.issued_register binding.1 binding.2
    have hrest := ih (r.register binding.1 binding.2).1
    show r.issued ≤ ((r.register binding.1 binding.2).1.registerAll rest).1.issued
    omega

theorem issued_unregister (r : Registry) (key : Key) (id : Nat) : (r.unregister key id).issued = r.issued := by
  simp only [unregister]
  split <;> rfl

structure Sound (r : Registry) : Prop where
  key : ∀ k, ∀ s ∈ r.row k, s.key = k
  issued : ∀ k, ∀ s ∈ r.row k, s.id ≤ r.issued
  once : ∀ k, ((r.row k).map Subscription.id).Nodup
  apart : ∀ k k', ∀ s ∈ r.row k, ∀ s' ∈ r.row k', s.id = s'.id → k = k'

theorem sound_empty : empty.Sound where
  key _ _ hs := by cases hs
  issued _ _ hs := by cases hs
  once _ := List.nodup_nil
  apart _ _ _ hs := by cases hs

theorem sound_clear (r : Registry) : r.clear.Sound where
  key _ _ hs := by cases hs
  issued _ _ hs := by cases hs
  once _ := List.nodup_nil
  apart _ _ _ hs := by cases hs

namespace Sound

variable {r : Registry}

theorem sublist (hr : r.Sound) {r' : Registry} (hissued : r.issued ≤ r'.issued)
    (hrow : ∀ k, (r'.row k).Sublist (r.row k)) : r'.Sound where
  key k s hs := hr.key k s ((hrow k).subset hs)
  issued k s hs := Nat.le_trans (hr.issued k s ((hrow k).subset hs)) hissued
  once k := ((hrow k).map _).nodup (hr.once k)
  apart k k' s hs s' hs' := hr.apart k k' s ((hrow k).subset hs) s' ((hrow k').subset hs')

theorem register (hr : r.Sound) (key : Key) (callback : Callback) : (r.register key callback).1.Sound where
  key k s hs := by
    rcases mem_row_register hs with hs | ⟨rfl, rfl⟩
    · exact hr.key k s hs
    · rfl
  issued k s hs := by
    rw [issued_register]
    rcases mem_row_register hs with hs | ⟨rfl, rfl⟩
    · exact Nat.le_succ_of_le (hr.issued k s hs)
    · exact Nat.le_refl _
  once k := by
    rw [row_register]
    split
    · rw [List.map_append, List.nodup_append]
      refine ⟨hr.once k, List.nodup_singleton _, ?_⟩
      intro id hid id' hid'
      obtain ⟨s, hs, rfl⟩ := List.mem_map.1 hid
      obtain rfl : id' = r.issued + 1 := by simpa using hid'
      have := hr.issued k s hs
      omega
    · exact hr.once k
  apart k k' s hs s' hs' hid := by
    rcases mem_row_register hs with hold | ⟨rfl, rfl⟩ <;> rcases mem_row_register hs' with hold' | ⟨rfl, rfl⟩
    · exact hr.apart k k' s hold s' hold' hid
    · have := hr.issued k s hold
      simp only at hid
      omega
    · have := hr.issued k' s' hold'
      simp only at hid
      omega
    · rfl

theorem registerAll (hr : r.Sound) (bindings : List (Key × Callback)) : (r.registerAll bindings).1.Sound := by
  induction bindings generalizing r with
  | nil => exact hr
  | cons binding rest ih => exact ih (hr.register binding.1 binding.2)

theorem unregister (hr : r.Sound) (key : Key) (id : Nat) : (r.unregister key id).Sound := by
  refine hr.sublist (Nat.le_of_eq (r.issued_unregister key id).symm) fun k => ?_
  rw [row_unregister]
  split
  · exact List.filter_sublist
  · exact List.Sublist.refl _

theorem eq_of_id (hr : r.Sound) {k k' : Key} {s s' : Subscription} (hs : s ∈ r.row k) (hs' : s' ∈ r.row k')
    (hid : s.id = s'.id) : s = s' := by
  obtain rfl := hr.apart k k' s hs s' hs' hid
  exact List.inj_on_of_nodup_map (hr.once k) hs hs' hid

/-- Under keys that differ, a look-up finds each subscription once. -/
theorem nodup_lookup (hr : r.Sound) {resolution : Resolution} (hk : resolution.keys.Nodup) :
    ((r.lookup resolution).map Prod.fst).Nodup := by
  have hsubscriptions : (r.lookup resolution).map Prod.fst = resolution.keys.flatMap r.row := by
    simp [lookup, Resolution.keys, List.map_flatMap, List.flatMap_map, Function.comp_def]
  rw [hsubscriptions, List.nodup_flatMap]
  refine ⟨fun k _ => List.Nodup.of_map _ (hr.once k), ?_⟩
  refine hk.imp ?_
  intro k k' hne s hs hs'
  exact hne ((hr.key k s hs).symm.trans (hr.key k' s hs'))

end Sound
end PubSub.Registry
