import PubSub.Proofs.Buses
import PubSub.Proofs.Registry.Requests

/-!
# Removal

What the entries of a handle remove. An entry names a subscription by its key and its id, and as the id stands for no
other subscription, ever, neither does the entry.
-/

namespace PubSub

namespace Registry

variable {r r' : Registry} {calls : List (Key × Callback)} {entries : List (Key × Nat)}

/-- The entries name subscriptions of this registry, or ones that it has had. -/
def Names (r : Registry) (entries : List (Key × Nat)) : Prop :=
  ∀ e ∈ entries, e.2 ≤ r.issued ∧ ∀ k, ∀ s ∈ r.row k, s.id = e.2 → k = e.1

theorem Names.later (h : r.Names entries) (hissued : r.issued ≤ r'.issued)
    (hrow : ∀ k, ∀ s ∈ r'.row k, s ∈ r.row k ∨ r.issued < s.id) : r'.Names entries := by
  intro e he
  obtain ⟨hid, hkey⟩ := h e he
  refine ⟨Nat.le_trans hid hissued, ?_⟩
  intro k s hs hsame
  rcases hrow k s hs with hold | hnew
  · exact hkey k s hold hsame
  · omega

section Removing

theorem row_removeAll (r : Registry) (entries : List (Key × Nat)) (k : Key) :
    (Bus.removeAll r entries).1.row k = (r.row k).filter fun s => (k, s.id) ∉ entries := by
  induction entries generalizing r with
  | nil => simp [Bus.removeAll]
  | cons e entries ih =>
    show (Bus.removeAll (r.unregister e.1 e.2) entries).1.row k = _
    rw [ih, row_unregister]
    split
    · obtain rfl : k = e.1 := ‹_›
      rw [List.filter_filter]
      apply List.filter_congr
      intro s _
      simp [Prod.ext_iff, Bool.and_comm]
    · rename_i hkey
      apply List.filter_congr
      intro s _
      simp [Prod.ext_iff, hkey]

theorem Names.row_removeAll (h : r.Names entries) (k : Key) :
    (Bus.removeAll r entries).1.row k = (r.row k).filter fun s => s.id ∉ entries.map Prod.snd := by
  rw [Registry.row_removeAll]
  apply List.filter_congr
  intro s hs
  congr 2
  rw [eq_iff_iff, List.mem_map]
  constructor
  · intro he
    exact ⟨_, he, rfl⟩
  · rintro ⟨e, he, hid⟩
    obtain rfl := (h e he).2 k s hs hid.symm
    exact hid ▸ he

theorem Follows.unregister_of_absent (hr : r.Follows calls) {key : Key} {id : Nat}
    (habsent : ∀ s ∈ r.row key, s.id ≠ id) : r.unregister key id = r := by
  have hrow : (r.row key).filter (·.id ≠ id) = r.row key := by
    rw [List.filter_eq_self]
    intro s hs
    exact decide_eq_true (habsent s hs)
  have hnonempty := hr.nonempty key
  rw [Registry.unregister, hrow]
  cases hget : r.rows.get? key with
  | none =>
    have hempty : r.row key = [] := by rw [row, hget]; rfl
    rw [hempty]
    simp only [Table.erase_of_get? hget]
  | some row =>
    have hsome : r.row key = row := by rw [Registry.row, hget]; rfl
    rw [hget] at hnonempty
    rw [hsome]
    cases row with
    | nil => exact absurd rfl hnonempty
    | cons s rest => simp only [Table.put_of_get? hget]

theorem Follows.removeAll_of_absent (hr : r.Follows calls) (habsent : ∀ e ∈ entries, ∀ s ∈ r.row e.1, s.id ≠ e.2) :
    Bus.removeAll r entries = (r, []) := by
  induction entries with
  | nil => rfl
  | cons e entries ih =>
    have hfirst := habsent e (List.mem_cons_self ..)
    have hrest := ih fun e' he' => habsent e' (List.mem_cons_of_mem _ he')
    have hcontains : r.contains e.1 e.2 = false := by
      rw [contains, List.any_eq_false]
      intro s hs
      simpa using hfirst s hs
    rw [Bus.removeAll, hr.unregister_of_absent hfirst, hrest, hcontains]
    rfl

end Removing

section Receipts

private theorem row_registerAll (hr : r.Follows calls) (bindings : List (Key × Callback)) (k : Key) :
    ∃ new, (r.registerAll bindings).1.row k = r.row k ++ new ∧ ∀ s ∈ new, (k, s.id) ∈ (r.registerAll bindings).2 := by
  induction bindings generalizing r calls with
  | nil => exact ⟨[], (List.append_nil _).symm, by simp⟩
  | cons binding rest ih =>
    obtain ⟨key, callback⟩ := binding
    obtain ⟨new, hnew, hreceipt⟩ := ih (hr.register key callback)
    rw [registerAll_cons, hnew]
    have hlater : ∀ s ∈ new, (k, s.id) ∈ (key, (r.register key callback).2)
        :: ((r.register key callback).1.registerAll rest).2 := fun s hs => List.mem_cons_of_mem _ (hreceipt s hs)
    rcases hr.register_cases key callback with ⟨s, -, -, hfound⟩ | hfresh
    · refine ⟨new, ?_, hlater⟩
      rw [hfound]
      rfl
    · rw [row_of_register_new hfresh]
      split
      · obtain rfl : k = key := ‹_›
        refine ⟨⟨r.issued + 1, k, callback⟩ :: new, by simp, ?_⟩
        intro s hs
        rcases List.mem_cons.1 hs with rfl | hs
        · rw [register_of_new hfresh]
          exact List.mem_cons_self ..
        · exact hlater s hs
      · exact ⟨new, rfl, hlater⟩

theorem Follows.names_registerAll (hr : r.Follows calls) (bindings : List (Key × Callback)) :
    (r.registerAll bindings).1.Names (r.registerAll bindings).2 := by
  have hr' := hr.registerAll bindings
  have hself : (r.registerAll bindings).1.Follows (calls ++ bindings ++ []) := by simpa using hr'
  intro e he
  obtain ⟨s, hs, hid⟩ := exists_of_mem_registerAll he
  refine ⟨?_, ?_⟩
  · rw [hr'.issued, ← hid]
    exact hr'.id_le hs
  · intro k s' hs' hid'
    obtain rfl := hr'.eq_of_id hself hs hs' (hid.trans hid'.symm)
    exact (hr'.made k s hs').1.symm.trans (hr'.made e.1 s hs).1

private theorem new_of_mem_registerAll (hr : r.Follows calls) {bindings : List (Key × Callback)} {old : Nat}
    (hold : old ≤ r.issued)
    (hnew : ∀ e ∈ bindings, ∀ s ∈ r.row e.1, s.callback.isSame e.2 → old < s.id) {e : Key × Nat}
    (he : e ∈ (r.registerAll bindings).2) : old < e.2 := by
  induction bindings generalizing r calls with
  | nil => cases he
  | cons binding rest ih =>
    obtain ⟨key, callback⟩ := binding
    rw [registerAll_cons] at he
    rcases List.mem_cons.1 he with rfl | he
    · rcases hr.register_cases key callback with ⟨s, hs, hsame, hfound⟩ | hfresh
      · rw [hfound]
        exact hnew _ (List.mem_cons_self ..) s hs hsame
      · rw [register_of_new hfresh]
        exact Nat.lt_succ_of_le hold
    · refine ih (hr.register key callback) ?_ ?_ he
      · rw [issued_register]
        exact Nat.le_succ_of_le hold
      · intro e' he' s hs hsame
        rcases mem_row_register hs with hs | ⟨-, rfl⟩
        · exact hnew e' (List.mem_cons_of_mem _ he') s hs hsame
        · exact Nat.lt_succ_of_le hold

/-- Registering new callbacks and removing what is on the receipt leaves each row as it was. -/
theorem Follows.row_of_undone (hr : r.Follows calls) {bindings : List (Key × Callback)}
    (hnew : ∀ e ∈ bindings, ∀ s ∈ r.row e.1, ¬ s.callback.isSame e.2) (k : Key) :
    (Bus.removeAll (r.registerAll bindings).1 (r.registerAll bindings).2).1.row k = r.row k := by
  obtain ⟨new, hrow, hreceipt⟩ := row_registerAll hr bindings k
  rw [Registry.row_removeAll, hrow, List.filter_append]
  -- ids on the receipt are new, also where the bindings repeat a callback
  have hkept : (r.row k).filter (fun s => (k, s.id) ∉ (r.registerAll bindings).2) = r.row k := by
    rw [List.filter_eq_self]
    intro s hs
    rw [decide_eq_true_eq]
    intro he
    have hlater : r.issued < s.id :=
      new_of_mem_registerAll hr (Nat.le_refl _) (fun e he s hs hsame => absurd hsame (hnew e he s hs)) he
    have := hr.id_le hs
    have := hr.issued
    omega
  have hgone : new.filter (fun s => (k, s.id) ∉ (r.registerAll bindings).2) = [] := by
    rw [List.filter_eq_nil_iff]
    intro s hs
    simpa using hreceipt s hs
  rw [hkept, hgone, List.append_nil]

end Receipts

end Registry
end PubSub
