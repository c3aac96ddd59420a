import PubSub.Descriptor
import PubSub.Proofs.Lookup

/-!
# First entries

Of several entries for one key, the first one counts. So a list without its later entries looks up like the whole
list, and has each key once.
-/

namespace PubSub

variable {α : Type}

theorem freshEntries_congr {seen seen' : List Key} (h : ∀ k, k ∈ seen ↔ k ∈ seen') (es : List (Key × α)) :
    freshEntries seen es = freshEntries seen' es := by
  induction es generalizing seen seen' with
  | nil => rfl
  | cons e es ih =>
    by_cases he : e.1 ∈ seen
    · have he' : e.1 ∈ seen' := (h e.1).1 he
      simp only [freshEntries, he, he', if_true]
      exact ih h
    · have he' : e.1 ∉ seen' := fun hm => he ((h e.1).2 hm)
      have hcons : ∀ k, k ∈ e.1 :: seen ↔ k ∈ e.1 :: seen' := by
        intro k
        simp only [List.mem_cons, h k]
      simp only [freshEntries, he, he', if_false]
      rw [ih hcons]

theorem freshEntries_append (seen : List Key) (es fs : List (Key × α)) :
    freshEntries seen (es ++ fs) = freshEntries seen es ++ freshEntries (es.map Prod.fst ++ seen) fs := by
  induction es generalizing seen with
  | nil => rfl
  | cons e es ih =>
    by_cases he : e.1 ∈ seen
    · simp only [List.cons_append, freshEntries, he, if_true, ih, List.map_cons]
      congr 1
      apply freshEntries_congr
      intro k
      simp only [List.mem_cons, List.mem_append]
      constructor
      · exact Or.inr
      · intro h
        rcases h with rfl | hk
        · exact Or.inr he
        · exact hk
    · simp only [List.cons_append, freshEntries, he, if_false, ih, List.map_cons]
      congr 2
      apply freshEntries_congr
      intro k
      simp only [List.mem_cons, List.mem_append]
      tauto

theorem lookup_freshEntries (seen : List Key) (es : List (Key × α)) (k : Key) :
    (freshEntries seen es).lookup k = if k ∈ seen then none else es.lookup k := by
  induction es generalizing seen with
  | nil => simp [freshEntries]
  | cons e es ih =>
    by_cases he : e.1 ∈ seen
    · have hk : k ∉ seen → k ≠ e.1 := fun hn heq => hn (heq ▸ he)
      simp only [freshEntries, he, if_true, ih, Table.lookup_cons_eq_ite]
      by_cases hs : k ∈ seen
      · simp [hs]
      · simp [hs, hk hs]
    · simp only [freshEntries, he, if_false, Table.lookup_cons_eq_ite, ih, List.mem_cons]
      by_cases hk : k = e.1
      · simp [hk, he]
      · simp [hk]

theorem mem_keys_freshEntries (seen : List Key) (es : List (Key × α)) (k : Key) :
    k ∈ (freshEntries seen es).map Prod.fst ↔ k ∈ es.map Prod.fst ∧ k ∉ seen := by
  rw [mem_keys_iff_lookup, mem_keys_iff_lookup, lookup_freshEntries]
  by_cases h : k ∈ seen <;> simp [h]

theorem nodup_keys_freshEntries (seen : List Key) (es : List (Key × α)) :
    ((freshEntries seen es).map Prod.fst).Nodup := by
  induction es generalizing seen with
  | nil => exact List.nodup_nil
  | cons e es ih =>
    by_cases he : e.1 ∈ seen
    · simp only [freshEntries, he, if_true]
      exact ih seen
    · simp only [freshEntries, he, if_false, List.map_cons]
      refine List.nodup_cons.mpr ⟨?_, ih _⟩
      intro hm
      exact ((mem_keys_freshEntries _ _ _).1 hm).2 (List.mem_cons_self ..)

/-- Which entries are kept depends on their keys alone. -/
theorem map_fst_freshEntries_congr {β : Type} (seen : List Key) {es : List (Key × α)} {fs : List (Key × β)}
    (h : es.map Prod.fst = fs.map Prod.fst) :
    (freshEntries seen es).map Prod.fst = (freshEntries seen fs).map Prod.fst := by
  induction es generalizing seen fs with
  | nil =>
    obtain rfl : fs = [] := List.map_eq_nil_iff.1 h.symm
    rfl
  | cons e es ih =>
    cases fs with
    | nil => simp at h
    | cons f fs =>
      rw [List.map_cons, List.map_cons, List.cons.injEq] at h
      by_cases hf : f.1 ∈ seen
      · simp only [freshEntries, h.1, hf, if_true]
        exact ih seen h.2
      · simp only [freshEntries, h.1, hf, if_false, List.map_cons]
        rw [ih _ h.2]

end PubSub
