import Mathlib.Data.List.Nodup
import PubSub.Table

/-!
# Looking up entries

A list of entries in which no key occurs twice holds just what can be looked up in it.
-/

namespace PubSub

variable {α β : Type} [DecidableEq α]

theorem mem_keys_iff_lookup (es : List (α × β)) (a : α) :
    a ∈ es.map Prod.fst ↔ ∃ b, es.lookup a = some b := by
  induction es with
  | nil => simp
  | cons e es ih =>
    rw [List.map_cons, List.mem_cons, Table.lookup_cons_eq_ite, ih]
    by_cases h : a = e.1 <;> simp [h]

theorem lookup_eq_some_iff_mem {es : List (α × β)} (h : (es.map Prod.fst).Nodup) (a : α) (b : β) :
    es.lookup a = some b ↔ (a, b) ∈ es := by
  induction es with
  | nil => simp
  | cons e es ih =>
    rw [List.map_cons, List.nodup_cons] at h
    obtain ⟨hn, ht⟩ := h
    rw [Table.lookup_cons_eq_ite, List.mem_cons]
    by_cases ha : a = e.1
    · have hnot : (e.1, b) ∉ es := fun hm => hn (List.mem_map.2 ⟨_, hm, rfl⟩)
      subst ha
      simp [Prod.ext_iff, hnot, eq_comm]
    · simp [Prod.ext_iff, ha, ih ht]

theorem lookup_map_snd {γ : Type} (es : List (α × β)) (g : β → γ) (a : α) :
    (es.map fun e => (e.1, g e.2)).lookup a = (es.lookup a).map g := by
  induction es with
  | nil => rfl
  | cons e es ih =>
    rw [List.map_cons, Table.lookup_cons_eq_ite, Table.lookup_cons_eq_ite, ih]
    by_cases h : a = e.1 <;> simp [h]

theorem lookup_flatMap {γ : Type} (cs : List γ) (f : γ → List (α × β)) (a : α) :
    (cs.flatMap f).lookup a = cs.findSome? fun c => (f c).lookup a := by
  induction cs with
  | nil => rfl
  | cons c cs ih =>
    rw [List.flatMap_cons, List.lookup_append, ih, List.findSome?_cons]
    cases (f c).lookup a <;> rfl

theorem lookup_map_const (as : List α) (b : β) (a : α) :
    (as.map (·, b)).lookup a = if a ∈ as then some b else none := by
  induction as with
  | nil => rfl
  | cons c as ih =>
    rw [List.map_cons, Table.lookup_cons_eq_ite, ih]
    by_cases h : a = c <;> simp [h]

theorem lookup_map_eq_findSome? {γ : Type} (cs : List γ) (f : γ → α) (g : γ → β) (a : α) :
    (cs.map fun c => (f c, g c)).lookup a = cs.findSome? fun c => if a = f c then some (g c) else none := by
  induction cs with
  | nil => rfl
  | cons c cs ih =>
    rw [List.map_cons, Table.lookup_cons_eq_ite, List.findSome?_cons, ih]
    by_cases h : a = f c <;> simp [h]

theorem findSome?_congr {α β : Type} {f g : α → Option β} {as : List α} (h : ∀ a ∈ as, f a = g a) :
    as.findSome? f = as.findSome? g := by
  induction as with
  | nil => rfl
  | cons a as ih =>
    rw [List.findSome?_cons, List.findSome?_cons, h a (List.mem_cons_self ..),
      ih fun a ha => h a (List.mem_cons_of_mem _ ha)]

theorem findSome?_zipIdx {α β : Type} (f : α → Option β) (as : List α) :
    (as.zipIdx.findSome? fun e => f e.1) = as.findSome? f := by
  conv => rhs; rw [← List.zipIdx_map_fst 0 as, List.findSome?_map]
  rfl

/-- Of the elements with a property there is a first one. -/
theorem exists_first {α : Type} (P : α → Prop) {as : List α} (h : ∃ a ∈ as, P a) :
    ∃ before a after, as = before ++ a :: after ∧ P a ∧ ∀ b ∈ before, ¬ P b := by
  induction as with
  | nil => simp at h
  | cons c as ih =>
    by_cases hc : P c
    · exact ⟨[], c, as, rfl, hc, by simp⟩
    · obtain ⟨a, hm, ha⟩ := h
      have hm' : a ∈ as := by
        rcases List.mem_cons.1 hm with rfl | hm'
        · exact absurd ha hc
        · exact hm'
      obtain ⟨before, b, after, rfl, hb, hbefore⟩ := ih ⟨a, hm', ha⟩
      refine ⟨c :: before, b, after, rfl, hb, ?_⟩
      intro x hx
      rcases List.mem_cons.1 hx with rfl | hx
      · exact hc
      · exact hbefore x hx

end PubSub
