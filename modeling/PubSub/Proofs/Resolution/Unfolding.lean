import Mathlib.Data.Finset.Card
import Mathlib.Logic.Relation
import PubSub.Hierarchy
import PubSub.Proofs.Resolution.Drafting

/-!
# Unfolding a hierarchy

Names that refer to each other without cycles can be ranked, by how many declared names each of them refers to, directly
or not. The rank of a name is at most the number of entries, so the rounds that are spent on unfolding it are enough.
-/

namespace PubSub.Hierarchy

variable {h : Hierarchy} {n m : Name}

/-- The supertypes that count: only classes with a hierarchy and interfaces declare any. -/
def supertypes (h : Hierarchy) (n : Name) : List Supertype :=
  match n with
  | .composite _ | .interface _ => (h.entry n).supertypes
  | .simple _ | .wrapper _ | .root | .dead => []

/-- The reified forms that count; of several, the last one. -/
def parameters (h : Hierarchy) (n : Name) : List (Key × Name) :=
  match n with
  | .composite _ | .interface _ => (h.entry n).parameters
  | .simple _ | .wrapper _ | .root | .dead => []

def Extends (h : Hierarchy) (n m : Name) : Prop :=
  ∃ s ∈ h.supertypes n, s.name = m

/-- One name occurs in the declaration of the other. -/
def Mentions (h : Hierarchy) (n m : Name) : Prop :=
  h.Extends n m ∨ ∃ p ∈ h.parameters n, p.2 = m

def Acyclic (h : Hierarchy) : Prop :=
  ∀ n, ¬ Relation.TransGen h.Mentions n n

/-- The classes present descriptors of their own, and each supertype is reached by a cast to that very type. -/
structure Truthful (h : Hierarchy) : Prop where
  presents : ∀ i, (h.entry (.composite i)).presents = none
  target : ∀ n, ∀ s ∈ h.supertypes n, s.target = s.name

private theorem declared_of_mentions (hm : h.Mentions n m) : n ∈ h.map Prod.fst := by
  rw [mem_keys_iff_lookup]
  cases hl : List.lookup n h with
  | some e => exact ⟨e, rfl⟩
  | none =>
    have hempty : h.entry n = .empty := by simp [entry, hl]
    rcases hm with ⟨s, hs, -⟩ | ⟨p, hp, -⟩
    · cases n <;> simp [supertypes, hempty, Entry.empty] at hs
    · cases n <;> simp [parameters, hempty, Entry.empty] at hp

open Classical in
/-- The number of declared names that a name refers to, itself included. -/
noncomputable def rank (h : Hierarchy) (n : Name) : Nat :=
  ((h.map Prod.fst).toFinset.filter (Relation.ReflTransGen h.Mentions n ·)).card

theorem rank_le_length (h : Hierarchy) (n : Name) : h.rank n ≤ h.length := by
  classical
  calc h.rank n ≤ (h.map Prod.fst).toFinset.card := Finset.card_filter_le _ _
    _ ≤ (h.map Prod.fst).length := List.toFinset_card_le _
    _ = h.length := List.length_map ..

theorem rank_lt_of_mentions (hac : h.Acyclic) (hm : h.Mentions n m) : h.rank m < h.rank n := by
  classical
  apply Finset.card_lt_card
  refine Finset.ssubset_iff_subset_ne.2 ⟨?_, ?_⟩
  · intro k hk
    rw [Finset.mem_filter] at hk ⊢
    exact ⟨hk.1, hk.2.head hm⟩
  · intro heq
    have hn : n ∈ (h.map Prod.fst).toFinset.filter (Relation.ReflTransGen h.Mentions n ·) :=
      Finset.mem_filter.2 ⟨List.mem_toFinset.2 (declared_of_mentions hm), .refl⟩
    rw [← heq, Finset.mem_filter] at hn
    exact hac n (Relation.TransGen.head' hm hn.2)

theorem rank_lt_of_extends (hac : h.Acyclic) (hx : h.Extends n m) : h.rank m < h.rank n :=
  rank_lt_of_mentions hac (Or.inl hx)

private theorem extended_congr {decl decl' : Name → Declaration} (start : Declaration) (e : Entry)
    (hs : ∀ s ∈ e.supertypes, decl s.name = decl' s.name) (hp : ∀ p ∈ e.parameters, decl p.2 = decl' p.2) :
    extended decl start e = extended decl' start e := by
  have whole : e.supertypes.foldl (fun d s => .extending d (decl s.name) s.target) start
      = e.supertypes.foldl (fun d s => .extending d (decl' s.name) s.target) start := by
    apply List.foldl_ext
    intro d s hm
    rw [hs s hm]
  simp only [extended]
  rw [whole]
  apply List.foldl_ext
  intro d p hm
  rw [hp p hm]

def start (h : Hierarchy) (n : Name) : Declaration :=
  match n with
  | .composite _ => if (h.entry n).viewless then .abstract n else .concrete n
  | .dead => .concrete n
  | .interface _ | .simple _ | .wrapper _ | .root => .abstract n

private theorem unfold_succ (htr : h.Truthful) (rounds : Nat) (n : Name) :
    h.unfold (rounds + 1) n
      = extended (h.unfold rounds) (h.start n) ⟨false, none, h.supertypes n, h.parameters n⟩ := by
  cases n with
  | composite i => simp [unfold, htr.presents i, start, supertypes, parameters, extended]
  | interface i => simp [unfold, start, supertypes, parameters, extended]
  | simple _ => rfl
  | wrapper _ => rfl
  | root => rfl
  | dead => rfl

private theorem unfold_stable (hac : h.Acyclic) (htr : h.Truthful) (rounds : Nat) (n : Name)
    (hr : h.rank n < rounds) : h.unfold (rounds + 1) n = h.unfold rounds n := by
  induction rounds generalizing n with
  | zero => omega
  | succ rounds ih =>
    rw [unfold_succ htr (rounds + 1), unfold_succ htr rounds]
    apply extended_congr
    · intro s hs
      have := rank_lt_of_extends hac ⟨s, hs, rfl⟩
      exact ih s.name (by omega)
    · intro p hp
      have := rank_lt_of_mentions hac (Or.inr ⟨p, hp, rfl⟩)
      exact ih p.2 (by omega)

theorem declaration_eq (hac : h.Acyclic) (htr : h.Truthful) (n : Name) :
    h.declaration n = extended h.declaration (h.start n) ⟨false, none, h.supertypes n, h.parameters n⟩ := by
  have hlen := h.rank_le_length n
  simp only [declaration]
  rw [unfold_succ htr]
  apply extended_congr
  · intro s hs
    have := rank_lt_of_extends hac ⟨s, hs, rfl⟩
    exact (unfold_stable hac htr _ _ (by omega)).symm
  · intro p hp
    have := rank_lt_of_mentions hac (Or.inr ⟨p, hp, rfl⟩)
    exact (unfold_stable hac htr _ _ (by omega)).symm

private theorem name_extended (decl : Name → Declaration) (start : Declaration) (e : Entry) :
    (extended decl start e).name = start.name := by
  have hs (ss : List Supertype) (d : Declaration) :
      (ss.foldl (fun d s => .extending d (decl s.name) s.target) d).name = d.name := by
    induction ss generalizing d with
    | nil => rfl
    | cons s ss ih => exact ih _
  have hp (ps : List (Key × Name)) (d : Declaration) :
      (ps.foldl (fun d p => .parameterized d p.1 (decl p.2)) d).name = d.name := by
    induction ps generalizing d with
    | nil => rfl
    | cons p ps ih => exact ih _
  exact (hp _ _).trans (hs _ _)

private theorem parents_extended (decl : Name → Declaration) (start : Declaration) (e : Entry) :
    (extended decl start e).parents = start.parents ++ e.supertypes.map (decl ·.name) := by
  have hs (ss : List Supertype) (d : Declaration) :
      (ss.foldl (fun d s => .extending d (decl s.name) s.target) d).parents
        = d.parents ++ ss.map (decl ·.name) := by
    induction ss generalizing d with
    | nil => simp
    | cons s ss ih => simp [ih, Declaration.parents]
  have hp (ps : List (Key × Name)) (d : Declaration) :
      (ps.foldl (fun d p => .parameterized d p.1 (decl p.2)) d).parents = d.parents := by
    induction ps generalizing d with
    | nil => rfl
    | cons p ps ih => exact ih _
  exact (hp _ _).trans (hs _ _)

private theorem parameter?_extended (decl : Name → Declaration) (start : Declaration) (e : Entry) :
    (extended decl start e).parameter?
      = (e.parameters.getLast?.map fun p => (p.1, decl p.2)).or start.parameter? := by
  have hs (ss : List Supertype) (d : Declaration) :
      (ss.foldl (fun d s => .extending d (decl s.name) s.target) d).parameter? = d.parameter? := by
    induction ss generalizing d with
    | nil => rfl
    | cons s ss ih => exact ih _
  have hp (ps : List (Key × Name)) (d : Declaration) :
      (ps.foldl (fun d p => .parameterized d p.1 (decl p.2)) d).parameter?
        = (ps.getLast?.map fun p => (p.1, decl p.2)).or d.parameter? := by
    induction ps generalizing d with
    | nil => rfl
    | cons p ps ih =>
      rw [List.foldl_cons, ih]
      cases hl : ps.getLast? <;> simp [List.getLast?_cons, hl, Declaration.parameter?]
  simp only [extended]
  rw [hp, hs]

private theorem castsMatch_extended {decl : Name → Declaration} {start : Declaration} (e : Entry)
    (hstart : start.CastsMatch)
    (hs : ∀ s ∈ e.supertypes, (decl s.name).CastsMatch ∧ (decl s.name).name = s.target)
    (hp : ∀ p ∈ e.parameters, (decl p.2).CastsMatch) : (extended decl start e).CastsMatch := by
  have supertypes (ss : List Supertype) (d : Declaration) (hd : d.CastsMatch) (hss : ∀ s ∈ ss, s ∈ e.supertypes) :
      (ss.foldl (fun d s => .extending d (decl s.name) s.target) d).CastsMatch := by
    induction ss generalizing d with
    | nil => exact hd
    | cons s ss ih =>
      have hone : (Declaration.extending d (decl s.name) s.target).CastsMatch :=
        And.intro hd (hs s (hss s (List.mem_cons_self ..)))
      exact ih _ hone fun t ht => hss t (List.mem_cons_of_mem _ ht)
  have parameters (ps : List (Key × Name)) (d : Declaration) (hd : d.CastsMatch) (hps : ∀ p ∈ ps, p ∈ e.parameters) :
      (ps.foldl (fun d p => .parameterized d p.1 (decl p.2)) d).CastsMatch := by
    induction ps generalizing d with
    | nil => exact hd
    | cons p ps ih =>
      have hone : (Declaration.parameterized d p.1 (decl p.2)).CastsMatch :=
        And.intro hd (hp p (hps p (List.mem_cons_self ..)))
      exact ih _ hone fun t ht => hps t (List.mem_cons_of_mem _ ht)
  exact parameters _ _ (supertypes _ _ hstart fun _ hm => hm) fun _ hm => hm

private theorem start_bare (h : Hierarchy) (n : Name) :
    (h.start n).name = n ∧ (h.start n).parents = [] ∧ (h.start n).parameter? = none ∧ (h.start n).CastsMatch := by
  simp only [start]
  split
  · split <;> simp [Declaration.name, Declaration.parents, Declaration.parameter?, Declaration.CastsMatch]
  all_goals simp [Declaration.name, Declaration.parents, Declaration.parameter?, Declaration.CastsMatch]

section Acyclic

variable (hac : h.Acyclic) (htr : h.Truthful)
include hac htr

theorem name_declaration (n : Name) : (h.declaration n).name = n := by
  rw [declaration_eq hac htr, name_extended, (h.start_bare n).1]

theorem parents_declaration (n : Name) :
    (h.declaration n).parents = (h.supertypes n).map fun s => h.declaration s.name := by
  rw [declaration_eq hac htr, parents_extended, (h.start_bare n).2.1, List.nil_append]

theorem parameter?_declaration (n : Name) :
    (h.declaration n).parameter? = (h.parameters n).getLast?.map fun p => (p.1, h.declaration p.2) := by
  rw [declaration_eq hac htr, parameter?_extended, (h.start_bare n).2.2.1, Option.or_none]

theorem castsMatch_declaration (n : Name) : (h.declaration n).CastsMatch := by
  rw [declaration_eq hac htr]
  apply castsMatch_extended _ (h.start_bare n).2.2.2
  · intro s hs
    have := rank_lt_of_extends hac ⟨s, hs, rfl⟩
    exact ⟨castsMatch_declaration s.name, by rw [name_declaration hac htr, htr.target n s hs]⟩
  · intro p hp
    have := rank_lt_of_mentions hac (Or.inr ⟨p, hp, rfl⟩)
    exact castsMatch_declaration p.2
termination_by h.rank n

/-- Nothing is refused in a hierarchy that tells the truth. -/
theorem describe_isOk (n : Name) : ∃ q, h.describe n = .ok q :=
  (describe_isOk_iff _).2 (castsMatch_declaration hac htr n)

end Acyclic
end PubSub.Hierarchy
