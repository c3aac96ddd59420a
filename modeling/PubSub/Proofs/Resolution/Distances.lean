import PubSub.Proofs.Resolution.Closure

/-!
# Distances of supertypes

How many steps from type to supertype lead to a key, and in which order the supertypes come. The direct ones come first.
After them comes all that the first of them brings along, in its own order, then what is new with the second one, and so
on. So the order is breadth-first only if no supertype reaches further up than a later one that brings something new.
-/

namespace PubSub

section Firsts

/-- The keys that are not in `seen`, each where it comes first. -/
def firstKeys (seen keys : List Key) : List Key :=
  (freshEntries seen (keys.map fun k => (k, ()))).map Prod.fst

theorem map_fst_freshEntries {α : Type} (seen : List Key) (es : List (Key × α)) :
    (freshEntries seen es).map Prod.fst = firstKeys seen (es.map Prod.fst) := by
  apply map_fst_freshEntries_congr
  simp

theorem firstKeys_append (seen keys keys' : List Key) :
    firstKeys seen (keys ++ keys') = firstKeys seen keys ++ firstKeys (keys ++ seen) keys' := by
  have hkeys : (keys.map fun k => (k, ())).map Prod.fst = keys := by simp [Function.comp_def]
  simp only [firstKeys]
  rw [List.map_append, freshEntries_append, List.map_append, hkeys]

theorem mem_firstKeys (seen keys : List Key) (k : Key) : k ∈ firstKeys seen keys ↔ k ∈ keys ∧ k ∉ seen := by
  simp [firstKeys, mem_keys_freshEntries]

theorem firstKeys_cons (seen keys : List Key) (k : Key) :
    firstKeys seen (k :: keys) = if k ∈ seen then firstKeys seen keys else k :: firstKeys (k :: seen) keys := by
  by_cases hk : k ∈ seen <;> simp [firstKeys, freshEntries, hk]

theorem sublist_firstKeys (seen keys : List Key) : (firstKeys seen keys).Sublist keys := by
  induction keys generalizing seen with
  | nil => exact List.Sublist.slnil
  | cons k keys ih =>
    rw [firstKeys_cons]
    split
    · exact (ih seen).cons k
    · exact (ih (k :: seen)).cons_cons k

theorem firstKeys_eq_self {seen keys : List Key} (hnodup : keys.Nodup) (hnew : ∀ k ∈ keys, k ∉ seen) :
    firstKeys seen keys = keys := by
  induction keys generalizing seen with
  | nil => rfl
  | cons k keys ih =>
    obtain ⟨hk, hnodup⟩ := List.nodup_cons.1 hnodup
    rw [firstKeys_cons, if_neg (hnew k (List.mem_cons_self ..)), ih hnodup]
    intro k' hk'
    have hne : k' ≠ k := fun h => hk (h ▸ hk')
    simp [hne, hnew k' (List.mem_cons_of_mem _ hk')]

end Firsts

namespace Declaration

/-- It is no reified form, and no supertype of it is. -/
def IsPlain : Declaration → Prop
  | concrete _ | abstract _ => True
  | extending base parent _ => base.IsPlain ∧ parent.IsPlain
  | parameterized _ _ _ => False

/-- The keys that so many steps from a type to one of its supertypes lead to. -/
def climb : Nat → Declaration → List Key
  | 0, d => [.named d.name]
  | steps + 1, d => d.parents.flatMap (climb steps)

/-- The least number of steps that lead to the key. -/
def IsAway (d : Declaration) (steps : Nat) (k : Key) : Prop :=
  k ∈ d.climb steps ∧ ∀ fewer < steps, k ∉ d.climb fewer

instance (d : Declaration) (steps : Nat) (k : Key) : Decidable (d.IsAway steps k) :=
  inferInstanceAs (Decidable (_ ∧ _))

/-- As many steps as lead to the second key, or fewer, lead to the first one. -/
def Nearer (d : Declaration) (k k' : Key) : Prop :=
  ∀ steps, k' ∈ d.climb steps → ∃ fewer ≤ steps, k ∈ d.climb fewer

/-- The root, which every type has for a supertype without declaring it. -/
def IsBareRoot (d : Declaration) : Prop :=
  d.name = .root ∧ d.parents = []

instance (d : Declaration) : Decidable d.IsBareRoot :=
  inferInstanceAs (Decidable (_ ∧ _))

def bases (d : Declaration) : List Declaration :=
  d.parents.filter (¬ ·.IsBareRoot)

/-- It has supertypes that its own supertypes declare. -/
def IsDeep (d : Declaration) : Prop :=
  ∃ p ∈ d.bases, p.bases ≠ []

instance (d : Declaration) : Decidable d.IsDeep :=
  inferInstanceAs (Decidable (∃ p ∈ d.bases, _))

/-- After one that is deep, no supertype declares any that were not declared before. -/
def Layered (known : List Declaration) : List Declaration → Prop
  | [] => True
  | p :: later => (p.IsDeep → ∀ q ∈ later, ∀ b ∈ q.bases, b ∈ known ++ p.parents) ∧ Layered (known ++ p.parents) later

/-- In the type and in each of its supertypes: after a supertype that has supertypes of supertypes come only such as
declare none that the type or one of its supertypes up to that one does not declare. -/
inductive Tidy : Declaration → Prop
  | intro {d : Declaration} (layered : Layered d.parents d.parents) (above : ∀ p ∈ d.parents, p.Tidy) : d.Tidy

section Climbing

variable {d p : Declaration} {k : Key} {steps : Nat}

theorem mem_climb_succ : k ∈ d.climb (steps + 1) ↔ ∃ p ∈ d.parents, k ∈ p.climb steps := by
  simp [climb]

theorem mem_climb_of_parent (hp : p ∈ d.parents) (hk : k ∈ p.climb steps) : k ∈ d.climb (steps + 1) :=
  mem_climb_succ.2 ⟨p, hp, hk⟩

theorem exists_isAway (hk : k ∈ d.climb steps) : ∃ fewest ≤ steps, d.IsAway fewest k := by
  induction steps using Nat.strongRecOn with
  | _ steps ih =>
    by_cases hfewer : ∃ fewer < steps, k ∈ d.climb fewer
    · obtain ⟨fewer, hlt, hmem⟩ := hfewer
      obtain ⟨fewest, hle, haway⟩ := ih fewer hlt hmem
      exact ⟨fewest, Nat.le_trans hle (Nat.le_of_lt hlt), haway⟩
    · exact ⟨steps, Nat.le_refl _, hk, by simpa using hfewer⟩

theorem Nearer.le {k k' : Key} {m n : Nat} (h : d.Nearer k k') (hm : d.IsAway m k) (hn : d.IsAway n k') : m ≤ n := by
  obtain ⟨fewer, hle, hmem⟩ := h n hn.1
  by_contra hlt
  exact hm.2 fewer (by omega) hmem

theorem eq_root_of_climb (h : d.IsBareRoot) (hk : k ∈ d.climb steps) : k = .root := by
  cases steps with
  | zero => simpa [climb, h.1, Key.root] using hk
  | succ steps => simp [climb, h.2] at hk

theorem mem_bases (hp : p ∈ d.parents) (hk : k ∈ p.climb steps) (hroot : k ≠ .root) : p ∈ d.bases := by
  simp only [bases, List.mem_filter, decide_eq_true_eq]
  exact ⟨hp, fun hbare => hroot (eq_root_of_climb hbare hk)⟩

/-- Two steps up from a type there is nothing unless it is deep. -/
theorem isDeep_of_climb (hk : k ∈ d.climb (steps + 2)) (hroot : k ≠ .root) : d.IsDeep := by
  obtain ⟨p, hp, hk⟩ := mem_climb_succ.1 hk
  obtain ⟨b, hb, hkb⟩ := mem_climb_succ.1 hk
  exact ⟨p, mem_bases hp hk hroot, List.ne_nil_of_mem (mem_bases hb hkb hroot)⟩

end Climbing

end Declaration

def Descriptor.ancestorKeys (q : Descriptor) : List Key :=
  q.ancestors.map Prod.fst

section Plain

variable {d : Declaration} {q : Descriptor}

theorem isPlain_of_parents (h : d.IsPlain) : ∀ p ∈ d.parents, p.IsPlain := by
  induction d with
  | concrete _ | abstract _ => simp [Declaration.parents]
  | extending base parent target ihb _ =>
    intro p hp
    rcases List.mem_append.1 hp with hp | hp
    · exact ihb h.1 p hp
    · rw [List.mem_singleton.1 hp]
      exact h.2
  | parameterized base raw argument => cases h

private theorem parameter?_of_isPlain (h : d.IsPlain) : d.parameter? = none := by
  induction d with
  | concrete _ | abstract _ => rfl
  | extending base parent target ihb _ => exact ihb h.1
  | parameterized base raw argument => cases h

/-- How a plain type lists its supertypes. -/
structure Lists (d : Declaration) (q : Descriptor) (parents : List Descriptor) : Prop where
  described : List.Forall₂ (fun p q => p.describe = .ok q) d.parents parents
  key : q.key = .named d.name
  parameter : q.parameter = none
  ancestors : q.ancestorKeys = firstKeys [.named d.name, .root]
    (d.parents.map (.named ·.name) ++ parents.flatMap Descriptor.ancestorKeys)

private theorem key_of_described {ps : List Declaration} {qs : List Descriptor}
    (h : List.Forall₂ (fun p q => p.describe = .ok q) ps qs) : qs.map Descriptor.key = ps.map (.named ·.name) := by
  induction h with
  | nil => rfl
  | cons hp _ ih =>
    obtain ⟨draft, -, rfl, parents, hr⟩ := records_of_describe hp
    simp only [List.map_cons, ih]
    exact congrArg₂ List.cons (congrArg Key.named hr.name) rfl

theorem exists_lists (hplain : d.IsPlain) (h : d.describe = .ok q) : ∃ parents, Lists d q parents := by
  obtain ⟨draft, -, rfl, parents, hr⟩ := records_of_describe h
  have hbare {p : Declaration} {draft : Draft} {ps : List Descriptor} (hp : p.IsPlain) (hr : draft.Records p ps) :
      draft.build.parameter = none := by
    have hnone := hr.parameter
    rw [parameter?_of_isPlain hp] at hnone
    exact hnone
  have hlegacy : ∀ p ∈ parents, p.reified ++ p.ancestors.map Prod.fst ++ p.raw = p.ancestorKeys := by
    intro p hp
    obtain ⟨p₀, hp₀, hdescribed⟩ := hr.exists_parent hp
    obtain ⟨draft', -, rfl, ps, hr'⟩ := records_of_describe hdescribed
    have hnone := hbare (isPlain_of_parents hplain p₀ hp₀) hr'
    simp [Descriptor.reified, Descriptor.raw, hnone, Descriptor.ancestorKeys]
  refine ⟨parents, hr.described, congrArg Key.named hr.name, hbare hplain hr, ?_⟩
  have hdirect : draft.direct.map Prod.fst = d.parents.map (.named ·.name) := by
    rw [hr.map_fst_direct, key_of_described hr.described]
  have hinherited : draft.inherited.map Prod.fst = parents.flatMap Descriptor.ancestorKeys := by
    rw [hr.map_fst_inherited]
    exact List.flatMap_congr hlegacy
  simp only [Descriptor.ancestorKeys, Draft.build, map_fst_freshEntries, List.map_append, hdirect, hinherited, hr.name]

end Plain
end PubSub
