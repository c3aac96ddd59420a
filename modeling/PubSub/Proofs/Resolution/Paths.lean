import PubSub.Proofs.Resolution.Unfolding

/-!
# Paths of casts

Which casts lead from a type to a supertype. A supertype may be reached on many ways; the one that counts is the first:
directly, if the type declares it itself, and otherwise through the first of its supertypes that has it.
-/

namespace PubSub.Hierarchy

variable {h : Hierarchy}

/-- The type itself or one of its supertypes, at any distance. -/
def IsA (h : Hierarchy) (n m : Name) : Prop :=
  Relation.ReflTransGen h.Extends n m

/-- The first path of casts from a type to a supertype. -/
inductive FirstPath (h : Hierarchy) : Name → Name → List Cast → Prop
  | here (n : Name) : h.FirstPath n n []
  | direct {n m : Name} {before after : List Supertype} {s : Supertype} (hs : h.supertypes n = before ++ s :: after)
      (hm : s.name = m) (hbefore : ∀ t ∈ before, t.name ≠ m) : h.FirstPath n m [⟨n, m, before.length⟩]
  | through {n m : Name} {before after : List Supertype} {s : Supertype} {path : List Cast}
      (hs : h.supertypes n = before ++ s :: after) (hdirect : ¬ h.Extends n m)
      (hbefore : ∀ t ∈ before, ¬ h.IsA t.name m) (hpath : h.FirstPath s.name m path) :
      h.FirstPath n m (⟨n, s.name, before.length⟩ :: path)

theorem extends_of_split {n : Name} {before after : List Supertype} {s : Supertype}
    (hs : h.supertypes n = before ++ s :: after) : h.Extends n s.name :=
  ⟨s, hs ▸ List.mem_append_right _ (List.mem_cons_self ..), rfl⟩

theorem FirstPath.isA {n m : Name} {path : List Cast} (hp : h.FirstPath n m path) : h.IsA n m := by
  induction hp with
  | here n => exact .refl
  | direct hs hm => exact .single (hm ▸ extends_of_split hs)
  | through hs _ _ _ ih => exact .head (extends_of_split hs) ih

private theorem split_unique {α : Type} {P : α → Prop} {before before' after after' : List α} {a a' : α}
    (h : before ++ a :: after = before' ++ a' :: after') (ha : P a) (ha' : P a') (hb : ∀ b ∈ before, ¬ P b)
    (hb' : ∀ b ∈ before', ¬ P b) : before = before' ∧ a = a' := by
  induction before generalizing before' with
  | nil =>
    cases before' with
    | nil => exact ⟨rfl, (List.cons.inj h).1⟩
    | cons c before' => exact absurd ((List.cons.inj h).1 ▸ ha) (hb' c (List.mem_cons_self ..))
  | cons c before ih =>
    cases before' with
    | nil => exact absurd ((List.cons.inj h).1 ▸ ha') (hb c (List.mem_cons_self ..))
    | cons c' before' =>
      obtain ⟨hc, hrest⟩ := List.cons.inj h
      obtain ⟨hbefore, ha⟩ := ih hrest (fun b hm => hb b (List.mem_cons_of_mem _ hm))
        (fun b hm => hb' b (List.mem_cons_of_mem _ hm))
      exact ⟨congrArg₂ List.cons hc hbefore, ha⟩

theorem not_isA_of_extends (hac : h.Acyclic) {n m : Name} (hx : h.Extends n m) : ¬ h.IsA m n := by
  intro hr
  have hcycle : Relation.TransGen h.Extends n n := .head' hx hr
  have hmentions : h.Extends ≤ h.Mentions := fun _ _ => Or.inl
  exact hac n (Relation.TransGen.mono hmentions _ _ hcycle)

theorem FirstPath.unique (hac : h.Acyclic) {n m : Name} {path path' : List Cast} (hp : h.FirstPath n m path)
    (hp' : h.FirstPath n m path') : path = path' := by
  induction hp generalizing path' with
  | here n =>
    cases hp' with
    | here => rfl
    | direct hs hm => exact absurd .refl (not_isA_of_extends hac (hm ▸ extends_of_split hs))
    | through hs _ _ hpath => exact absurd hpath.isA (not_isA_of_extends hac (extends_of_split hs))
  | @direct n m before after s hs hm hbefore =>
    cases hp' with
    | here => exact absurd .refl (not_isA_of_extends hac (hm ▸ extends_of_split hs))
    | direct hs' hm' hbefore' =>
      obtain ⟨rfl, -⟩ := split_unique (P := fun t : Supertype => t.name = m) (hs.symm.trans hs') hm hm' hbefore hbefore'
      rfl
    | through _ hdirect _ _ => exact absurd (hm ▸ extends_of_split hs) hdirect
  | @through n m before after s path hs hdirect hbefore hpath ih =>
    cases hp' with
    | here => exact absurd hpath.isA (not_isA_of_extends hac (extends_of_split hs))
    | direct hs' hm' => exact absurd (hm' ▸ extends_of_split hs') hdirect
    | through hs' _ hbefore' hpath' =>
      obtain ⟨rfl, rfl⟩ := split_unique (P := fun t : Supertype => h.IsA t.name m) (hs.symm.trans hs') hpath.isA
        hpath'.isA hbefore hbefore'
      rw [ih hpath']

private theorem descriptors_eq {desc : Name → Descriptor} (hd : ∀ m, h.describe m = .ok (desc m))
    {ss : List Supertype} {qs : List Descriptor} (hf : List.Forall₂ (fun s q => h.describe s.name = .ok q) ss qs) :
    qs = ss.map fun s => desc s.name := by
  induction hf with
  | nil => rfl
  | @cons s q ss qs hq _ ih => rw [List.map_cons, ← ih, Except.ok.inj ((hd s.name).symm.trans hq)]

theorem ancestors_describe (hac : h.Acyclic) (htr : h.Truthful) {desc : Name → Descriptor}
    (hd : ∀ m, h.describe m = .ok (desc m)) (n : Name) :
    (desc n).name = n ∧ ((desc n).view = none ∨ (desc n).view = some (.own n)) ∧
      (∀ k ∈ (desc n).raw, ∃ p, (h.parameters n).getLast? = some p ∧ p.1 = k) ∧
      (desc n).ancestors = freshEntries [.named n, .root]
        ((h.supertypes n).zipIdx.map (fun s => (.named s.1.name, some [⟨n, s.1.name, s.2⟩]))
          ++ (h.supertypes n).zipIdx.flatMap fun s => (desc s.1.name).legacy ⟨n, s.1.name, s.2⟩) := by
  obtain ⟨draft, -, hbuild, parents, hr⟩ := records_of_describe (hd n)
  have hname : ∀ m, (desc m).name = m := by
    intro m
    obtain ⟨draft, -, hbuild, parents, hr⟩ := records_of_describe (hd m)
    rw [← hbuild]
    exact hr.name.trans (name_declaration hac htr m)
  have hparents : parents = (h.supertypes n).map fun s => desc s.name := by
    have hdesc := hr.described
    rw [parents_declaration hac htr, List.forall₂_map_left_iff] at hdesc
    exact descriptors_eq hd hdesc
  have hn := name_declaration hac htr n
  refine ⟨hname n, ?_, ?_, ?_⟩
  · rw [← hbuild]
    exact hn ▸ hr.view
  · intro k hk
    have parameter := hr.parameter
    rw [parameter?_declaration hac htr] at parameter
    cases hp : (h.parameters n).getLast? with
    | none =>
      simp only [hp, Option.map_none] at parameter
      simp [← hbuild, Descriptor.raw, Draft.build, parameter] at hk
    | some p =>
      simp only [hp, Option.map_some] at parameter
      obtain ⟨a, -, hpar⟩ := parameter
      refine ⟨p, rfl, ?_⟩
      simpa [← hbuild, Descriptor.raw, Draft.build, hpar, eq_comm] using hk
  · rw [← hbuild]
    simp only [Draft.build, hr.name, hr.direct, hr.inherited, hparents, hn, List.zipIdx_map, List.map_map,
      List.flatMap_map]
    simp [Descriptor.key, Descriptor.castFrom, hname, Function.comp_def]

/-- No raw wrapper is the root or a declared supertype. -/
def RawApart (h : Hierarchy) : Prop :=
  ∀ n p, (h.parameters n).getLast? = some p → p.1 ≠ .root ∧ ∀ m, ∀ s ∈ h.supertypes m, p.1 ≠ .named s.name

private def direct (h : Hierarchy) (n : Name) : List Ancestor :=
  (h.supertypes n).zipIdx.map fun s => (.named s.1.name, some [⟨n, s.1.name, s.2⟩])

private theorem lookup_direct_eq_none {n m : Name} (hx : ¬ h.Extends n m) : (direct h n).lookup (.named m) = none := by
  rw [direct, lookup_map_eq_findSome?, List.findSome?_eq_none_iff]
  rintro ⟨s, rank⟩ hs
  refine if_neg fun he => hx ⟨s, ?_, (Key.named.inj he).symm⟩
  exact List.fst_mem_of_mem_zipIdx hs

private theorem exists_lookup_direct {n m : Name} (hx : h.Extends n m) : ∃ before s after,
    h.supertypes n = before ++ s :: after ∧ s.name = m ∧ (∀ t ∈ before, t.name ≠ m) ∧
      (direct h n).lookup (.named m) = some (some [⟨n, m, before.length⟩]) := by
  obtain ⟨before, s, after, hs, hm, hbefore⟩ := exists_first (fun s : Supertype => s.name = m) hx
  refine ⟨before, s, after, hs, hm, hbefore, ?_⟩
  have hnone : (before.zipIdx.findSome? fun t => if Key.named m = .named t.1.name then
      some (some [(⟨n, t.1.name, t.2⟩ : Cast)]) else none) = none := by
    rw [List.findSome?_eq_none_iff]
    rintro ⟨t, rank⟩ ht
    exact if_neg fun he => hbefore t (List.fst_mem_of_mem_zipIdx ht) (Key.named.inj he).symm
  rw [direct, lookup_map_eq_findSome?, hs, List.zipIdx_append, List.findSome?_append, hnone, Option.none_or,
    List.zipIdx_cons, List.findSome?_cons, if_pos (congrArg Key.named hm.symm)]
  simp [hm]

private theorem lookup_legacy (d : Descriptor) (cast : Cast) (m : Name) :
    (d.legacy cast).lookup (.named m) =
      ((d.ancestors.lookup (.named m)).map fun a => a.map (cast :: ·)).or
        (if .named m ∈ d.raw then some none else none) := by
  have hreified : Key.named m ∉ d.reified := by
    simp only [Descriptor.reified]
    cases d.parameter <;> simp [Parameter.keys]
  simp only [Descriptor.legacy]
  rw [List.lookup_append, List.lookup_append, lookup_map_const, lookup_map_const, lookup_map_snd, if_neg hreified]
  rfl

section Ancestors

variable (hac : h.Acyclic) (htr : h.Truthful) {desc : Name → Descriptor} (hd : ∀ m, h.describe m = .ok (desc m))
include hac htr hd

private theorem lookup_ancestors (n : Name) (k : Key) :
    (desc n).ancestors.lookup k = if k = .named n ∨ k = .root then none
      else ((direct h n).lookup k).or
        ((h.supertypes n).zipIdx.findSome? fun s => ((desc s.1.name).legacy ⟨n, s.1.name, s.2⟩).lookup k) := by
  rw [(ancestors_describe hac htr hd n).2.2.2, lookup_freshEntries, List.lookup_append, lookup_flatMap, direct]
  simp only [List.mem_cons, List.not_mem_nil, or_false]

theorem isA_of_lookup_ancestors {n : Name} {k : Key} {path : List Cast}
    (hl : (desc n).ancestors.lookup k = some (some path)) : ∃ m, k = .named m ∧ h.IsA n m := by
  rw [lookup_ancestors hac htr hd] at hl
  by_cases hk : k = .named n ∨ k = .root
  · rw [if_pos hk] at hl
    cases hl
  rw [if_neg hk, Option.or_eq_some_iff] at hl
  rcases hl with hdirect | ⟨-, hinherited⟩
  · have hmem : k ∈ (direct h n).map Prod.fst := (mem_keys_iff_lookup _ _).2 ⟨_, hdirect⟩
    obtain ⟨a, ha, rfl⟩ := List.mem_map.1 hmem
    obtain ⟨⟨s, rank⟩, hs, rfl⟩ := List.mem_map.1 ha
    exact ⟨s.name, rfl, .single ⟨s, List.fst_mem_of_mem_zipIdx hs, rfl⟩⟩
  · obtain ⟨⟨s, rank⟩, hranked, hfound⟩ := List.exists_of_findSome?_eq_some hinherited
    have hs : s ∈ h.supertypes n := List.fst_mem_of_mem_zipIdx hranked
    simp only [Descriptor.legacy] at hfound
    rw [List.lookup_append, List.lookup_append, lookup_map_const, lookup_map_const, lookup_map_snd] at hfound
    obtain ⟨rest, hrest⟩ : ∃ rest, (desc s.name).ancestors.lookup k = some (some rest) := by
      cases ha : (desc s.name).ancestors.lookup k with
      | none =>
        rw [ha] at hfound
        split at hfound <;> split at hfound <;> simp at hfound
      | some a =>
        rw [ha] at hfound
        cases a with
        | none => split at hfound <;> simp at hfound
        | some rest => exact ⟨rest, rfl⟩
    have := rank_lt_of_extends hac ⟨s, hs, rfl⟩
    obtain ⟨m, rfl, hm⟩ := isA_of_lookup_ancestors hrest
    exact ⟨m, rfl, hm.head ⟨s, hs, rfl⟩⟩
termination_by h.rank n

private theorem lookup_ancestors_eq_none (hraw : h.RawApart) {n m : Name} (hm : ¬ h.IsA n m)
    (hdeclared : ∃ t, h.Extends t m) : (desc n).ancestors.lookup (.named m) = none := by
  rw [lookup_ancestors hac htr hd]
  split
  · rfl
  rw [lookup_direct_eq_none fun hx => hm (.single hx), Option.none_or, List.findSome?_eq_none_iff]
  rintro ⟨s, rank⟩ hranked
  have hs : s ∈ h.supertypes n := List.fst_mem_of_mem_zipIdx hranked
  have := rank_lt_of_extends hac ⟨s, hs, rfl⟩
  have hbelow : ¬ h.IsA s.name m := fun hr => hm (.head ⟨s, hs, rfl⟩ hr)
  have hnotRaw : Key.named m ∉ (desc s.name).raw := by
    intro hr
    obtain ⟨p, hp, hpm⟩ := (ancestors_describe hac htr hd s.name).2.2.1 _ hr
    obtain ⟨t, u, hu, rfl⟩ := hdeclared
    exact (hraw _ _ hp).2 t u hu hpm
  rw [lookup_legacy, if_neg hnotRaw, lookup_ancestors_eq_none hraw hbelow hdeclared]
  rfl
termination_by h.rank n

/-- A type finds each of its supertypes among its ancestors, with the first path that leads there. -/
theorem lookup_ancestors_of_isA (hraw : h.RawApart) {n m : Name} (hm : h.IsA n m) (hne : m ≠ n) (hroot : m ≠ .root) :
    ∃ path, h.FirstPath n m path ∧ (desc n).ancestors.lookup (.named m) = some (some path) := by
  have hother : ¬ (Key.named m = .named n ∨ Key.named m = .root) := by
    intro hcase
    rcases hcase with he | he
    · exact hne (Key.named.inj he)
    · exact hroot (Key.named.inj he)
  rw [lookup_ancestors hac htr hd, if_neg hother]
  by_cases hx : h.Extends n m
  · obtain ⟨before, s, after, hs, hname, hbefore, hl⟩ := exists_lookup_direct hx
    exact ⟨_, .direct hs hname hbefore, by rw [hl, Option.some_or]⟩
  -- the type is reached through the first of the supertypes that has it
  have hsome : ∃ s ∈ h.supertypes n, h.IsA s.name m := by
    rcases hm.cases_head with rfl | ⟨t, ⟨s, hs, rfl⟩, ht⟩
    · exact absurd rfl hne
    · exact ⟨s, hs, ht⟩
  obtain ⟨before, s, after, hs, hsm, hbefore⟩ := exists_first (fun s : Supertype => h.IsA s.name m) hsome
  have hmem : s ∈ h.supertypes n := hs ▸ List.mem_append_right _ (List.mem_cons_self ..)
  have := rank_lt_of_extends hac ⟨s, hmem, rfl⟩
  have hsne : m ≠ s.name := fun he => hx ⟨s, hmem, he.symm⟩
  have hdeclared : ∃ t, h.Extends t m := by
    rcases hsm.cases_tail with he | ⟨t, -, ht⟩
    · exact absurd he hsne
    · exact ⟨t, ht⟩
  obtain ⟨path, hpath, hfound⟩ := lookup_ancestors_of_isA hraw hsm hsne hroot
  refine ⟨_, .through hs hx hbefore hpath, ?_⟩
  have hnone : (before.zipIdx.findSome? fun t => ((desc t.1.name).legacy ⟨n, t.1.name, t.2⟩).lookup (.named m)) =
      none := by
    rw [List.findSome?_eq_none_iff]
    rintro ⟨t, rank⟩ hranked
    have ht : t ∈ before := List.fst_mem_of_mem_zipIdx hranked
    have hnotRaw : Key.named m ∉ (desc t.name).raw := by
      intro hr
      obtain ⟨p, hp, hpm⟩ := (ancestors_describe hac htr hd t.name).2.2.1 _ hr
      obtain ⟨t', u, hu, rfl⟩ := hdeclared
      exact (hraw _ _ hp).2 t' u hu hpm
    rw [lookup_legacy, if_neg hnotRaw, lookup_ancestors_eq_none hac htr hd hraw (hbefore t ht) hdeclared]
    rfl
  rw [lookup_direct_eq_none hx, Option.none_or, hs, List.zipIdx_append, List.findSome?_append, hnone, Option.none_or,
    List.zipIdx_cons, List.findSome?_cons, lookup_legacy, hfound]
  simp
termination_by h.rank n

end Ancestors
end PubSub.Hierarchy
