import PubSub.Declaration
import PubSub.Proofs.Exceptions
import PubSub.Proofs.Resolution.Entries

/-!
# What a declaration amounts to

A declaration that can be described names its supertypes one after the other, each described in turn, and the last
reified form. Its draft lists the supertypes themselves and then, supertype by supertype, what they bring along.
-/

namespace PubSub

namespace Declaration

def parents : Declaration → List Declaration
  | concrete _ | abstract _ => []
  | extending base parent _ => base.parents ++ [parent]
  | parameterized base _ _ => base.parents

/-- What the type is the reified form of: the raw wrapper and the argument that were declared last. -/
def parameter? : Declaration → Option (Key × Declaration)
  | concrete _ | abstract _ => none
  | extending base _ _ => base.parameter?
  | parameterized _ raw argument => some (raw, argument)

theorem sizeOf_lt_of_mem_parents {d p : Declaration} (h : p ∈ d.parents) : sizeOf p < sizeOf d := by
  induction d with
  | concrete _ => simp [parents] at h
  | abstract _ => simp [parents] at h
  | extending base parent target ihb _ =>
    rw [parents, List.mem_append, List.mem_singleton] at h
    simp only [extending.sizeOf_spec]
    rcases h with h | rfl
    · have := ihb h
      omega
    · omega
  | parameterized base raw argument ihb _ =>
    have := ihb h
    simp only [parameterized.sizeOf_spec]
    omega

theorem sizeOf_lt_of_parameter? {d argument : Declaration} {raw : Key} (h : d.parameter? = some (raw, argument)) :
    sizeOf argument < sizeOf d := by
  induction d with
  | concrete _ => simp [parameter?] at h
  | abstract _ => simp [parameter?] at h
  | extending base parent target ihb _ =>
    have := ihb h
    simp only [extending.sizeOf_spec]
    omega
  | parameterized base r a _ _ =>
    obtain ⟨rfl, rfl⟩ : r = raw ∧ a = argument := by simpa [parameter?] using h
    simp only [parameterized.sizeOf_spec]
    omega

/-- Each supertype is reached by a cast to that very type. -/
def CastsMatch : Declaration → Prop
  | concrete _ | abstract _ => True
  | extending base parent target => base.CastsMatch ∧ parent.CastsMatch ∧ parent.name = target
  | parameterized base _ argument => base.CastsMatch ∧ argument.CastsMatch

end Declaration

/-- What a type inherits from this one, once it has declared it as a supertype with the cast. -/
def Descriptor.legacy (cast : Cast) (d : Descriptor) : List Ancestor :=
  d.reified.map (·, none) ++ d.ancestors.map (fun a => (a.1, a.2.map (cast :: ·))) ++ d.raw.map (·, none)

theorem Descriptor.map_fst_legacy (cast : Cast) (d : Descriptor) :
    (d.legacy cast).map Prod.fst = d.reified ++ d.ancestors.map Prod.fst ++ d.raw := by
  simp [legacy, Function.comp_def]

/-- The cast with which the heir declares a supertype of the rank. -/
def Descriptor.castFrom (heir : Name) (ranked : Descriptor × Nat) : Cast :=
  ⟨heir, ranked.1.name, ranked.2⟩

/-- The draft of a declaration whose supertypes are described by `parents`. -/
structure Draft.Records (draft : Draft) (d : Declaration) (parents : List Descriptor) : Prop where
  name : draft.name = d.name
  view : draft.view = none ∨ draft.view = some (.own d.name)
  described : List.Forall₂ (fun p q => p.describe = .ok q) d.parents parents
  direct : draft.direct = parents.zipIdx.map fun p => (p.1.key, some [Descriptor.castFrom d.name p])
  inherited : draft.inherited = parents.zipIdx.flatMap fun p => p.1.legacy (Descriptor.castFrom d.name p)
  parameter : match d.parameter? with
    | none => draft.parameter = none
    | some (raw, argument) => ∃ a, argument.describe = .ok a ∧ draft.parameter = some ⟨raw, a.keys⟩

private theorem records_extend {base after : Draft} {d p : Declaration} {parents : List Descriptor} {q : Descriptor}
    {target : Name} (hb : base.Records d parents) (hq : p.describe = .ok q)
    (h : base.extend q target = .ok after) : after.Records (.extending d p target) (parents ++ [q]) := by
  simp only [Draft.extend] at h
  by_cases hk : q.key = .named target
  · have hname : q.name = target := by simpa [Descriptor.key] using hk
    have hrank : base.direct.length = parents.length := by rw [hb.direct, List.length_map, List.length_zipIdx]
    rw [if_pos hk] at h
    obtain rfl := Except.ok.inj h
    refine ⟨hb.name, hb.view, ?_, ?_, ?_, hb.parameter⟩
    · exact List.rel_append hb.described (List.Forall₂.cons hq .nil)
    · simp [hb.direct, hb.name, hname, Declaration.name, List.zipIdx_append, Descriptor.castFrom]
    · simp [hrank, hb.inherited, hb.name, hname, Declaration.name, List.zipIdx_append, Descriptor.castFrom,
        Descriptor.legacy, List.append_assoc]
  · rw [if_neg hk] at h
    cases h

theorem records_of_draft {d : Declaration} {draft : Draft} (h : d.draft = .ok draft) :
    ∃ parents, draft.Records d parents := by
  induction d generalizing draft with
  | concrete cls =>
    obtain rfl := Except.ok.inj h
    exact ⟨[], rfl, Or.inr rfl, .nil, rfl, rfl, rfl⟩
  | abstract n =>
    obtain rfl := Except.ok.inj h
    exact ⟨[], rfl, Or.inl rfl, .nil, rfl, rfl, rfl⟩
  | extending base parent target ihb _ =>
    obtain ⟨b, hb, h⟩ := bind_eq_ok_iff.1 h
    obtain ⟨p, hp, he⟩ := bind_eq_ok_iff.1 h
    obtain ⟨parents, hr⟩ := ihb hb
    have hq : parent.describe = .ok p.build := map_eq_ok_iff.2 ⟨p, hp, rfl⟩
    exact ⟨parents ++ [p.build], records_extend hr hq he⟩
  | parameterized base raw argument ihb _ =>
    obtain ⟨b, hb, h⟩ := bind_eq_ok_iff.1 h
    obtain ⟨a, ha, h⟩ := bind_eq_ok_iff.1 h
    cases h
    obtain ⟨parents, hr⟩ := ihb hb
    have hq : argument.describe = .ok a.build := map_eq_ok_iff.2 ⟨a, ha, rfl⟩
    exact ⟨parents, hr.name, hr.view, hr.described, hr.direct, hr.inherited, a.build, hq, rfl⟩

theorem records_of_describe {d : Declaration} {q : Descriptor} (h : d.describe = .ok q) :
    ∃ draft, d.draft = .ok draft ∧ draft.build = q ∧ ∃ parents, draft.Records d parents := by
  obtain ⟨draft, hd, hbuild⟩ := map_eq_ok_iff.1 h
  exact ⟨draft, hd, hbuild, records_of_draft hd⟩

private theorem draft_isOk_iff (d : Declaration) : (∃ draft, d.draft = .ok draft) ↔ d.CastsMatch := by
  induction d with
  | concrete cls => simp [Declaration.draft, Declaration.CastsMatch]
  | abstract n => simp [Declaration.draft, Declaration.CastsMatch]
  | extending base parent target ihb ihp =>
    rw [Declaration.CastsMatch, ← ihb, ← ihp]
    simp only [Declaration.draft, bind_eq_ok_iff]
    have hextend (b : Draft) {p : Draft} (hp : parent.draft = .ok p) :
        (∃ draft, b.extend p.build target = .ok draft) ↔ parent.name = target := by
      obtain ⟨parents, hr⟩ := records_of_draft hp
      have hkey : p.build.key = .named parent.name := congrArg Key.named hr.name
      simp only [Draft.extend, hkey, Key.named.injEq]
      by_cases hn : parent.name = target <;> simp [hn]
    constructor
    · intro hdrafted
      rcases hdrafted with ⟨draft, b, hb, p, hp, he⟩
      exact ⟨⟨b, hb⟩, ⟨p, hp⟩, (hextend b hp).1 ⟨draft, he⟩⟩
    · intro hparts
      rcases hparts with ⟨⟨b, hb⟩, ⟨p, hp⟩, hn⟩
      obtain ⟨draft, he⟩ := (hextend b hp).2 hn
      exact ⟨draft, b, hb, p, hp, he⟩
  | parameterized base raw argument ihb iha =>
    rw [Declaration.CastsMatch, ← ihb, ← iha]
    simp only [Declaration.draft, bind_eq_ok_iff, pure_eq_ok_iff]
    constructor
    · intro hdrafted
      rcases hdrafted with ⟨_, b, hb, a, ha, -⟩
      exact ⟨⟨b, hb⟩, a, ha⟩
    · intro hparts
      rcases hparts with ⟨⟨b, hb⟩, a, ha⟩
      exact ⟨_, b, hb, a, ha, rfl⟩

/-- A declaration is refused only for a cast that leads to some other type. -/
theorem describe_isOk_iff (d : Declaration) : (∃ q, d.describe = .ok q) ↔ d.CastsMatch := by
  rw [← draft_isOk_iff]
  simp [Declaration.describe, map_eq_ok_iff]

namespace Draft.Records

variable {draft : Draft} {d : Declaration} {parents : List Descriptor}

theorem map_fst_direct (h : draft.Records d parents) : draft.direct.map Prod.fst = parents.map Descriptor.key := by
  rw [h.direct, List.map_map, show (Prod.fst ∘ fun p : Descriptor × Nat =>
    (p.1.key, some [Descriptor.castFrom d.name p])) = Descriptor.key ∘ Prod.fst from rfl, ← List.map_map,
    List.zipIdx_map_fst]

theorem map_fst_inherited (h : draft.Records d parents) : draft.inherited.map Prod.fst =
    parents.flatMap fun p => p.reified ++ p.ancestors.map Prod.fst ++ p.raw := by
  simp only [h.inherited, List.map_flatMap, Descriptor.map_fst_legacy]
  rw [← List.flatMap_map (f := Prod.fst) (g := fun p : Descriptor => p.reified ++ p.ancestors.map Prod.fst ++ p.raw),
    List.zipIdx_map_fst]

theorem exists_described (h : draft.Records d parents) {p : Declaration} (hp : p ∈ d.parents) :
    ∃ q ∈ parents, p.describe = .ok q := by
  obtain ⟨i, hi, rfl⟩ := List.mem_iff_getElem.1 hp
  have hlen := h.described.length_eq
  exact ⟨parents[i], List.getElem_mem _, h.described.get hi (by omega)⟩

theorem exists_parent (h : draft.Records d parents) {q : Descriptor} (hq : q ∈ parents) :
    ∃ p ∈ d.parents, p.describe = .ok q := by
  obtain ⟨i, hi, rfl⟩ := List.mem_iff_getElem.1 hq
  have hlen := h.described.length_eq
  exact ⟨d.parents[i], List.getElem_mem _, h.described.get (by omega) hi⟩

end Draft.Records
end PubSub
