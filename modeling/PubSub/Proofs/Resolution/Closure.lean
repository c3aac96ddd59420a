import PubSub.Matcher
import PubSub.Proofs.Registry.Rows
import PubSub.Proofs.Resolution.Drafting

/-!
# The keys of a declaration

Which keys a declaration reaches is said here without lists and without an order. A descriptor resolves to just these
keys, each of them once, with its own key in front and the root behind.
-/

namespace PubSub

/-- The keys under which the events of a declared type are found: the smallest set that holds its own key and the root,
the raw wrapper and all that the wrapper makes of the argument's keys, and the keys of its supertypes. -/
inductive Declaration.Reaches : Declaration → Key → Prop
  | own (d : Declaration) : d.Reaches (.named d.name)
  | root (d : Declaration) : d.Reaches .root
  | raw {d argument : Declaration} {raw : Key} (h : d.parameter? = some (raw, argument)) : d.Reaches raw
  | reified {d argument : Declaration} {raw k : Key} (h : d.parameter? = some (raw, argument))
      (hk : argument.Reaches k) : d.Reaches (.applied raw k)
  | inherited {d p : Declaration} {k : Key} (h : p ∈ d.parents) (hk : p.Reaches k) : d.Reaches k

namespace Descriptor

theorem keys_completed (d : Descriptor) (cls : Name) : (d.completed cls).keys = d.keys := by
  apply map_fst_freshEntries_congr
  simp only [completed]
  split <;> simp [candidates, key, reified, raw]

theorem mem_keys (d : Descriptor) (k : Key) :
    k ∈ d.keys ↔ k = d.key ∨ k ∈ d.reified ∨ k ∈ d.ancestors.map Prod.fst ∨ k ∈ d.raw ∨ k = .root := by
  simp only [keys, Resolution.keys, resolve]
  rw [mem_keys_freshEntries]
  simp [candidates]

theorem nodup_keys (d : Descriptor) : d.keys.Nodup :=
  nodup_keys_freshEntries _ _

theorem head?_keys (d : Descriptor) : d.keys.head? = some d.key := by
  simp [keys, Resolution.keys, resolve, candidates, freshEntries]

private theorem getLast?_keys_freshEntries {seen : List Key} (es : Resolution) (raw : List Key) (root : Option View)
    (hr : raw.length ≤ 1) (hs : Key.root ∉ es.map Prod.fst ++ seen) :
    ((freshEntries seen (es ++ (raw.map (·, none) ++ [(Key.root, root)]))).map Prod.fst).getLast? = some .root := by
  rw [freshEntries_append, List.map_append]
  match raw, hr with
  | [], _ => simp [freshEntries, hs]
  | [r], _ =>
    by_cases hm : r ∈ es.map Prod.fst ++ seen
    · simp [freshEntries, hm, hs]
    · by_cases hroot : r = .root
      · simp [freshEntries, hs, hroot]
      · have hne : ¬ Key.root = r := fun h => hroot h.symm
        simp [freshEntries, hm, hs, hne]
  | _ :: _ :: _, hr => simp at hr

theorem getLast?_keys {d : Descriptor} (hk : d.key ≠ .root) (ha : Key.root ∉ d.ancestors.map Prod.fst) :
    d.keys.getLast? = some .root := by
  have hsplit : d.candidates = ((d.key, d.view) :: d.reified.map (·, none)
      ++ d.ancestors.map (fun a => (a.1, do (← d.view).along (← a.2))))
      ++ (d.raw.map (·, none) ++ [(Key.root, some View.root)]) := by
    simp [candidates]
  have hraw : d.raw.length ≤ 1 := by
    simp only [raw]
    cases d.parameter <;> simp
  have hreified : Key.root ∉ d.reified := by
    simp only [reified]
    cases d.parameter <;> simp [Parameter.keys, Key.root]
  simp only [keys, Resolution.keys, resolve]
  rw [hsplit]
  apply getLast?_keys_freshEntries _ _ _ hraw
  simp only [List.map_append, List.map_cons, List.map_map, List.append_nil, List.mem_append, List.mem_cons]
  intro hroot
  rcases hroot with (h | h) | h
  · exact hk h.symm
  · exact hreified (by simpa [Function.comp_def] using h)
  · exact ha (by simpa [Function.comp_def] using h)

end Descriptor

namespace Draft.Records

variable {draft : Draft} {d : Declaration} {parents : List Descriptor}

theorem mem_keys_ancestors (h : draft.Records d parents) (k : Key) :
    k ∈ draft.build.ancestors.map Prod.fst ↔
      (∃ p ∈ parents, k = p.key ∨ k ∈ p.reified ++ p.ancestors.map Prod.fst ++ p.raw) ∧ k ≠ .named d.name ∧
        k ≠ .root := by
  simp only [build, mem_keys_freshEntries, h.name, List.map_append, h.map_fst_direct, h.map_fst_inherited]
  simp only [List.mem_append, List.mem_map, List.mem_flatMap, List.mem_cons, List.not_mem_nil, or_false, not_or]
  constructor
  · intro hk
    rcases hk with ⟨⟨p, hp, rfl⟩ | ⟨p, hp, hk⟩, hne⟩
    · exact ⟨⟨p, hp, Or.inl rfl⟩, hne⟩
    · exact ⟨⟨p, hp, Or.inr hk⟩, hne⟩
  · intro hk
    rcases hk with ⟨⟨p, hp, rfl | hk⟩, hne⟩
    · exact ⟨Or.inl ⟨p, hp, rfl⟩, hne⟩
    · exact ⟨Or.inr ⟨p, hp, hk⟩, hne⟩

theorem mem_keys_build (h : draft.Records d parents) (k : Key) :
    k ∈ draft.build.keys ↔ k = .named d.name ∨ k = .root ∨ k ∈ draft.build.reified ∨ k ∈ draft.build.raw
      ∨ ∃ p ∈ parents, k ∈ p.keys := by
  have hkey : draft.build.key = .named d.name := congrArg Key.named h.name
  rw [Descriptor.mem_keys, h.mem_keys_ancestors, hkey]
  simp only [List.mem_append, Descriptor.mem_keys]
  constructor
  · intro hk
    rcases hk with hk | hk | ⟨⟨p, hp, hk⟩, -, -⟩ | hk | hk
    · exact Or.inl hk
    · exact Or.inr (Or.inr (Or.inl hk))
    · refine Or.inr (Or.inr (Or.inr (Or.inr ⟨p, hp, ?_⟩)))
      tauto
    · exact Or.inr (Or.inr (Or.inr (Or.inl hk)))
    · exact Or.inr (Or.inl hk)
  · by_cases hown : k = .named d.name
    · exact fun _ => Or.inl hown
    by_cases hroot : k = .root
    · exact fun _ => Or.inr (Or.inr (Or.inr (Or.inr hroot)))
    intro hk
    rcases hk with hk | hk | hk | hk | ⟨p, hp, hk⟩
    · exact Or.inl hk
    · exact absurd hk hroot
    · exact Or.inr (Or.inl hk)
    · exact Or.inr (Or.inr (Or.inr (Or.inl hk)))
    · refine Or.inr (Or.inr (Or.inl ⟨⟨p, hp, ?_⟩, hown, hroot⟩))
      tauto

end Draft.Records

section Described

variable {d : Declaration} {q : Descriptor}

theorem key_of_describe (h : d.describe = .ok q) : q.key = .named d.name := by
  obtain ⟨draft, -, rfl, parents, hr⟩ := records_of_describe h
  exact congrArg Key.named hr.name

private theorem describe_argument (h : d.describe = .ok q) {raw : Key} {argument : Declaration}
    (hp : d.parameter? = some (raw, argument)) : ∃ a, argument.describe = .ok a := by
  obtain ⟨draft, -, rfl, parents, hr⟩ := records_of_describe h
  have parameter := hr.parameter
  simp only [hp] at parameter
  obtain ⟨a, ha, -⟩ := parameter
  exact ⟨a, ha⟩

private theorem describe_parent (h : d.describe = .ok q) {p : Declaration} (hp : p ∈ d.parents) :
    ∃ b, p.describe = .ok b := by
  obtain ⟨draft, -, rfl, parents, hr⟩ := records_of_describe h
  obtain ⟨b, -, hb⟩ := hr.exists_described hp
  exact ⟨b, hb⟩

private theorem mem_keys_describe (h : d.describe = .ok q) (k : Key) :
    k ∈ q.keys ↔ k = .named d.name ∨ k = .root
      ∨ (∃ raw argument a, d.parameter? = some (raw, argument) ∧ argument.describe = .ok a ∧
          (k = raw ∨ ∃ k' ∈ a.keys, k = .applied raw k'))
      ∨ ∃ p ∈ d.parents, ∃ b, p.describe = .ok b ∧ k ∈ b.keys := by
  obtain ⟨draft, -, rfl, parents, hr⟩ := records_of_describe h
  have hparam : (k ∈ draft.build.reified ∨ k ∈ draft.build.raw) ↔
      ∃ raw argument a, d.parameter? = some (raw, argument) ∧ argument.describe = .ok a ∧
        (k = raw ∨ ∃ k' ∈ a.keys, k = .applied raw k') := by
    have parameter := hr.parameter
    cases hp : d.parameter? with
    | none =>
      simp only [hp] at parameter
      simp [Descriptor.reified, Descriptor.raw, Draft.build, parameter]
    | some p =>
      simp only [hp] at parameter
      obtain ⟨a, ha, hpar⟩ := parameter
      simp only [Descriptor.reified, Descriptor.raw, Draft.build, hpar, Option.elim_some, Parameter.keys,
        List.mem_map, List.mem_singleton]
      constructor
      · intro hfrom
        rcases hfrom with ⟨k', hk', rfl⟩ | rfl
        · exact ⟨p.1, p.2, a, rfl, ha, Or.inr ⟨k', hk', rfl⟩⟩
        · exact ⟨p.1, p.2, a, rfl, ha, Or.inl rfl⟩
      · intro hfrom
        rcases hfrom with ⟨raw, argument, a', he, ha', hk⟩
        obtain rfl := Option.some.inj he
        obtain rfl : a = a' := Except.ok.inj (ha.symm.trans ha')
        rcases hk with rfl | ⟨k', hk', rfl⟩
        · exact Or.inr rfl
        · exact Or.inl ⟨k', hk', rfl⟩
  have hparents : (∃ b ∈ parents, k ∈ b.keys) ↔ ∃ p ∈ d.parents, ∃ b, p.describe = .ok b ∧ k ∈ b.keys := by
    constructor
    · intro hfrom
      rcases hfrom with ⟨b, hb, hk⟩
      obtain ⟨p, hp, hpb⟩ := hr.exists_parent hb
      exact ⟨p, hp, b, hpb, hk⟩
    · intro hfrom
      rcases hfrom with ⟨p, hp, b, hpb, hk⟩
      obtain ⟨b', hb', hpb'⟩ := hr.exists_described hp
      obtain rfl : b = b' := Except.ok.inj (hpb.symm.trans hpb')
      exact ⟨b, hb', hk⟩
  rw [hr.mem_keys_build, hparents, ← hparam, or_assoc]

private theorem reaches_of_mem_keys {d : Declaration} {q : Descriptor} (h : d.describe = .ok q) {k : Key}
    (hk : k ∈ q.keys) : d.Reaches k := by
  rcases (mem_keys_describe h k).1 hk with rfl | rfl | ⟨raw, argument, a, hp, ha, hk⟩ | ⟨p, hp, b, hb, hk⟩
  · exact .own d
  · exact .root d
  · rcases hk with rfl | ⟨k', hk', rfl⟩
    · exact .raw hp
    · have := Declaration.sizeOf_lt_of_parameter? hp
      exact .reified hp (reaches_of_mem_keys ha hk')
  · have := Declaration.sizeOf_lt_of_mem_parents hp
    exact .inherited hp (reaches_of_mem_keys hb hk)
termination_by sizeOf d

private theorem mem_keys_of_reaches (h : d.describe = .ok q) {k : Key} (hk : d.Reaches k) : k ∈ q.keys := by
  induction hk generalizing q with
  | own d => exact (mem_keys_describe h _).2 (Or.inl rfl)
  | root d => exact (mem_keys_describe h _).2 (Or.inr (Or.inl rfl))
  | raw hp =>
    obtain ⟨a, ha⟩ := describe_argument h hp
    exact (mem_keys_describe h _).2 (Or.inr (Or.inr (Or.inl ⟨_, _, a, hp, ha, Or.inl rfl⟩)))
  | reified hp _ ih =>
    obtain ⟨a, ha⟩ := describe_argument h hp
    exact (mem_keys_describe h _).2 (Or.inr (Or.inr (Or.inl ⟨_, _, a, hp, ha, Or.inr ⟨_, ih ha, rfl⟩⟩)))
  | inherited hp _ ih =>
    obtain ⟨b, hb⟩ := describe_parent h hp
    exact (mem_keys_describe h _).2 (Or.inr (Or.inr (Or.inr ⟨_, hp, b, hb, ih hb⟩)))

theorem mem_keys_iff_reaches (h : d.describe = .ok q) (k : Key) : k ∈ q.keys ↔ d.Reaches k :=
  ⟨reaches_of_mem_keys h, mem_keys_of_reaches h⟩

private theorem root_not_mem_ancestors (h : d.describe = .ok q) : Key.root ∉ q.ancestors.map Prod.fst := by
  obtain ⟨draft, -, rfl, parents, hr⟩ := records_of_describe h
  intro hm
  exact ((hr.mem_keys_ancestors _).1 hm).2.2 rfl

/-- The keys of a declared type: each once, its own in front, the root behind, and just those that the declaration
reaches. So a subscription is found exactly if its key is among them, also when the view of the type itself was only
added afterwards. -/
theorem keys_eq_declared_closure (h : d.describe = .ok q) :
    q.keys.Nodup ∧ q.keys.head? = some (.named d.name) ∧ (d.name ≠ .root → q.keys.getLast? = some .root) ∧
      (∀ k, k ∈ q.keys ↔ d.Reaches k) ∧
      ∀ (cls : Name) (r : Registry) (s : Subscription),
        (∃ v, (s, v) ∈ r.lookup (q.completed cls).resolve) ↔ ∃ k, d.Reaches k ∧ s ∈ r.row k := by
  have hown := key_of_describe h
  have hkeys := mem_keys_iff_reaches h
  refine ⟨q.nodup_keys, hown ▸ q.head?_keys, ?_, hkeys, ?_⟩
  · intro hn
    apply Descriptor.getLast?_keys _ (root_not_mem_ancestors h)
    rw [hown]
    simpa [Key.root] using hn
  · intro cls r s
    have hfound : (∃ v, (s, v) ∈ r.lookup (q.completed cls).resolve) ↔ ∃ k ∈ (q.completed cls).keys, s ∈ r.row k := by
      simp only [Registry.mem_lookup, Descriptor.keys, Resolution.keys, List.mem_map, Prod.exists, exists_eq_right,
        exists_and_right]
      constructor
      · intro hfound
        rcases hfound with ⟨v, k, hk, hs⟩
        exact ⟨k, ⟨v, hk⟩, hs⟩
      · intro hfound
        rcases hfound with ⟨k, ⟨v, hk⟩, hs⟩
        exact ⟨v, k, hk, hs⟩
    rw [hfound, Descriptor.keys_completed]
    simp only [hkeys]

end Described

/-- A class whose base is the reified form of a wrapper hears of what the wrapper makes of the root. -/
theorem redelivered_reaches_applied_root :
    let wrapped := Declaration.parameterized (.concrete (.composite 1)) (.named (.wrapper 0)) (.abstract (.simple 0))
    let d := Declaration.extending (.concrete (.composite 0)) wrapped (.composite 1)
    ∃ q, d.describe = .ok q ∧ d.Reaches (.applied (.named (.wrapper 0)) .root) :=
  ⟨_, rfl, ((keys_eq_declared_closure rfl).2.2.2.1 _).1 (by decide)⟩

end PubSub
