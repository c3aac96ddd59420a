import PubSub.Proofs.Resolution.Distances

/-!
# The order of supertypes

The supertypes of a type are listed direct ones first. The others are in the order of their distance if the hierarchy is
tidy, and they are not as soon as one supertype leads three steps up and a later one declares something new.
-/

namespace PubSub

/-- The keys between the own one and the root. -/
def Descriptor.between (q : Descriptor) : List Key :=
  q.keys.filter fun k => k ≠ q.key ∧ k ≠ .root

namespace Declaration

/-- Of two keys the one that comes first is not further away. -/
def BreadthFirst (d : Declaration) (keys : List Key) : Prop :=
  keys.Pairwise fun k k' => ∀ m n, d.IsAway m k → d.IsAway n k' → m ≤ n

/-- The first key is further away than the second, and some supertype leads to it before any leads to the second. -/
structure Overtakes (d : Declaration) (k k' : Key) : Prop where
  further : ∃ m n, 1 < m ∧ m < n ∧ d.IsAway m k' ∧ d.IsAway n k
  earlier : ∃ before p after, d.parents = before ++ p :: after ∧ (∃ steps, k ∈ p.climb steps) ∧
    ∀ r ∈ before ++ [p], ∀ steps, k' ∉ r.climb steps
  notRoot : k ≠ .root ∧ k' ≠ .root

variable {d : Declaration} {q : Descriptor}

section Membership

private theorem described_of_mem {ps : List Declaration} {qs : List Descriptor}
    (h : List.Forall₂ (fun p q => p.describe = .ok q) ps qs) {q : Descriptor} (hq : q ∈ qs) :
    ∃ p ∈ ps, p.describe = .ok q := by
  obtain ⟨i, hi, rfl⟩ := List.mem_iff_getElem.1 hq
  have hlength := h.length_eq
  exact ⟨ps[i], List.getElem_mem _, h.get (by omega) hi⟩

private theorem exists_described {ps : List Declaration} {qs : List Descriptor}
    (h : List.Forall₂ (fun p q => p.describe = .ok q) ps qs) {p : Declaration} (hp : p ∈ ps) :
    ∃ q ∈ qs, p.describe = .ok q := by
  obtain ⟨i, hi, rfl⟩ := List.mem_iff_getElem.1 hp
  have hlength := h.length_eq
  exact ⟨qs[i], List.getElem_mem _, h.get hi (by omega)⟩

private theorem described_append {ps ps' : List Declaration} {qs : List Descriptor}
    (h : List.Forall₂ (fun p q => p.describe = .ok q) (ps ++ ps') qs) :
    ∃ bs bs', List.Forall₂ (fun p q => p.describe = .ok q) ps bs ∧
      List.Forall₂ (fun p q => p.describe = .ok q) ps' bs' ∧ qs = bs ++ bs' := by
  induction ps generalizing qs with
  | nil => exact ⟨[], qs, List.Forall₂.nil, h, rfl⟩
  | cons p ps ih =>
    obtain ⟨b, qs, hb, hrest, rfl⟩ := List.forall₂_cons_left_iff.1 h
    obtain ⟨bs, bs', hbs, hbs', rfl⟩ := ih hrest
    exact ⟨b :: bs, bs', List.Forall₂.cons hb hbs, hbs', rfl⟩

theorem mem_ancestorKeys {d : Declaration} {q : Descriptor} (hplain : d.IsPlain) (h : d.describe = .ok q) (k : Key) :
    k ∈ q.ancestorKeys ↔ k ≠ .named d.name ∧ k ≠ .root ∧ ∃ steps, k ∈ d.climb (steps + 1) := by
  obtain ⟨qs, hl⟩ := exists_lists hplain h
  have habove {p : Declaration} {b : Descriptor} (hp : p ∈ d.parents) (hb : p.describe = .ok b) :
      k ∈ b.ancestorKeys ↔ k ≠ .named p.name ∧ k ≠ .root ∧ ∃ steps, k ∈ p.climb (steps + 1) := by
    have := sizeOf_lt_of_mem_parents hp
    exact mem_ancestorKeys (isPlain_of_parents hplain p hp) hb k
  rw [hl.ancestors, mem_firstKeys]
  simp only [List.mem_append, List.mem_map, List.mem_flatMap, List.mem_cons, List.not_mem_nil, or_false, not_or]
  constructor
  · rintro ⟨⟨p, hp, rfl⟩ | ⟨b, hb, hk⟩, hown, hroot⟩
    · exact ⟨hown, hroot, 0, mem_climb_of_parent hp (List.mem_singleton.2 rfl)⟩
    · obtain ⟨p, hp, hpb⟩ := described_of_mem hl.described hb
      obtain ⟨-, -, steps, hk⟩ := (habove hp hpb).1 hk
      exact ⟨hown, hroot, steps + 1, mem_climb_of_parent hp hk⟩
  · rintro ⟨hown, hroot, steps, hk⟩
    refine ⟨?_, hown, hroot⟩
    obtain ⟨p, hp, hk⟩ := mem_climb_succ.1 hk
    by_cases hdirect : k = .named p.name
    · exact Or.inl ⟨p, hp, hdirect.symm⟩
    · obtain ⟨b, hb, hpb⟩ := exists_described hl.described hp
      refine Or.inr ⟨b, hb, (habove hp hpb).2 ⟨hdirect, hroot, ?_⟩⟩
      cases steps with
      | zero => exact absurd (List.mem_singleton.1 hk) hdirect
      | succ steps => exact ⟨steps, hk⟩
termination_by sizeOf d

end Membership

section Order

private theorem nearer_of_listed {before after : List Declaration} {p : Declaration} {k k' : Key} {steps : Nat}
    (hparents : d.parents = before ++ p :: after)
    (hlayered : p.IsDeep → ∀ r ∈ after, ∀ b ∈ r.bases, b ∈ d.parents ++ before.flatMap parents ++ p.parents)
    (hk : k ∈ p.climb (steps + 1)) (hroot : k ≠ .root) (hroot' : k' ≠ .root) (hown : k' ≠ .named d.name)
    (hdirect : ∀ r ∈ d.parents, k' ≠ .named r.name) (hbefore : ∀ r ∈ before, ∀ n, k' ∉ r.climb n)
    (hnear : p.Nearer k k') : d.Nearer k k' := by
  have hp : p ∈ d.parents := hparents ▸ List.mem_append_right _ (List.mem_cons_self ..)
  have hthrough {n : Nat} (hk' : k' ∈ p.climb n) : ∃ fewer ≤ n + 1, k ∈ d.climb fewer := by
    obtain ⟨fewer, hle, hmem⟩ := hnear n hk'
    exact ⟨fewer + 1, Nat.succ_le_succ hle, mem_climb_of_parent hp hmem⟩
  intro n hk'
  induction n using Nat.strongRecOn with
  | _ n ih =>
    -- neither the type itself nor a direct supertype is meant, so there is a second step
    obtain _ | n := n
    · exact absurd (List.mem_singleton.1 hk') hown
    obtain ⟨r, hr, hk'⟩ := mem_climb_succ.1 hk'
    obtain _ | n := n
    · exact absurd (List.mem_singleton.1 hk') (hdirect r hr)
    rw [hparents, List.mem_append, List.mem_cons] at hr
    rcases hr with hr | rfl | hr
    · exact absurd hk' (hbefore r hr _)
    · exact hthrough hk'
    · by_cases hdeep : p.IsDeep
      · obtain ⟨b, hb, hkb⟩ := mem_climb_succ.1 hk'
        have hknown := hlayered hdeep r hr b (mem_bases hb hkb hroot')
        simp only [List.mem_append, List.mem_flatMap] at hknown
        rcases hknown with (hb | ⟨r', hr', hb⟩) | hb
        · obtain ⟨fewer, hle, hmem⟩ := ih (n + 1) (by omega) (mem_climb_of_parent hb hkb)
          exact ⟨fewer, by omega, hmem⟩
        · exact absurd (mem_climb_of_parent hb hkb) (hbefore r' hr' _)
        · exact hthrough (mem_climb_of_parent hb hkb)
      · obtain _ | steps := steps
        · exact ⟨2, by omega, mem_climb_of_parent hp hk⟩
        · exact absurd (isDeep_of_climb hk hroot) hdeep

/-- The key is listed before what the supertypes after these bring along: it is the own one, the root, that of a direct
supertype, or one that these lead to. -/
private inductive Settled (d : Declaration) (before : List Declaration) (k : Key) : Prop
  | own (h : k = .named d.name) : Settled d before k
  | root (h : k = .root) : Settled d before k
  | direct {r : Declaration} (hr : r ∈ d.parents) (h : k = .named r.name) : Settled d before k
  | above {r : Declaration} (hr : r ∈ before) {steps : Nat} (h : k ∈ r.climb steps) : Settled d before k

private theorem Settled.of_append {before : List Declaration} {p : Declaration} {k : Key}
    (h : Settled d (before ++ [p]) k) : Settled d before k ∨ ∃ steps, k ∈ p.climb steps := by
  cases h with
  | own h => exact Or.inl (.own h)
  | root h => exact Or.inl (.root h)
  | direct hr h => exact Or.inl (.direct hr h)
  | above hr h =>
    rcases List.mem_append.1 hr with hr | hr
    · exact Or.inl (.above hr h)
    · exact Or.inr ⟨_, List.mem_singleton.1 hr ▸ h⟩

private theorem pairwise_inherited (hplain : ∀ p ∈ d.parents, p.IsPlain) (before : List Declaration)
    {later : List Declaration} {qs : List Descriptor} {seen : List Key} (hparents : d.parents = before ++ later)
    (hdescribed : List.Forall₂ (fun p q => p.describe = .ok q) later qs)
    (hlayered : Layered (d.parents ++ before.flatMap parents) later)
    (hnear : ∀ p ∈ later, ∀ b, p.describe = .ok b → b.ancestorKeys.Pairwise p.Nearer)
    (hseen : ∀ k, Settled d before k → k ∈ seen) :
    (firstKeys seen (qs.flatMap Descriptor.ancestorKeys)).Pairwise d.Nearer := by
  induction hdescribed generalizing before seen with
  | nil => exact List.Pairwise.nil
  | @cons p b after qs hb _ ih =>
    have hp : p ∈ d.parents := hparents ▸ List.mem_append_right _ (List.mem_cons_self ..)
    have hmem := mem_ancestorKeys (hplain p hp) hb
    obtain ⟨hhere, hrest⟩ := hlayered
    have hlists {k k' : Key} (hk : k ∈ b.ancestorKeys) (hk' : k' ∉ seen) (hnear : p.Nearer k k') : d.Nearer k k' := by
      have hnot : ¬ Settled d before k' := fun h => hk' (hseen k' h)
      obtain ⟨-, hroot, steps, hk⟩ := (hmem k).1 hk
      exact nearer_of_listed hparents hhere hk hroot (fun h => hnot (.root h)) (fun h => hnot (.own h))
        (fun r hr h => hnot (.direct hr h)) (fun r hr n h => hnot (.above hr h)) hnear
    have hnext {k : Key} {steps : Nat} (hk : k ∉ seen) (hclimb : k ∈ p.climb steps) : k ∈ b.ancestorKeys := by
      have hdirect : k ≠ .named p.name := fun h => hk (hseen k (.direct hp h))
      obtain _ | steps := steps
      · exact absurd (List.mem_singleton.1 hclimb) hdirect
      · exact (hmem k).2 ⟨hdirect, fun h => hk (hseen k (.root h)), steps, hclimb⟩
    rw [List.flatMap_cons, firstKeys_append, List.pairwise_append]
    refine ⟨?_, ?_, ?_⟩
    · have hown := (hnear p (List.mem_cons_self ..) b hb).sublist (sublist_firstKeys seen b.ancestorKeys)
      refine hown.imp_of_mem ?_
      intro k k' hk hk' hnearer
      exact hlists ((mem_firstKeys ..).1 hk).1 ((mem_firstKeys ..).1 hk').2 hnearer
    · refine ih (before ++ [p]) (by simp [hparents]) ?_ ?_ ?_
      · simpa [List.append_assoc] using hrest
      · exact fun r hr => hnear r (List.mem_cons_of_mem _ hr)
      · intro k hk
        rw [List.mem_append]
        by_cases hknown : k ∈ seen
        · exact Or.inr hknown
        · rcases hk.of_append with hk | ⟨steps, hclimb⟩
          · exact absurd (hseen k hk) hknown
          · exact Or.inl (hnext hknown hclimb)
    · intro k hk k' hk'
      obtain ⟨-, hnew⟩ := (mem_firstKeys ..).1 hk'
      rw [List.mem_append, not_or] at hnew
      refine hlists ((mem_firstKeys ..).1 hk).1 hnew.2 ?_
      -- the second key is none that the supertype leads to
      intro n hclimb
      exact absurd (hnext hnew.2 hclimb) hnew.1

end Order

section Between

private theorem nodup_ancestorKeys (hl : ∃ qs, Lists d q qs) : q.ancestorKeys.Nodup := by
  obtain ⟨qs, hl⟩ := hl
  rw [hl.ancestors]
  exact nodup_keys_freshEntries ..

theorem between_eq (hplain : d.IsPlain) (h : d.describe = .ok q) : q.between = q.ancestorKeys := by
  obtain ⟨qs, hl⟩ := exists_lists hplain h
  have hmem := mem_ancestorKeys hplain h
  have hnew : ∀ k ∈ q.ancestorKeys, k ∉ [q.key] := by
    intro k hk
    simpa [hl.key] using ((hmem k).1 hk).1
  have hkeys : q.keys = q.key :: (q.ancestorKeys ++ firstKeys (q.ancestorKeys ++ [q.key]) [.root]) := by
    have hcandidates : q.candidates.map Prod.fst = q.key :: (q.ancestorKeys ++ [.root]) := by
      simp [Descriptor.candidates, Descriptor.reified, Descriptor.raw, hl.parameter, Descriptor.ancestorKeys,
        Function.comp_def]
    simp only [Descriptor.keys, Resolution.keys, Descriptor.resolve]
    rw [map_fst_freshEntries, hcandidates, firstKeys_cons, if_neg List.not_mem_nil, firstKeys_append,
      firstKeys_eq_self (nodup_ancestorKeys ⟨qs, hl⟩) hnew]
  have hinner : q.ancestorKeys.filter (fun k => k ≠ q.key ∧ k ≠ .root) = q.ancestorKeys := by
    apply List.filter_eq_self.2
    intro k hk
    obtain ⟨hown, hroot, -⟩ := (hmem k).1 hk
    simp [hl.key, hown, hroot]
  have hlast : (firstKeys (q.ancestorKeys ++ [q.key]) [.root]).filter (fun k => k ≠ q.key ∧ k ≠ .root) = [] := by
    apply List.filter_eq_nil_iff.2
    intro k hk
    have hroot := List.mem_singleton.1 ((mem_firstKeys ..).1 hk).1
    simp [hroot]
  simp only [Descriptor.between]
  rw [hkeys, List.filter_cons_of_neg (by simp), List.filter_append, hinner, hlast, List.append_nil]

end Between

private theorem pairwise_direct {qs : List Descriptor} (hl : Lists d q qs) :
    q.ancestorKeys.Pairwise fun k k' => d.IsAway 1 k' → d.IsAway 1 k := by
  have hdirect {k : Key} : k ∈ d.climb 1 ↔ k ∈ d.parents.map (.named ·.name) := by
    simp [climb, List.mem_flatMap, eq_comm]
  rw [hl.ancestors, firstKeys_append]
  have haway {k : Key} (hk : k ∈ firstKeys [.named d.name, .root] (d.parents.map (.named ·.name))) :
      d.IsAway 1 k := by
    obtain ⟨hk, hnew⟩ := (mem_firstKeys ..).1 hk
    refine ⟨hdirect.2 hk, ?_⟩
    intro fewer hlt hown
    obtain rfl : fewer = 0 := by omega
    exact hnew (by simp [List.mem_singleton.1 hown])
  apply List.pairwise_append.2
  refine ⟨?_, ?_, ?_⟩
  · exact List.pairwise_of_forall_mem_list fun k hk k' _ _ => haway hk
  · refine List.pairwise_of_forall_mem_list fun k _ k' hk' haway' => ?_
    exact absurd (List.mem_append_left _ (hdirect.1 haway'.1)) ((mem_firstKeys ..).1 hk').2
  · exact fun k hk k' _ _ => haway hk

private theorem pairwise_nearer (htidy : d.Tidy) (hplain : d.IsPlain) (h : d.describe = .ok q) :
    q.ancestorKeys.Pairwise d.Nearer := by
  induction htidy generalizing q with
  | @intro d hlayered _ ih =>
    obtain ⟨qs, hl⟩ := exists_lists hplain h
    have habove := isPlain_of_parents hplain
    rw [hl.ancestors, firstKeys_append]
    apply List.pairwise_append.2
    have hfirst {k k' : Key} (hk : k ∈ d.parents.map (.named ·.name)) (hown : k' ≠ .named d.name) : d.Nearer k k' := by
      obtain ⟨p, hp, rfl⟩ := List.mem_map.1 hk
      intro n hk'
      obtain _ | n := n
      · exact absurd (List.mem_singleton.1 hk') hown
      · exact ⟨1, by omega, mem_climb_of_parent hp (List.mem_singleton.2 rfl)⟩
    refine ⟨?_, ?_, ?_⟩
    · refine List.pairwise_of_forall_mem_list fun k hk k' hk' => hfirst ((mem_firstKeys ..).1 hk).1 ?_
      exact fun hown => ((mem_firstKeys ..).1 hk').2 (by simp [hown])
    · refine pairwise_inherited habove [] rfl hl.described ?_ ?_ ?_
      · simpa using hlayered
      · exact fun p hp b hb => ih p hp (habove p hp) hb
      · intro k hk
        cases hk with
        | own h | root h => simp [h]
        | direct hr h => exact List.mem_append_left _ (List.mem_map.2 ⟨_, hr, h.symm⟩)
        | above hr => cases hr
    · refine fun k hk k' hk' => hfirst ((mem_firstKeys ..).1 hk).1 ?_
      intro hown
      exact ((mem_firstKeys ..).1 hk').2 (List.mem_append_right _ (by simp [hown]))

private theorem not_breadthFirst (hplain : d.IsPlain) (h : d.describe = .ok q) {k k' : Key} (hover : d.Overtakes k k') :
    ¬ d.BreadthFirst q.ancestorKeys := by
  obtain ⟨qs, hl⟩ := exists_lists hplain h
  obtain ⟨⟨m, n, hm, hn, haway', haway⟩, ⟨before, p, after, hparents, ⟨steps, hk⟩, hlate⟩, hroot, hroot'⟩ := hover
  have hp : p ∈ d.parents := by simp [hparents]
  obtain ⟨bs, qs', hbefore, hrest, rfl⟩ := described_append (hparents ▸ hl.described)
  obtain ⟨b, as, hb, -, rfl⟩ := List.forall₂_cons_left_iff.1 hrest
  have hmem := mem_ancestorKeys (isPlain_of_parents hplain p hp) hb
  -- all that is listed up to the supertype that leads to the first key
  set early := d.parents.map (Key.named ·.name) ++ (bs.flatMap Descriptor.ancestorKeys ++ b.ancestorKeys) with hearly
  have hancestors : q.ancestorKeys = firstKeys [.named d.name, .root] early ++
      firstKeys (early ++ [.named d.name, .root]) (as.flatMap Descriptor.ancestorKeys) := by
    rw [hl.ancestors, ← firstKeys_append, hearly]
    simp
  have hfirst : k ∈ firstKeys [.named d.name, .root] early := by
    have hown : k ≠ .named d.name := fun hown => haway.2 0 (by omega) (List.mem_singleton.2 hown)
    have hdirect : k ≠ .named p.name := fun hdirect =>
      haway.2 1 (by omega) (mem_climb_of_parent hp (List.mem_singleton.2 hdirect))
    obtain _ | steps := steps
    · exact absurd (List.mem_singleton.1 hk) hdirect
    · apply (mem_firstKeys ..).2
      simp [hearly, (hmem k).2 ⟨hdirect, hroot, steps, hk⟩, hown, hroot]
  have hsecond : k' ∉ firstKeys [.named d.name, .root] early := by
    intro hk'
    obtain ⟨hk', -⟩ := (mem_firstKeys ..).1 hk'
    simp only [hearly, List.mem_append, List.mem_map, List.mem_flatMap] at hk'
    rcases hk' with ⟨r, hr, rfl⟩ | ⟨c, hc, hk'⟩ | hk'
    · exact haway'.2 1 hm (mem_climb_of_parent hr (List.mem_singleton.2 rfl))
    · obtain ⟨r, hr, hrc⟩ := described_of_mem hbefore hc
      obtain ⟨-, -, steps, hk'⟩ := (mem_ancestorKeys (isPlain_of_parents hplain r (by simp [hparents, hr])) hrc k').1 hk'
      exact hlate r (List.mem_append_left _ hr) _ hk'
    · obtain ⟨-, -, steps, hk'⟩ := (hmem k').1 hk'
      exact hlate p (List.mem_append_right _ (List.mem_singleton.2 rfl)) _ hk'
  have hlisted : k' ∈ q.ancestorKeys := by
    obtain ⟨m, rfl⟩ : ∃ m', m = m' + 1 := ⟨m - 1, by omega⟩
    refine (mem_ancestorKeys hplain h k').2 ⟨?_, hroot', m, haway'.1⟩
    exact fun hown => haway'.2 0 (by omega) (List.mem_singleton.2 hown)
  intro hbreadth
  rw [hancestors] at hlisted
  rw [BreadthFirst, hancestors, List.pairwise_append] at hbreadth
  have hle := hbreadth.2.2 k hfirst k' ((List.mem_append.1 hlisted).resolve_left hsecond) n m haway haway'
  omega

/-- The keys between the own one and the root are the supertypes, and each of them is one or more steps away. Those one
step away are in front of all others. If the hierarchy is tidy, all are in the order of their distance; they are not if a
key overtakes another. -/
theorem supertypes_by_distance (hplain : d.IsPlain) (h : d.describe = .ok q) :
    (∀ k, k ∈ q.between ↔ k ≠ .named d.name ∧ k ≠ .root ∧ ∃ steps, d.IsAway (steps + 1) k) ∧
      (q.between.Pairwise fun k k' => d.IsAway 1 k' → d.IsAway 1 k) ∧
      (d.Tidy → d.BreadthFirst q.between) ∧
      ∀ k k', d.Overtakes k k' → ¬ d.BreadthFirst q.between := by
  rw [between_eq hplain h]
  refine ⟨?_, ?_, ?_, ?_⟩
  · intro k
    rw [mem_ancestorKeys hplain h]
    refine and_congr_right fun hown => and_congr_right fun _ => ⟨?_, ?_⟩
    · rintro ⟨steps, hk⟩
      obtain ⟨fewest, -, haway⟩ := exists_isAway hk
      obtain _ | fewest := fewest
      · exact absurd (List.mem_singleton.1 haway.1) hown
      · exact ⟨fewest, haway⟩
    · rintro ⟨steps, haway⟩
      exact ⟨steps, haway.1⟩
  · obtain ⟨qs, hl⟩ := exists_lists hplain h
    exact pairwise_direct hl
  · intro htidy
    refine (pairwise_nearer htidy hplain h).imp ?_
    intro k k' hnearer m n hm hn
    exact hnearer.le hm hn
  · intro k k' hover
    exact not_breadthFirst hplain h hover

/-- A supertype with one supertype, and after it one that leads two steps further up. -/
theorem later_supertype_reaches_further :
    let first := Declaration.extending (.abstract (.interface 1)) (.abstract (.interface 3)) (.interface 3)
    let second := Declaration.extending (.abstract (.interface 2))
      (.extending (.abstract (.interface 4)) (.abstract (.interface 5)) (.interface 5)) (.interface 4)
    let d := Declaration.extending (.extending (.concrete (.composite 0)) first (.interface 1)) second (.interface 2)
    d.IsPlain ∧ d.Tidy ∧ ∃ q, d.describe = .ok q ∧ q.between = [1, 2, 3, 4, 5].map (fun i => .named (.interface i)) ∧
      d.BreadthFirst q.between := by
  intro first second d
  have hplain : d.IsPlain := by simp [d, first, second, IsPlain]
  have hleaf (i : Nat) : (Declaration.abstract (.interface i)).Tidy := ⟨trivial, by simp [parents]⟩
  have hchain (i j : Nat) {p : Declaration} (hp : p.Tidy) :
      (Declaration.extending (.abstract (.interface i)) p (.interface j)).Tidy :=
    ⟨by simp [Layered, parents], by simpa [parents] using hp⟩
  have htidy : d.Tidy := by
    refine ⟨?_, ?_⟩
    · simp [d, first, second, Layered, parents, IsDeep, bases]
    · simp only [d, parents, List.nil_append, List.cons_append, List.forall_mem_cons, List.not_mem_nil, false_imp_iff]
      exact ⟨hchain _ _ (hleaf _), hchain _ _ (hchain _ _ (hleaf _)), by simp⟩
  exact ⟨hplain, htidy, _, rfl, by decide, (supertypes_by_distance hplain rfl).2.2.1 htidy⟩

/-- With two steps up from the first supertype the fifth interface comes after the fourth, though it is nearer. -/
theorem first_supertype_overtakes :
    let first := Declaration.extending (.abstract (.interface 1))
      (.extending (.abstract (.interface 3)) (.abstract (.interface 4)) (.interface 4)) (.interface 3)
    let second := Declaration.extending (.abstract (.interface 2)) (.abstract (.interface 5)) (.interface 5)
    let d := Declaration.extending (.extending (.concrete (.composite 0)) first (.interface 1)) second (.interface 2)
    d.IsPlain ∧ ∃ q, d.describe = .ok q ∧ q.between = [1, 2, 3, 4, 5].map (fun i => .named (.interface i)) ∧
      d.IsAway 3 (.named (.interface 4)) ∧ d.IsAway 2 (.named (.interface 5)) ∧ ¬ d.BreadthFirst q.between := by
  intro first second d
  have hfurther : d.IsAway 3 (.named (.interface 4)) := by decide
  have hnearer : d.IsAway 2 (.named (.interface 5)) := by decide
  refine ⟨by simp [d, first, second, IsPlain], _, rfl, by decide, hfurther, hnearer, ?_⟩
  intro hbreadth
  have hlisted : [Key.named (.interface 4), .named (.interface 5)].Pairwise fun k k' =>
      ∀ m n, d.IsAway m k → d.IsAway n k' → m ≤ n := hbreadth.sublist (by decide)
  have hle := List.rel_of_pairwise_cons hlisted (List.mem_singleton.2 rfl) 3 2 hfurther hnearer
  omega

end Declaration
end PubSub
