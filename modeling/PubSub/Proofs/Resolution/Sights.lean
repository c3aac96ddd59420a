import PubSub.Proofs.Resolution.Closure
import PubSub.Proofs.Resolution.Views

/-!
# What the events of a declared class show

Under its own key and those of its direct supertypes an event is seen. Under any other key it is seen as the first
supertype that leads to the key lets it be seen; there may be no view, as under the raw key of a wrapper.
-/

namespace PubSub

/-- A path of casts that starts at a type, each cast where the one before it ends. -/
inductive Connects : Name → List Cast → Prop
  | nil (n : Name) : Connects n []
  | cons {m : Name} {path : List Cast} (n : Name) (rank : Nat) (h : Connects m path) : Connects n (⟨n, m, rank⟩ :: path)

theorem Connects.along {n : Name} {path : List Cast} (h : Connects n path) (v : View) (hv : v.target = n) :
    ∃ v', v.along path = some v' := by
  induction h generalizing v with
  | nil n => exact ⟨v, rfl⟩
  | @cons m path n rank _ ih =>
    obtain ⟨v', hv'⟩ := ih (v.through ⟨n, m, rank⟩) rfl
    exact ⟨v', by rw [View.along, if_pos hv, hv']⟩

namespace Descriptor

/-- Whether the key is found, and if so, whether an event of the described class is seen under it. -/
def sight (d : Descriptor) (k : Key) : Option Bool :=
  ((d.viewedAs d.name).resolve.lookup k).map Option.isSome

theorem lookup_legacy (d : Descriptor) (cast : Cast) (k : Key) :
    (d.legacy cast).lookup k =
      if k ∈ d.reified then some none
      else match d.ancestors.lookup k with
        | some casts => some (casts.map (cast :: ·))
        | none => if k ∈ d.raw then some none else none := by
  have hancestors := lookup_map_snd d.ancestors (fun casts => casts.map (cast :: ·)) k
  simp only [legacy]
  rw [List.lookup_append, List.lookup_append, lookup_map_const, lookup_map_const, hancestors]
  by_cases hreified : k ∈ d.reified
  · simp [hreified]
  · cases d.ancestors.lookup k <;> simp [hreified]

/-- The casts that lead to an ancestor start at the type and fit together. -/
def Connected (d : Descriptor) : Prop :=
  ∀ k path, d.ancestors.lookup k = some (some path) → Connects d.name path

theorem sight_eq {d : Descriptor} (h : d.Connected) (k : Key) :
    d.sight k =
      if k = d.key then some true
      else if k ∈ d.reified then some false
      else match d.ancestors.lookup k with
        | some casts => some casts.isSome
        | none => if k ∈ d.raw then some false else if k = .root then some true else none := by
  simp only [sight, lookup_resolve_viewedAs]
  by_cases hown : k = d.key
  · simp [hown]
  by_cases hreified : k ∈ d.reified
  · simp [hown, hreified]
  simp only [hown, hreified, if_false]
  cases ha : d.ancestors.lookup k with
  | some casts =>
    cases casts with
    | none => rfl
    | some path =>
      obtain ⟨v, hv⟩ := (h k path ha).along (.own d.name) rfl
      simp [hv]
  | none =>
    dsimp only
    split_ifs <;> rfl

theorem isSome_lookup_legacy {d : Descriptor} (h : d.Connected) {k : Key} (hown : k ≠ d.key) (hroot : k ≠ .root)
    (cast : Cast) : ((d.legacy cast).lookup k).map Option.isSome = d.sight k := by
  rw [lookup_legacy, sight_eq h, if_neg hown]
  by_cases hreified : k ∈ d.reified
  · simp [hreified]
  cases d.ancestors.lookup k with
  | some casts => simp [hreified]
  | none => by_cases hraw : k ∈ d.raw <;> simp [hreified, hraw, hroot]

theorem keys_viewedAs (d : Descriptor) (cls : Name) : (d.viewedAs cls).keys = d.keys := by
  apply map_fst_freshEntries_congr
  simp [candidates, viewedAs, key, reified, raw]

theorem sight_ne_none_iff (d : Descriptor) (k : Key) : d.sight k ≠ none ↔ k ∈ d.keys := by
  rw [← d.keys_viewedAs d.name, keys, Resolution.keys, mem_keys_iff_lookup, sight]
  cases (d.viewedAs d.name).resolve.lookup k <;> simp

end Descriptor

namespace Draft.Records

variable {draft : Draft} {d : Declaration} {parents : List Descriptor} {k : Key}

theorem lookup_ancestors (h : draft.Records d parents) (hown : k ≠ .named d.name) (hroot : k ≠ .root) :
    draft.build.ancestors.lookup k =
      (parents.zipIdx.findSome? fun p => if k = p.1.key then some (some [Descriptor.castFrom d.name p]) else none).or
        (parents.zipIdx.findSome? fun p => (p.1.legacy (Descriptor.castFrom d.name p)).lookup k) := by
  rw [build, lookup_freshEntries, if_neg (by simp [h.name, hown, hroot]), List.lookup_append, h.direct, h.inherited,
    lookup_map_eq_findSome?, lookup_flatMap]

theorem connected (h : draft.Records d parents) (hparents : ∀ p ∈ parents, p.Connected) : draft.build.Connected := by
  intro k path hk
  have hseen : k ∉ [.named d.name, .root] := by
    intro hseen
    rw [build, lookup_freshEntries, h.name, if_pos hseen] at hk
    cases hk
  simp only [List.mem_cons, List.not_mem_nil, or_false, not_or] at hseen
  rw [h.lookup_ancestors hseen.1 hseen.2, Option.or_eq_some_iff] at hk
  rw [show draft.build.name = d.name from h.name]
  rcases hk with hdirect | ⟨-, hinherited⟩
  · obtain ⟨p, -, hp⟩ := List.exists_of_findSome?_eq_some hdirect
    by_cases hkey : k = p.1.key
    · rw [if_pos hkey] at hp
      cases hp
      exact .cons _ _ (.nil _)
    · rw [if_neg hkey] at hp
      cases hp
  · obtain ⟨⟨p, rank⟩, hranked, hlegacy⟩ := List.exists_of_findSome?_eq_some hinherited
    have hp : p ∈ parents := List.fst_mem_of_mem_zipIdx hranked
    rw [Descriptor.lookup_legacy] at hlegacy
    by_cases hreified : k ∈ p.reified
    · rw [if_pos hreified] at hlegacy
      cases hlegacy
    rw [if_neg hreified] at hlegacy
    cases ha : p.ancestors.lookup k with
    | none =>
      rw [ha] at hlegacy
      by_cases hraw : k ∈ p.raw <;> simp [hraw] at hlegacy
    | some casts =>
      rw [ha] at hlegacy
      cases casts with
      | none => cases hlegacy
      | some path' =>
        cases hlegacy
        exact .cons _ _ (hparents p hp k path' ha)

theorem sight_build (h : draft.Records d parents) (hparents : ∀ p ∈ parents, p.Connected) (hown : k ≠ .named d.name)
    (hroot : k ≠ .root) : draft.build.sight k =
      if k ∈ draft.build.reified then some false
      else if ∃ p ∈ parents, k = p.key then some true
      else (parents.findSome? (·.sight k)).or (if k ∈ draft.build.raw then some false else none) := by
  have hkey : draft.build.key = .named d.name := congrArg Key.named h.name
  rw [Descriptor.sight_eq (h.connected hparents), hkey, if_neg hown, h.lookup_ancestors hown hroot]
  by_cases hreified : k ∈ draft.build.reified
  · simp [hreified]
  simp only [hreified, if_false]
  by_cases hdirect : ∃ p ∈ parents, k = p.key
  · obtain ⟨casts, hcasts⟩ : ∃ casts, (parents.zipIdx.findSome? fun p =>
        if k = p.1.key then some (some [Descriptor.castFrom d.name p]) else none) = some (some casts) := by
      obtain ⟨p, hp, hk⟩ := hdirect
      obtain ⟨rank, hlt, rfl⟩ := List.mem_iff_getElem.1 hp
      have hranked : (parents[rank], rank) ∈ parents.zipIdx := by simp [List.mem_zipIdx_iff_getElem?, hlt]
      cases hfound : parents.zipIdx.findSome? fun p =>
          if k = p.1.key then some (some [Descriptor.castFrom d.name p]) else none with
      | none => simpa [hk] using List.findSome?_eq_none_iff.1 hfound _ hranked
      | some casts =>
        obtain ⟨p', -, hp'⟩ := List.exists_of_findSome?_eq_some hfound
        by_cases hk' : k = p'.1.key
        · exact ⟨_, congrArg some (Option.some.inj ((if_pos hk').symm.trans hp')).symm⟩
        · rw [if_neg hk'] at hp'
          cases hp'
    simp [hdirect, hcasts]
  · have hother {p : Descriptor × Nat} (hp : p ∈ parents.zipIdx) : p.1 ∈ parents ∧ k ≠ p.1.key :=
      have hmem := List.fst_mem_of_mem_zipIdx hp
      ⟨hmem, fun hk => hdirect ⟨p.1, hmem, hk⟩⟩
    have hnone : (parents.zipIdx.findSome? fun p =>
        if k = p.1.key then some (some [Descriptor.castFrom d.name p]) else none) = none := by
      rw [List.findSome?_eq_none_iff]
      exact fun p hp => if_neg (hother hp).2
    have hsame : (parents.findSome? (·.sight k)) =
        (parents.zipIdx.findSome? fun p => (p.1.legacy (Descriptor.castFrom d.name p)).lookup k).map Option.isSome := by
      rw [List.map_findSome?, ← findSome?_zipIdx]
      refine findSome?_congr fun p hp => ?_
      obtain ⟨hmem, hne⟩ := hother hp
      exact (Descriptor.isSome_lookup_legacy (hparents p.1 hmem) hne hroot _).symm
    rw [if_neg hdirect, hnone, Option.none_or, hsame]
    cases parents.zipIdx.findSome? fun p => (p.1.legacy (Descriptor.castFrom d.name p)).lookup k <;> simp [hroot]

end Draft.Records

namespace Declaration

variable {d d' p : Declaration} {q : Descriptor} {k : Key}

section Parts

theorem castsMatch_of_mem_parents (h : d.CastsMatch) (hp : p ∈ d.parents) : p.CastsMatch := by
  induction d with
  | concrete _ | abstract _ => simp [parents] at hp
  | extending base parent target ihb _ =>
    rcases List.mem_append.1 hp with hp | hp
    · exact ihb h.1 hp
    · exact List.mem_singleton.1 hp ▸ h.2.1
  | parameterized base raw argument ihb _ => exact ihb h.1 hp

theorem castsMatch_of_parameter? {raw : Key} {argument : Declaration} (h : d.CastsMatch)
    (hp : d.parameter? = some (raw, argument)) : argument.CastsMatch := by
  induction d with
  | concrete _ | abstract _ => simp [parameter?] at hp
  | extending base parent target ihb _ => exact ihb h.1 hp
  | parameterized base r a _ _ =>
    obtain ⟨rfl, rfl⟩ : r = raw ∧ a = argument := by simpa [parameter?] using hp
    exact h.2

theorem connected_of_describe {d : Declaration} {q : Descriptor} (h : d.describe = .ok q) : q.Connected := by
  obtain ⟨draft, -, rfl, parents, hr⟩ := records_of_describe h
  refine hr.connected fun b hb => ?_
  obtain ⟨p, hp, hpb⟩ := hr.exists_parent hb
  have := sizeOf_lt_of_mem_parents hp
  exact connected_of_describe hpb
termination_by sizeOf d

end Parts

/-- How the events of the class resolve that is declared so. -/
def resolved (d : Declaration) : Except Crash Resolution :=
  Matcher.resolveFresh (fun _ => d.describe) d.name

/-- The events of the class that is declared so are seen under the key. -/
def Shows (d : Declaration) (k : Key) : Prop :=
  ∃ r v, d.resolved = .ok r ∧ r.lookup k = some (some v)

section Seeing

theorem resolved_eq (h : d.describe = .ok q) : d.resolved = .ok (q.viewedAs d.name).resolve := by
  obtain ⟨draft, -, rfl, parents, hr⟩ := records_of_describe h
  simp only [resolved, Matcher.resolveFresh, h, bind, Except.bind, pure, Except.pure]
  rw [Descriptor.completed_eq_viewedAs hr.name hr.view]

theorem shows_iff_sight (h : d.describe = .ok q) : d.Shows k ↔ q.sight k = some true := by
  obtain ⟨draft, -, rfl, parents, hr⟩ := records_of_describe h
  have hname : draft.build.name = d.name := hr.name
  simp only [Shows, resolved_eq h, Except.ok.injEq, exists_and_left, exists_eq_left', Descriptor.sight, hname,
    Option.map_eq_some_iff, Option.isSome_iff_exists]
  constructor
  · rintro ⟨v, hv⟩
    exact ⟨some v, hv, v, rfl⟩
  · rintro ⟨_, hv, v, rfl⟩
    exact ⟨v, hv⟩

theorem reaches_iff_sight (h : d.describe = .ok q) : d.Reaches k ↔ q.sight k ≠ none := by
  rw [← mem_keys_iff_reaches h, Descriptor.sight_ne_none_iff]

theorem findSome?_sight_iff {ps : List Declaration} {qs : List Descriptor}
    (h : List.Forall₂ (fun p q => p.describe = .ok q) ps qs) (k : Key) :
    qs.findSome? (·.sight k) = some true ↔
      ∃ before p after, ps = before ++ p :: after ∧ p.Shows k ∧ ∀ b ∈ before, ¬ b.Reaches k := by
  induction h with
  | nil => simp
  | @cons p q ps qs hp _ ih =>
    rw [List.findSome?_cons]
    cases hsight : q.sight k with
    | some seen =>
      have hreaches : p.Reaches k := (reaches_iff_sight hp).2 (by simp [hsight])
      have hshows : p.Shows k ↔ some seen = some true := by rw [shows_iff_sight hp, hsight]
      rw [← hshows]
      constructor
      · exact fun hs => ⟨[], p, ps, rfl, hs, by simp⟩
      · rintro ⟨before, p', after, hsplit, hs, hbefore⟩
        cases before with
        | nil => exact (List.cons.inj hsplit).1 ▸ hs
        | cons b before =>
          obtain rfl := (List.cons.inj hsplit).1
          exact absurd hreaches (hbefore p (List.mem_cons_self ..))
    | none =>
      have hnot : ¬ p.Reaches k := fun hr => (reaches_iff_sight hp).1 hr hsight
      have hhidden : ¬ p.Shows k := by simp [shows_iff_sight hp, hsight]
      rw [ih]
      constructor
      · rintro ⟨before, p', after, rfl, hs, hbefore⟩
        exact ⟨p :: before, p', after, rfl, hs, List.forall_mem_cons.2 ⟨hnot, hbefore⟩⟩
      · rintro ⟨before, p', after, hsplit, hs, hbefore⟩
        cases before with
        | nil => exact absurd ((List.cons.inj hsplit).1 ▸ hs) hhidden
        | cons b before =>
          exact ⟨before, p', after, (List.cons.inj hsplit).2, hs, (List.forall_mem_cons.1 hbefore).2⟩

theorem shows_own (h : d.CastsMatch) : d.Shows (.named d.name) := by
  obtain ⟨q, hq⟩ := (describe_isOk_iff d).2 h
  rw [shows_iff_sight hq, Descriptor.sight_eq (connected_of_describe hq), if_pos (key_of_describe hq).symm]

theorem shows_root_iff (h : d.CastsMatch) :
    d.Shows .root ↔ d.name = .root ∨ ∀ raw argument, d.parameter? = some (raw, argument) → raw ≠ .root := by
  obtain ⟨q, hq⟩ := (describe_isOk_iff d).2 h
  obtain ⟨draft, -, rfl, parents, hr⟩ := records_of_describe hq
  have hreified : Key.root ∉ draft.build.reified := by
    simp only [Descriptor.reified]
    cases draft.build.parameter <;> simp [Parameter.keys, Key.root]
  have hancestors : draft.build.ancestors.lookup .root = none := by
    simp [Draft.build, lookup_freshEntries]
  have hraw : Key.root ∈ draft.build.raw ↔ ∃ argument, d.parameter? = some (.root, argument) := by
    have hparameter := hr.parameter
    cases hp : d.parameter? with
    | none =>
      rw [hp] at hparameter
      simp [Descriptor.raw, Draft.build, hparameter]
    | some p =>
      rw [hp] at hparameter
      obtain ⟨a, -, hparameter⟩ := hparameter
      simp [Descriptor.raw, Draft.build, hparameter, Prod.ext_iff, eq_comm]
  rw [shows_iff_sight hq, Descriptor.sight_eq (connected_of_describe hq), key_of_describe hq,
    if_neg hreified, hancestors]
  by_cases hown : Key.root = .named d.name
  · simp [hown, (Key.named.inj hown).symm]
  · have hname : d.name ≠ .root := fun hn => hown (congrArg Key.named hn.symm)
    simp only [hown, if_false, hname, false_or]
    by_cases hp : ∃ argument, d.parameter? = some (.root, argument)
    · obtain ⟨argument, ha⟩ := hp
      rw [if_pos (hraw.2 ⟨argument, ha⟩)]
      exact iff_of_false (by simp) fun hall => hall _ _ ha rfl
    · rw [if_neg (mt hraw.1 hp), if_pos trivial]
      exact iff_of_true rfl fun raw argument ha hroot => hp ⟨argument, hroot ▸ ha⟩

theorem shows_iff_of_records {draft : Draft} {parents : List Descriptor} (hq : d.describe = .ok draft.build)
    (hr : draft.Records d parents) (hown : k ≠ .named d.name) (hroot : k ≠ .root) :
    d.Shows k ↔ k ∉ draft.build.reified ∧ ((∃ p ∈ d.parents, k = .named p.name) ∨
      ∃ before p after, d.parents = before ++ p :: after ∧ p.Shows k ∧ ∀ b ∈ before, ¬ b.Reaches k) := by
  have hconnected : ∀ b ∈ parents, b.Connected := by
    intro b hb
    obtain ⟨p, -, hpb⟩ := hr.exists_parent hb
    exact connected_of_describe hpb
  have hdirect : (∃ b ∈ parents, k = b.key) ↔ ∃ p ∈ d.parents, k = .named p.name := by
    constructor
    · rintro ⟨b, hb, hk⟩
      obtain ⟨p, hp, hpb⟩ := hr.exists_parent hb
      exact ⟨p, hp, hk.trans (key_of_describe hpb)⟩
    · rintro ⟨p, hp, hk⟩
      obtain ⟨b, hb, hpb⟩ := hr.exists_described hp
      exact ⟨b, hb, hk.trans (key_of_describe hpb).symm⟩
  rw [shows_iff_sight hq, hr.sight_build hconnected hown hroot, ← findSome?_sight_iff hr.described k, ← hdirect]
  by_cases hreified : k ∈ draft.build.reified
  · simp [hreified]
  by_cases hsupertype : ∃ b ∈ parents, k = b.key
  · simp only [hreified, hsupertype, if_false, if_true, not_false_eq_true, true_and, true_or]
  · simp only [hreified, hsupertype, if_false, not_false_eq_true, true_and, false_or]
    cases parents.findSome? (·.sight k) <;> simp

theorem exists_describe_of_shows (h : d.Shows k) : ∃ q, d.describe = .ok q := by
  obtain ⟨r, -, hr, -⟩ := h
  obtain ⟨q, hq, -⟩ := bind_eq_ok_iff.1 hr
  exact ⟨q, hq⟩

theorem reaches_of_shows (h : d.Shows k) : d.Reaches k := by
  obtain ⟨q, hq⟩ := exists_describe_of_shows h
  rw [reaches_iff_sight hq, (shows_iff_sight hq).1 h]
  simp

theorem exists_named_of_shows {d : Declaration} (h : d.Shows k) : ∃ n, k = .named n := by
  by_cases hown : k = .named d.name
  · exact ⟨_, hown⟩
  by_cases hroot : k = .root
  · exact ⟨_, hroot⟩
  obtain ⟨q, hq⟩ := exists_describe_of_shows h
  obtain ⟨draft, -, rfl, parents, hr⟩ := records_of_describe hq
  obtain ⟨-, hsupertype | ⟨before, p, after, hsplit, hs, -⟩⟩ := (shows_iff_of_records hq hr hown hroot).1 h
  · obtain ⟨p, -, hk⟩ := hsupertype
    exact ⟨_, hk⟩
  · have := sizeOf_lt_of_mem_parents (hsplit ▸ List.mem_append_right _ (List.mem_cons_self ..) : p ∈ d.parents)
    exact exists_named_of_shows hs
termination_by sizeOf d

/-- Of the keys but its own and the root, a type shows those of its supertypes, and those that the first supertype that
leads to them shows. -/
theorem shows_iff (h : d.CastsMatch) {n : Name} (hown : n ≠ d.name) (hroot : n ≠ .root) :
    d.Shows (.named n) ↔ (∃ p ∈ d.parents, n = p.name) ∨
      ∃ before p after, d.parents = before ++ p :: after ∧ p.Shows (.named n) ∧
        ∀ b ∈ before, ¬ b.Reaches (.named n) := by
  obtain ⟨q, hq⟩ := (describe_isOk_iff d).2 h
  obtain ⟨draft, -, rfl, parents, hr⟩ := records_of_describe hq
  have hreified : Key.named n ∉ draft.build.reified := by
    simp only [Descriptor.reified]
    cases draft.build.parameter <;> simp [Parameter.keys]
  have hown' : Key.named n ≠ .named d.name := by simpa using hown
  have hroot' : Key.named n ≠ .root := by simpa [Key.root] using hroot
  rw [shows_iff_of_records hq hr hown' hroot']
  simp [hreified]

end Seeing

end Declaration
end PubSub
