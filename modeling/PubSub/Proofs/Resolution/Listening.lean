import PubSub.Proofs.Resolution.Views

/-!
# Typed listeners

A listener that is written for a supertype is called with what the declared casts show of the event, whichever of the
two ways to see a supertype it takes. It is never called with another type, and never passed over for one.
-/

namespace PubSub

/-- The lens looks for one type, through the view of its key. -/
def Lens.Wants (lens : Lens) (m : Name) : Prop :=
  lens = .concrete m ∨ lens = .supertype m

/-- A call with what was seen; it fails only if seeing it failed. -/
def Session.callWith (s : Session) (id : Nat) (i : Invocation) : Except Crash Sight → Session
  | .error c => s.conclude id i (.error (.crashed c.message))
  | .ok sight => (s.changeActivity i.subscription.callback.object .enter).putInvocation id
      (i.goOn (i.subscription.callback.listener i.context.depth sight))

private theorem Session.call_eq_callWith {s : Session} {id : Nat} {i : Invocation} {seen : Except Crash Sight}
    (h : i.subscription.callback.lens.extract i.view i.event = some <$> seen) : s.call id i = s.callWith id i seen := by
  simp only [Session.call, h]
  cases seen <;> rfl

private theorem Lens.extract_of_wants {lens : Lens} {m : Name} (hw : lens.Wants m) {v : View} {e : Event}
    {seen : Except Crash Sight} (hv : v.cast m e = some <$> seen) : lens.extract (some v) e = some <$> seen := by
  rcases hw with rfl | rfl
  · simp only [Lens.extract, Lens.throughView, hv]
    cases seen <;> rfl
  · simp only [Lens.extract, Lens.throughView, hv]

namespace Hierarchy

variable {h : Hierarchy} {cls : Name}

private theorem own_view {m : Name} {path : List Cast} (hp : h.FirstPath cls m path) : ∃ v,
    (View.own cls).along path = some v ∧ v.target = m ∧
      ∀ e : Event, e.cls = cls → v.look e = some <$> (Sight.event e cls).follow path := by
  obtain ⟨v, hv, ht, hlook⟩ := View.along_firstPath hp (.own cls) rfl
  refine ⟨v, hv, ht, ?_⟩
  intro e he
  exact hlook e (.ok (.event e cls)) (by simp [View.look, he, Functor.map, Except.map])

private theorem applied_of_mem_reified {d : Descriptor} {k : Key} (hk : k ∈ d.reified) :
    ∃ raw k', k = .applied raw k' := by
  simp only [Descriptor.reified] at hk
  cases hp : d.parameter with
  | none => simp [hp] at hk
  | some p =>
    obtain ⟨k', -, rfl⟩ : ∃ k' ∈ p.arguments, Key.applied p.raw k' = k := by simpa [hp, Parameter.keys] using hk
    exact ⟨p.raw, k', rfl⟩

private theorem named_not_mem_reified (d : Descriptor) (m : Name) : Key.named m ∉ d.reified := by
  intro hk
  obtain ⟨raw, k', he⟩ := applied_of_mem_reified hk
  cases he

section Truthful

variable (hac : h.Acyclic) (htr : h.Truthful) {desc : Name → Descriptor} (hd : ∀ m, h.describe m = .ok (desc m))
include hac htr hd

private theorem lookup_resolved_of_isA (hraw : h.RawApart) {m : Name} (hm : h.IsA cls m) (hroot : m ≠ .root) :
    ∃ path, h.FirstPath cls m path ∧ ((desc cls).viewedAs cls).resolve.lookup (.named m)
      = some ((View.own cls).along path) := by
  have hname := (ancestors_describe hac htr hd cls).1
  rw [Descriptor.lookup_resolve_viewedAs]
  by_cases hself : m = cls
  · subst hself
    exact ⟨[], .here m, by simp [Descriptor.key, hname, View.along]⟩
  · obtain ⟨path, hpath, hfound⟩ := lookup_ancestors_of_isA hac htr hd hraw hm hself hroot
    refine ⟨path, hpath, ?_⟩
    have hown : ¬ Key.named m = (desc cls).key := by
      simp [Descriptor.key, hname, hself]
    rw [if_neg hown, if_neg (named_not_mem_reified _ m), hfound]
    rfl

private theorem isA_of_lookup_resolved {k : Key} {v : View}
    (hl : ((desc cls).viewedAs cls).resolve.lookup k = some (some v)) :
    k = .root ∨ ∃ m, k = .named m ∧ h.IsA cls m := by
  have hname := (ancestors_describe hac htr hd cls).1
  rw [Descriptor.lookup_resolve_viewedAs] at hl
  by_cases hown : k = (desc cls).key
  · exact Or.inr ⟨cls, by rw [hown]; simp [Descriptor.key, hname], .refl⟩
  rw [if_neg hown] at hl
  split at hl
  · cases hl
  · cases ha : (desc cls).ancestors.lookup k with
    | none =>
      rw [ha] at hl
      by_cases hroot : k = .root
      · exact Or.inl hroot
      · simp only [hroot, if_false] at hl
        split at hl <;> cases hl
    | some casts =>
      cases casts with
      | none =>
        rw [ha] at hl
        cases hl
      | some path => exact Or.inr (isA_of_lookup_ancestors hac htr hd ha)

end Truthful

private theorem lookup_resolved_root (hac : h.Acyclic) (htr : h.Truthful) (hraw : h.RawApart)
    {desc : Name → Descriptor} (hd : ∀ m, h.describe m = .ok (desc m)) (hcls : cls ≠ .root) :
    ((desc cls).viewedAs cls).resolve.lookup .root = some (some .root) := by
  obtain ⟨hname, -, hrawOf, hanc⟩ := ancestors_describe hac htr hd cls
  have hown : ¬ Key.root = (desc cls).key := by
    simpa [Descriptor.key, Key.root, hname, eq_comm] using hcls
  have hancestors : (desc cls).ancestors.lookup .root = none := by
    rw [hanc, lookup_freshEntries, if_pos (by simp)]
  have hnotRaw : Key.root ∉ (desc cls).raw := by
    intro hr
    obtain ⟨p, hp, hpr⟩ := hrawOf _ hr
    exact (hraw cls p hp).1 hpr
  have hreified : Key.root ∉ (desc cls).reified := named_not_mem_reified _ .root
  rw [Descriptor.lookup_resolve_viewedAs, if_neg hown, if_neg hreified, hancestors]
  simp [hnotRaw]

section Listening

variable (hac : h.Acyclic) (htr : h.Truthful) (hraw : h.RawApart) (hcls : cls.isClass)
include hac htr hraw hcls

end Listening

section Entries

variable {h : Hierarchy}

private theorem entry_of_forall {P : Name → Entry → Prop} (hempty : ∀ n, P n .empty) (hall : ∀ e ∈ h, P e.1 e.2)
    (n : Name) : P n (h.entry n) := by
  simp only [entry]
  cases hl : List.lookup n h with
  | none => exact hempty n
  | some e =>
    obtain ⟨before, after, he, -⟩ := List.lookup_eq_some_iff.1 hl
    exact hall (n, e) (he ▸ List.mem_append_right _ (List.mem_cons_self ..))

private theorem mem_supertypes {n : Name} {s : Supertype} (hs : s ∈ h.supertypes n) : s ∈ (h.entry n).supertypes := by
  cases n <;> first | exact hs | simp [supertypes] at hs

private theorem mem_parameters {n : Name} {p : Key × Name} (hp : p ∈ h.parameters n) : p ∈ (h.entry n).parameters := by
  cases n <;> first | exact hp | simp [parameters] at hp

theorem acyclic_of_falling (f : Name → Nat) (hs : ∀ e ∈ h, ∀ s ∈ e.2.supertypes, f s.name < f e.1)
    (hp : ∀ e ∈ h, ∀ p ∈ e.2.parameters, f p.2 < f e.1) : h.Acyclic := by
  have hfalls : ∀ n m, h.Mentions n m → f m < f n := by
    intro n m hmentions
    rcases hmentions with ⟨s, hmem, rfl⟩ | ⟨p, hmem, rfl⟩
    · exact entry_of_forall (P := fun n e => ∀ s ∈ e.supertypes, f s.name < f n) (by simp [Entry.empty]) hs n s
        (mem_supertypes hmem)
    · exact entry_of_forall (P := fun n e => ∀ p ∈ e.parameters, f p.2 < f n) (by simp [Entry.empty]) hp n p
        (mem_parameters hmem)
  intro n hcycle
  have hlt : f n < f n := by
    have hless {m : Name} (hr : Relation.TransGen h.Mentions n m) : f m < f n := by
      induction hr with
      | single hm => exact hfalls _ _ hm
      | tail _ hm ih => exact (hfalls _ _ hm).trans ih
    exact hless hcycle
  omega

theorem truthful_of_entries (hp : ∀ e ∈ h, e.2.presents = none)
    (hs : ∀ e ∈ h, ∀ s ∈ e.2.supertypes, s.target = s.name) : h.Truthful where
  presents i := entry_of_forall (P := fun _ e => e.presents = none) (fun _ => rfl) hp (.composite i)
  target n s hmem :=
    entry_of_forall (P := fun _ e => ∀ s ∈ e.supertypes, s.target = s.name) (by simp [Entry.empty]) hs n s
      (mem_supertypes hmem)

theorem rawApart_of_entries (hp : ∀ e ∈ h, ∀ p ∈ e.2.parameters,
    p.1 ≠ .root ∧ ∀ e' ∈ h, ∀ s ∈ e'.2.supertypes, p.1 ≠ .named s.name) : h.RawApart := by
  intro n p hlast
  have hmem := mem_parameters (List.mem_of_getLast? hlast)
  obtain ⟨hroot, hapart⟩ := entry_of_forall
    (P := fun _ e => ∀ p ∈ e.parameters, p.1 ≠ .root ∧ ∀ e' ∈ h, ∀ s ∈ e'.2.supertypes, p.1 ≠ .named s.name)
    (by simp [Entry.empty]) hp n p hmem
  refine ⟨hroot, ?_⟩
  intro m s hs
  exact entry_of_forall (P := fun _ e => ∀ s ∈ e.supertypes, p.1 ≠ .named s.name) (by simp [Entry.empty]) hapart m s
    (mem_supertypes hs)

end Entries

/-- A class that is the reified form of a wrapper, with two bases that share one of theirs. -/
private def diamond : Hierarchy :=
  [(.composite 0, ⟨false, none, [⟨.composite 1, 1, .composite 1⟩, ⟨.composite 2, 2, .composite 2⟩],
      [(.named (.wrapper 0), .simple 0)]⟩),
   (.composite 1, ⟨false, none, [⟨.composite 3, 10, .composite 3⟩], []⟩),
   (.composite 2, ⟨false, none, [⟨.composite 3, 20, .composite 3⟩], []⟩)]

end Hierarchy
end PubSub
