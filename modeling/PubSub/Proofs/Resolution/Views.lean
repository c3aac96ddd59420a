import PubSub.Matcher
import PubSub.Proofs.Resolution.Paths
import PubSub.Session.Step

/-!
# Views of events

A view that was put together from declared casts shows what the casts show one after the other. In a hierarchy that
tells the truth each supertype is seen through the first path of casts that leads to it, and nothing else is seen.
-/

namespace PubSub

/-- What is seen after a path of casts. -/
def Sight.follow (s : Sight) : List Cast → Except Crash Sight
  | [] => .ok s
  | c :: path => do (← c.apply s).follow path

namespace View

private theorem look_through {v : View} {e : Event} {s : Except Crash Sight} (c : Cast) (hs : v.look e = some <$> s) :
    (v.through c).look e = some <$> (s >>= c.apply) := by
  rw [look, hs]
  cases s with
  | error _ => rfl
  | ok s =>
    simp only [bind, Except.bind, Functor.map, Except.map]
    cases c.apply s <;> rfl

theorem along_firstPath {h : Hierarchy} {n m : Name} {path : List Cast} (hp : h.FirstPath n m path) (v : View)
    (hv : v.target = n) : ∃ v', v.along path = some v' ∧ v'.target = m ∧
      ∀ e s, v.look e = some <$> s → v'.look e = some <$> (s >>= (Sight.follow · path)) := by
  induction hp generalizing v with
  | here n =>
    refine ⟨v, rfl, hv, ?_⟩
    intro e s hs
    rw [hs]
    cases s <;> rfl
  | @direct n m before =>
    refine ⟨v.through ⟨n, m, before.length⟩, by simp [along, hv], rfl, ?_⟩
    intro e s hs
    rw [look_through _ hs]
    cases s with
    | error _ => rfl
    | ok s =>
      simp only [Sight.follow, bind, Except.bind]
      cases Cast.apply _ s <;> rfl
  | @through n m before _ t _ hs _ _ hpath ih =>
    obtain ⟨v', hv', ht, hlook⟩ := ih (v.through ⟨n, t.name, before.length⟩) rfl
    refine ⟨v', by simpa [along, hv] using hv', ht, ?_⟩
    intro e s hs
    rw [hlook e _ (look_through _ hs)]
    cases s <;> rfl

end View

namespace Descriptor

/-- What is looked up among the keys of a type: its own view, then no view for a reified key, then the view along the
casts of an ancestor, then no view for the raw key, then the view as the root. -/
theorem lookup_resolve (d : Descriptor) (k : Key) :
    d.resolve.lookup k =
      if k = d.key then some d.view
      else if k ∈ d.reified then some none
      else match d.ancestors.lookup k with
        | some casts => some (do (← d.view).along (← casts))
        | none => if k ∈ d.raw then some none else if k = .root then some (some .root) else none := by
  have hancestors := lookup_map_snd d.ancestors (fun casts => (do (← d.view).along (← casts) : Option View)) k
  simp only [resolve]
  rw [lookup_freshEntries, if_neg List.not_mem_nil]
  simp only [candidates]
  rw [List.lookup_append, List.lookup_append, List.lookup_append, Table.lookup_cons_eq_ite, lookup_map_const,
    lookup_map_const, hancestors, Table.lookup_cons_eq_ite]
  by_cases hk : k = d.key
  · simp [hk]
  by_cases hreified : k ∈ d.reified
  · simp [hk, hreified]
  simp only [hk, hreified, if_false, Option.none_or]
  cases d.ancestors.lookup k with
  | some casts => simp
  | none =>
    by_cases hraw : k ∈ d.raw
    · simp [hraw]
    · simp [hraw]

def viewedAs (d : Descriptor) (cls : Name) : Descriptor :=
  { d with view := some (.own cls) }

theorem completed_eq_viewedAs {d : Descriptor} {cls : Name} (hname : d.name = cls)
    (hview : d.view = none ∨ d.view = some (.own cls)) : d.completed cls = d.viewedAs cls := by
  simp only [completed, viewedAs]
  rcases hview with hv | hv
  · simp [hv, hname]
  · rw [if_neg (by simp [hv]), ← hv]

theorem lookup_resolve_viewedAs (d : Descriptor) (cls : Name) (k : Key) :
    (d.viewedAs cls).resolve.lookup k =
      if k = d.key then some (some (.own cls))
      else if k ∈ d.reified then some none
      else match d.ancestors.lookup k with
        | some casts => some (casts.bind (View.own cls).along)
        | none => if k ∈ d.raw then some none else if k = .root then some (some .root) else none := by
  rw [lookup_resolve]
  rfl

end Descriptor

namespace Hierarchy

variable {h : Hierarchy}

/-- How the events of a class resolve in a hierarchy that tells the truth, whatever the class declares of its own
view. -/
theorem resolveFresh_eq (hac : h.Acyclic) (htr : h.Truthful) {desc : Name → Descriptor}
    (hd : ∀ m, h.describe m = .ok (desc m)) (cls : Name) :
    Matcher.resolveFresh h.declared cls = .ok ((desc cls).viewedAs cls).resolve := by
  obtain ⟨hname, hview, -, -⟩ := ancestors_describe hac htr hd cls
  simp only [Matcher.resolveFresh]
  by_cases hdead : cls = .dead
  · subst hdead
    have hdesc : desc .dead = (Draft.concrete .dead).build := by
      have := hd .dead
      simpa [describe, declaration, unfold, Declaration.describe, Declaration.draft, Functor.map, Except.map,
        eq_comm] using this
    rw [hdesc]
    rfl
  · have hdeclared : h.declared cls = .ok (desc cls) := by
      rw [← hd cls]
      cases cls <;> first | rfl | exact absurd rfl hdead
    rw [hdeclared]
    simp only [bind, Except.bind, pure, Except.pure, Descriptor.completed_eq_viewedAs hname hview]

/-- Casts exist where a hierarchy asks for them: classes embed the values of their bases, but no unheard event, and an
interface leads to no class, since what is seen through it is still the whole event. -/
def Castable (h : Hierarchy) : Prop :=
  ∀ n, ∀ s ∈ h.supertypes n, s.name ≠ .dead ∧ ∀ i, n = .interface i → s.name.isPublishable = false

/-- The events that come up: values that were made with all their bases, and events that carry an unheard one. -/
inductive Makes (h : Hierarchy) : Event → Prop
  | value (cls : Name) (number : Int64) (note : String) (unprintable : Bool) :
    h.Makes (h.value cls number note unprintable)
  | dead (unheard : Event) : h.Makes (.dead unheard)

/-- A sight that shows all that its type has declared. -/
private inductive Shows (h : Hierarchy) : Name → Sight → Prop
  | value {rounds : Nat} {n : Name} (hr : h.rank n < rounds) (number : Int64) (note : String) (unprintable : Bool) :
    h.Shows n (.event (.value (h.embed note unprintable rounds n number)) n)
  | dead (e : Event) : h.Shows .dead (.event (.dead e) .dead)
  | interface (e : Event) (i : Nat) : h.Shows (.interface i) (.event e (.interface i))
  | root (e : Event) : h.Shows .root (.event e .root)
  | wrapper (i : Nat) : h.Shows (.wrapper i) (.wrapper i)

private theorem cls_embed (note : String) (unprintable : Bool) (rounds : Nat) (n : Name) (number : Int64) :
    (h.embed note unprintable rounds n number).cls = n := by
  cases rounds with
  | zero => rfl
  | succ rounds => cases n <;> rfl

private theorem base?_embed {rounds i : Nat} {m : Name} (hx : h.Extends (.composite i) m) (hm : m.isPublishable)
    (note : String) (unprintable : Bool) (number : Int64) : ∃ number',
      (h.embed note unprintable (rounds + 1) (.composite i) number).base? m
        = some (h.embed note unprintable rounds m number') := by
  obtain ⟨s, hs, rfl⟩ := hx
  have hbases : (h.embed note unprintable (rounds + 1) (.composite i) number).bases
      = ((h.supertypes (.composite i)).filter (·.name.isPublishable)).map fun s : Supertype =>
        h.embed note unprintable rounds s.name (number + s.shift) := rfl
  simp only [Payload.base?]
  have hfound :
      ((h.embed note unprintable (rounds + 1) (.composite i) number).bases.find? (·.cls = s.name)).isSome := by
    rw [List.find?_isSome, hbases]
    exact ⟨_, List.mem_map.2 ⟨s, List.mem_filter.2 ⟨hs, hm⟩, rfl⟩, by simp [cls_embed]⟩
  obtain ⟨p, hp⟩ := Option.isSome_iff_exists.1 hfound
  have hmem := List.mem_of_find?_eq_some hp
  rw [hbases] at hmem
  obtain ⟨t, -, rfl⟩ := List.mem_map.1 hmem
  have ht : t.name = s.name := by simpa [cls_embed] using List.find?_some hp
  exact ⟨number + t.shift, ht ▸ hp⟩

private theorem Shows.apply (hac : h.Acyclic) (hcast : h.Castable) {n m : Name} {s : Sight} (hs : h.Shows n s)
    (hx : h.Extends n m) (rank : Nat) : ∃ s', Cast.apply ⟨n, m, rank⟩ s = .ok s' ∧ h.Shows m s' := by
  have hrank := rank_lt_of_extends hac hx
  obtain ⟨t, ht, rfl⟩ := id hx
  have hdead := (hcast n t ht).1
  cases hs with
  | @value rounds _ hr number note unprintable =>
    -- a class that extends anything embeds its bases, with one round less than itself
    have hbase (hm : t.name.isPublishable = true) : ∃ number',
        Event.base? (.value (h.embed note unprintable rounds n number)) t.name
          = some (h.embed note unprintable (rounds - 1) t.name number') := by
      cases n with
      | composite i =>
        obtain ⟨rounds, rfl⟩ : ∃ r, rounds = r + 1 := ⟨rounds - 1, by omega⟩
        exact base?_embed hx hm note unprintable number
      | interface i => rw [(hcast _ t ht).2 i rfl] at hm; cases hm
      | simple _ => simp [supertypes] at ht
      | wrapper _ => simp [supertypes] at ht
      | root => simp [supertypes] at ht
      | dead => simp [supertypes] at ht
    have hrounds : h.rank t.name < rounds - 1 := by omega
    cases hm : t.name with
    | interface j => exact ⟨_, rfl, .interface _ j⟩
    | root => exact ⟨_, rfl, .root _⟩
    | wrapper j => exact ⟨_, rfl, .wrapper j⟩
    | dead => exact absurd hm hdead
    | composite j =>
      rw [hm] at hbase hrounds
      obtain ⟨number', hfound⟩ := hbase rfl
      exact ⟨_, by simp [Cast.apply, hfound], .value hrounds number' note unprintable⟩
    | simple j =>
      rw [hm] at hbase hrounds
      obtain ⟨number', hfound⟩ := hbase rfl
      exact ⟨_, by simp [Cast.apply, hfound], .value hrounds number' note unprintable⟩
  | dead e => simp [supertypes] at ht
  | interface e i =>
    have hclass := (hcast _ t ht).2 i rfl
    cases hm : t.name with
    | interface j => exact ⟨_, rfl, .interface _ j⟩
    | root => exact ⟨_, rfl, .root _⟩
    | wrapper j => exact ⟨_, rfl, .wrapper j⟩
    | dead => exact absurd hm hdead
    | composite j => simp [hm, Name.isPublishable] at hclass
    | simple j => simp [hm, Name.isPublishable] at hclass
  | root e => simp [supertypes] at ht
  | wrapper i => simp [supertypes] at ht

private theorem Shows.follow (hac : h.Acyclic) (hcast : h.Castable) {n m : Name} {path : List Cast}
    (hp : h.FirstPath n m path) {s : Sight} (hs : h.Shows n s) : ∃ seen, s.follow path = .ok seen := by
  induction hp generalizing s with
  | here n => exact ⟨s, rfl⟩
  | @direct _ _ before _ _ hsupertypes hm =>
    obtain ⟨s', happly, -⟩ := hs.apply hac hcast (hm ▸ extends_of_split hsupertypes) before.length
    exact ⟨s', by simp [Sight.follow, happly, bind, Except.bind]⟩
  | @through _ _ before _ _ _ hsupertypes _ _ _ ih =>
    obtain ⟨s', happly, hs'⟩ := hs.apply hac hcast (extends_of_split hsupertypes) before.length
    obtain ⟨seen, hseen⟩ := ih hs'
    exact ⟨seen, by simp [Sight.follow, happly, bind, Except.bind, hseen]⟩

/-- The casts of a first path succeed on the events that come up. -/
theorem follow_of_castable (hac : h.Acyclic) (hcast : h.Castable) {cls m : Name} {path : List Cast}
    (hp : h.FirstPath cls m path) {e : Event} (he : e.cls = cls) (hm : h.Makes e) :
    ∃ seen, (Sight.event e cls).follow path = .ok seen := by
  cases hm with
  | value cls' number note unprintable =>
    obtain rfl : cls' = cls := (cls_embed note unprintable _ cls' number).symm.trans he
    exact Shows.follow hac hcast hp (.value (Nat.lt_succ_of_le (h.rank_le_length cls')) number note unprintable)
  | dead unheard =>
    obtain rfl : Name.dead = cls := he
    exact Shows.follow hac hcast hp (.dead unheard)

end Hierarchy
end PubSub
