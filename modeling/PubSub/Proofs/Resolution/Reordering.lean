import PubSub.Proofs.Resolution.Sights

/-!
# The order of supertypes in a declaration

Declaring the supertypes of a class in another order changes nothing about the keys. Nor does it change which of them
the events are seen under, as far as the supertypes that lead to a key agree on that. They disagree if one of them has
the key for its raw wrapper, which shows nothing, and another one for a supertype. Then the first one decides.
-/

namespace PubSub
namespace Declaration

variable {d d' p : Declaration} {k : Key}

/-- The other declaration declares the same supertypes in some order. -/
structure Reorders (d' d : Declaration) : Prop where
  name : d'.name = d.name
  parents : d'.parents.Perm d.parents
  parameter? : d'.parameter? = d.parameter?
  castsMatch : d'.CastsMatch

/-- All supertypes that lead to the key show it or none does, or else it is the key of one of them, of the type itself
or of the root. -/
def Agrees (d : Declaration) (k : Key) : Prop :=
  k = .named d.name ∨ k = .root ∨ (∃ p ∈ d.parents, k = .named p.name) ∨
    ∀ p ∈ d.parents, ∀ p' ∈ d.parents, p.Reaches k → p'.Reaches k → (p.Shows k ↔ p'.Shows k)

/-- A supertype at any distance, or the type itself. -/
def Above (d a : Declaration) : Prop :=
  Relation.ReflTransGen (fun d p => p ∈ d.parents) d a

theorem reaches_of_reorders (hname : d.name = d'.name) (hparents : ∀ p ∈ d.parents, p ∈ d'.parents)
    (hparameter : d.parameter? = d'.parameter?) (h : d.Reaches k) : d'.Reaches k := by
  cases h with
  | own => exact hname ▸ .own d'
  | root => exact .root d'
  | raw hp => exact .raw (hparameter ▸ hp)
  | reified hp hk => exact .reified (hparameter ▸ hp) hk
  | inherited hp hk => exact .inherited (hparents _ hp) hk

section Agreement

variable {n : Name}

theorem shows_iff_of_agreement (h : d.CastsMatch) (hown : n ≠ d.name) (hroot : n ≠ .root)
    (hdirect : ¬ ∃ p ∈ d.parents, n = p.name)
    (hagree : ∀ p ∈ d.parents, ∀ p' ∈ d.parents, p.Reaches (.named n) → p'.Reaches (.named n) →
      (p.Shows (.named n) ↔ p'.Shows (.named n))) :
    d.Shows (.named n) ↔ ∃ p ∈ d.parents, p.Shows (.named n) := by
  rw [shows_iff h hown hroot]
  constructor
  · rintro (hsupertype | ⟨before, p, after, hsplit, hs, -⟩)
    · exact absurd hsupertype hdirect
    · exact ⟨p, hsplit ▸ List.mem_append_right _ (List.mem_cons_self ..), hs⟩
  · rintro ⟨p, hp, hs⟩
    obtain ⟨before, p', after, hsplit, hp', hbefore⟩ :=
      exists_first (fun p : Declaration => p.Reaches (.named n)) ⟨p, hp, reaches_of_shows hs⟩
    have hmem : p' ∈ d.parents := hsplit ▸ List.mem_append_right _ (List.mem_cons_self ..)
    exact Or.inr ⟨before, p', after, hsplit, (hagree p hp p' hmem (reaches_of_shows hs) hp').1 hs, hbefore⟩

/-- The same class, with supertypes in the order given. -/
def reordered (d : Declaration) (ps : List Declaration) : Declaration :=
  let whole := ps.foldl (fun d p => .extending d p p.name) (.concrete d.name)
  d.parameter?.elim whole fun p => .parameterized whole p.1 p.2

theorem reorders_reordered (h : d.CastsMatch) {ps : List Declaration} (hp : ps.Perm d.parents) :
    (d.reordered ps).Reorders d ∧ (d.reordered ps).parents = ps := by
  have hfold (start : Declaration) (hstart : start.CastsMatch) (hps : ∀ p ∈ ps, p.CastsMatch) :
      (ps.foldl (fun d p => .extending d p p.name) start).name = start.name ∧
      (ps.foldl (fun d p => .extending d p p.name) start).parents = start.parents ++ ps ∧
      (ps.foldl (fun d p => .extending d p p.name) start).parameter? = start.parameter? ∧
      (ps.foldl (fun d p => .extending d p p.name) start).CastsMatch := by
    clear hp
    induction ps generalizing start with
    | nil => exact ⟨rfl, by simp, rfl, hstart⟩
    | cons p ps ih =>
      obtain ⟨hp, hps⟩ := List.forall_mem_cons.1 hps
      obtain ⟨hname, hparents, hparameter, hcasts⟩ := ih (.extending start p p.name) ⟨hstart, hp, rfl⟩ hps
      exact ⟨hname, hparents.trans (by simp [parents]), hparameter, hcasts⟩
  obtain ⟨hname, hparents, hparameter, hcasts⟩ := hfold (.concrete d.name) trivial fun p hm =>
    castsMatch_of_mem_parents h (hp.mem_iff.1 hm)
  have hlist : (d.reordered ps).parents = ps := by
    simp only [reordered]
    cases d.parameter? <;> simpa [parents] using hparents
  refine ⟨⟨?_, hlist.symm ▸ hp, ?_, ?_⟩, hlist⟩
  · simp only [reordered]
    cases d.parameter? <;> exact hname
  · simp only [reordered]
    cases d.parameter? with
    | none => exact hparameter
    | some p => rfl
  · simp only [reordered]
    cases hparam : d.parameter? with
    | none => exact hcasts
    | some p => exact ⟨hcasts, castsMatch_of_parameter? h hparam⟩

theorem shows_of_first (h : d.CastsMatch) (hown : n ≠ d.name) (hroot : n ≠ .root)
    (hdirect : ¬ ∃ p ∈ d.parents, n = p.name) {ps : List Declaration} (hparents : d.parents = p :: ps)
    (hp : p.Reaches (.named n)) : d.Shows (.named n) ↔ p.Shows (.named n) := by
  rw [shows_iff h hown hroot]
  constructor
  · rintro (hsupertype | ⟨before, p', after, hsplit, hs, hbefore⟩)
    · exact absurd hsupertype hdirect
    · cases before with
      | nil => exact (List.cons.inj (hparents.symm.trans hsplit)).1 ▸ hs
      | cons b before =>
        obtain rfl := (List.cons.inj (hparents.symm.trans hsplit)).1
        exact absurd hp (hbefore p (List.mem_cons_self ..))
  · exact fun hs => Or.inr ⟨[], p, ps, hparents, hs, by simp⟩

theorem agrees_of_reorders (h : d.CastsMatch)
    (hsame : ∀ d' : Declaration, d'.Reorders d → (d'.Shows k ↔ d.Shows k)) : d.Agrees k := by
  by_cases hk : ∃ n, k = .named n
  swap
  · have hhidden (p : Declaration) : ¬ p.Shows k := fun hs => hk (exists_named_of_shows hs)
    exact Or.inr (Or.inr (Or.inr fun p _ p' _ _ _ => iff_of_false (hhidden p) (hhidden p')))
  obtain ⟨n, rfl⟩ := hk
  by_cases hown : n = d.name
  · exact Or.inl (congrArg _ hown)
  by_cases hroot : n = .root
  · exact Or.inr (Or.inl (congrArg _ hroot))
  by_cases hdirect : ∃ p ∈ d.parents, n = p.name
  · obtain ⟨p, hp, hn⟩ := hdirect
    exact Or.inr (Or.inr (Or.inl ⟨p, hp, congrArg _ hn⟩))
  have hdecides : ∀ p ∈ d.parents, p.Reaches (.named n) → (d.Shows (.named n) ↔ p.Shows (.named n)) := by
    intro p hp hreaches
    obtain ⟨hreorders, hparents⟩ := reorders_reordered h (List.perm_cons_erase hp).symm
    have hdirect' : ¬ ∃ p' ∈ (d.reordered (p :: d.parents.erase p)).parents, n = p'.name := by
      rintro ⟨p', hp', hn⟩
      exact hdirect ⟨p', hreorders.parents.mem_iff.1 hp', hn⟩
    rw [← hsame _ hreorders]
    exact shows_of_first hreorders.castsMatch (hreorders.name ▸ hown) hroot hdirect' hparents hreaches
  refine Or.inr (Or.inr (Or.inr fun p hp p' hp' hr hr' => ?_))
  rw [← hdecides p hp hr, ← hdecides p' hp' hr']

theorem shows_iff_of_reorders (h : d.CastsMatch) (hagrees : d.Agrees k) (hd' : d'.Reorders d) :
    d'.Shows k ↔ d.Shows k := by
  by_cases hk : ∃ n, k = .named n
  swap
  · have hhidden (p : Declaration) : ¬ p.Shows k := fun hs => hk (exists_named_of_shows hs)
    exact iff_of_false (hhidden d') (hhidden d)
  obtain ⟨n, rfl⟩ := hk
  by_cases hown : n = d.name
  · subst hown
    exact iff_of_true (hd'.name ▸ shows_own hd'.castsMatch) (shows_own h)
  by_cases hroot : n = .root
  · subst hroot
    rw [show Key.named .root = .root from rfl, shows_root_iff h, shows_root_iff hd'.castsMatch, hd'.name,
      hd'.parameter?]
  have hown' : n ≠ d'.name := hd'.name.symm ▸ hown
  have hmem (p : Declaration) : p ∈ d'.parents ↔ p ∈ d.parents := hd'.parents.mem_iff
  by_cases hdirect : ∃ p ∈ d.parents, n = p.name
  · have hdirect' : ∃ p ∈ d'.parents, n = p.name := by simpa only [hmem] using hdirect
    exact iff_of_true ((shows_iff hd'.castsMatch hown' hroot).2 (Or.inl hdirect'))
      ((shows_iff h hown hroot).2 (Or.inl hdirect))
  have hagree := ((hagrees.resolve_left (by simpa using hown)).resolve_left
    (by simpa [Key.root] using hroot)).resolve_left (by simpa using hdirect)
  rw [shows_iff_of_agreement h hown hroot hdirect hagree,
    shows_iff_of_agreement hd'.castsMatch hown' hroot (by simpa only [hmem] using hdirect)
      (by simpa only [hmem] using hagree)]
  simp only [hmem]

end Agreement

section Wrappers

variable {n : Name}

/-- What is seen under the key of a type is seen as that type, one of the supertypes. -/
theorem exists_above_of_shows {d : Declaration} (h : d.CastsMatch) (hroot : n ≠ .root) (hs : d.Shows (.named n)) :
    ∃ a, d.Above a ∧ a.name = n := by
  by_cases hown : n = d.name
  · exact ⟨d, .refl, hown.symm⟩
  rcases (shows_iff h hown hroot).1 hs with ⟨p, hp, hn⟩ | ⟨before, p, after, hsplit, hs', -⟩
  · exact ⟨p, .single hp, hn.symm⟩
  · have hp : p ∈ d.parents := hsplit ▸ List.mem_append_right _ (List.mem_cons_self ..)
    have := sizeOf_lt_of_mem_parents hp
    obtain ⟨a, ha, hn⟩ := exists_above_of_shows (castsMatch_of_mem_parents h hp) hroot hs'
    exact ⟨a, .head hp ha, hn⟩
termination_by sizeOf d

theorem shows_of_reaches {d : Declaration} (h : d.CastsMatch) (hroot : n ≠ .root)
    (hraw : ∀ a raw argument, d.Above a → a.parameter? = some (raw, argument) → raw ≠ .named n)
    (hr : d.Reaches (.named n)) : d.Shows (.named n) := by
  have habove {p : Declaration} (hp : p ∈ d.parents) :
      ∀ a raw argument, p.Above a → a.parameter? = some (raw, argument) → raw ≠ .named n :=
    fun a raw argument ha => hraw a raw argument (.head hp ha)
  by_cases hown : n = d.name
  · exact hown ▸ shows_own h
  rw [shows_iff h hown hroot]
  have hsome : ∃ p ∈ d.parents, p.Reaches (.named n) := by
    cases hr with
    | own => exact absurd rfl hown
    | root => exact absurd rfl hroot
    | raw hp => exact absurd rfl (hraw d _ _ .refl hp)
    | inherited hp hk => exact ⟨_, hp, hk⟩
  obtain ⟨before, p, after, hsplit, hp, hbefore⟩ := exists_first _ hsome
  have hmem : p ∈ d.parents := hsplit ▸ List.mem_append_right _ (List.mem_cons_self ..)
  have := sizeOf_lt_of_mem_parents hmem
  exact Or.inr ⟨before, p, after, hsplit,
    shows_of_reaches (castsMatch_of_mem_parents h hmem) hroot (habove hmem) hp, hbefore⟩
termination_by sizeOf d

theorem agrees_of_apart (h : d.CastsMatch)
    (hapart : ∀ a b raw argument, d.Above a → d.Above b → a.parameter? = some (raw, argument) → raw ≠ .named b.name)
    (k : Key) : d.Agrees k := by
  by_cases hroot : k = .root
  · exact Or.inr (Or.inl hroot)
  refine Or.inr (Or.inr (Or.inr fun p hp p' hp' hr hr' => ?_))
  have hshows {p p' : Declaration} (hp : p ∈ d.parents) (hp' : p' ∈ d.parents) (hr' : p'.Reaches k) (hs : p.Shows k) :
      p'.Shows k := by
    obtain ⟨n, rfl⟩ := exists_named_of_shows hs
    have hn : n ≠ .root := by simpa [Key.root] using hroot
    obtain ⟨b, hb, rfl⟩ := exists_above_of_shows (castsMatch_of_mem_parents h hp) hn hs
    refine shows_of_reaches (castsMatch_of_mem_parents h hp') hn ?_ hr'
    exact fun a raw argument ha => hapart a b raw argument (.head hp' ha) (.head hp hb)
  exact ⟨hshows hp hp' hr', hshows hp' hp hr⟩

end Wrappers

/-- A class resolves to the same keys in whatever order it declares its supertypes. In every order its events are seen
under a key, or in none, exactly if the supertypes agree about it; and they agree about all keys if none of their raw
wrappers is a supertype as well. -/
theorem order_of_supertypes (h : d.CastsMatch) :
    (∀ d' : Declaration, d'.Reorders d →
      ∃ r r', d.resolved = .ok r ∧ d'.resolved = .ok r' ∧ ∀ k, k ∈ r'.keys ↔ k ∈ r.keys) ∧
    (∀ k, (∀ d' : Declaration, d'.Reorders d → (d'.Shows k ↔ d.Shows k)) ↔ d.Agrees k) ∧
    ((∀ a b raw argument, d.Above a → d.Above b → a.parameter? = some (raw, argument) → raw ≠ .named b.name) →
      ∀ k, d.Agrees k) := by
  refine ⟨?_, fun k => ⟨agrees_of_reorders h, fun hagrees d' => shows_iff_of_reorders h hagrees⟩, agrees_of_apart h⟩
  intro d' hd'
  obtain ⟨q, hq⟩ := (describe_isOk_iff d).2 h
  obtain ⟨q', hq'⟩ := (describe_isOk_iff d').2 hd'.castsMatch
  refine ⟨_, _, resolved_eq hq, resolved_eq hq', fun k => ?_⟩
  have hkeys : (q.viewedAs d.name).resolve.keys = q.keys := q.keys_viewedAs _
  have hkeys' : (q'.viewedAs d'.name).resolve.keys = q'.keys := q'.keys_viewedAs _
  rw [hkeys, hkeys', mem_keys_iff_reaches hq, mem_keys_iff_reaches hq']
  exact ⟨reaches_of_reorders hd'.name (fun p => hd'.parents.mem_iff.1) hd'.parameter?,
    reaches_of_reorders hd'.name.symm (fun p => hd'.parents.mem_iff.2) hd'.parameter?.symm⟩

/-- An interface that is the reified form of another one. -/
private def wrapping : Declaration :=
  .parameterized (.abstract (.interface 1)) (.named (.interface 3)) (.abstract (.simple 0))

/-- An interface with that other one for a supertype. -/
private def inheriting : Declaration :=
  .extending (.abstract (.interface 2)) (.abstract (.interface 3)) (.interface 3)

private def wrapperFirst : Declaration :=
  .extending (.extending (.concrete (.composite 0)) wrapping (.interface 1)) inheriting (.interface 2)

private def wrapperLast : Declaration :=
  .extending (.extending (.concrete (.composite 0)) inheriting (.interface 2)) wrapping (.interface 1)

private theorem reorders_wrapperFirst : wrapperFirst.Reorders wrapperLast :=
  ⟨rfl, .swap .., rfl, by simp [wrapperFirst, wrapping, inheriting, CastsMatch, name]⟩

private theorem wrapperLast_shows : wrapperLast.Shows (.named (.interface 3)) :=
  ⟨_, _, rfl, rfl⟩

private theorem wrapperFirst_hides : ¬ wrapperFirst.Shows (.named (.interface 3)) := by
  rintro ⟨r, v, hr, hv⟩
  obtain rfl := Except.ok.inj hr
  cases hv

/-- The two lead to the same interface and disagree about it, so its key has a view only in one order, while they are
themselves seen in any. -/
theorem supertypes_disagree_about_wrapper :
    wrapperLast.CastsMatch ∧ ¬ wrapperLast.Agrees (.named (.interface 3)) ∧
      ∀ d' : Declaration, d'.Reorders wrapperLast →
        (d'.Shows (.named (.interface 1)) ↔ wrapperLast.Shows (.named (.interface 1))) := by
  have hcasts : wrapperLast.CastsMatch := by simp [wrapperLast, wrapping, inheriting, CastsMatch, name]
  obtain ⟨-, hviews, -⟩ := order_of_supertypes hcasts
  refine ⟨hcasts, fun hagrees => ?_, (hviews _).2 (Or.inr (Or.inr (Or.inl ⟨wrapping, ?_, rfl⟩)))⟩
  · exact wrapperFirst_hides (((hviews _).2 hagrees _ reorders_wrapperFirst).2 wrapperLast_shows)
  · simp [wrapperLast, parents]

/-- A raw wrapper that comes along with an earlier supertype hides the same key of a later one. -/
theorem wrapper_hides_supertype : ¬ ∀ d d' : Declaration, d.CastsMatch → d'.Reorders d →
    (d.parents.map name).Nodup → ∀ k, (d'.Shows k ↔ d.Shows k) := by
  intro hsame
  have hcasts : wrapperLast.CastsMatch := by simp [wrapperLast, wrapping, inheriting, CastsMatch, name]
  exact wrapperFirst_hides ((hsame _ _ hcasts reorders_wrapperFirst (by decide) _).2 wrapperLast_shows)

end Declaration
end PubSub
