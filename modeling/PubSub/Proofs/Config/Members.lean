import Mathlib.Data.List.Nodup
import PubSub.Proofs.Config.Values

/-!
# Documents

The texts of objects and arrays of settings, with blanks wherever they may stand and names in any spelling. Whatever such
a text looks like, it is read as the configuration that has what its values give, and the defaults for the rest.
-/

namespace PubSub

theorem Field.ofName?_eq_some_iff {name : String} {f : Field} : Field.ofName? name = some f ↔ name = f.name := by
  constructor
  · intro h
    have hname := List.find?_some h
    exact (of_decide_eq_true hname).symm
  · rintro rfl
    cases f <;> rfl

theorem Field.name_injective {f g : Field} (h : f.name = g.name) : f = g :=
  Option.some.inj ((Field.ofName?_eq_some_iff.2 rfl).symm.trans (Field.ofName?_eq_some_iff.2 h))

namespace Document

open Json (IsValue IsBlanks EndsValue IsMember skipBlank)

abbrev Member :=
  String × List Char

def named (ms : List Member) : List Field :=
  ms.filterMap fun m => Field.ofName? m.1

/-- What stands after a member of an object: further members up to the closing brace. -/
inductive MoreMembers : List Member → List Char → Prop
  | none : MoreMembers [] []
  | some {name : String} {v m text : List Char} {ms : List Member} (hv : IsValue v) (hm : IsMember name.toList v m)
    (h : MoreMembers ms text) : MoreMembers ((name, v) :: ms) (',' :: (m ++ text))

/-- An object with these members in this order. -/
inductive IsObject : List Member → List Char → Prop
  | empty {before ws after : List Char} (hbefore : IsBlanks before) (hws : IsBlanks ws) (hafter : IsBlanks after) :
    IsObject [] (before ++ '\x7b' :: (ws ++ '\x7d' :: after))
  | some {before after : List Char} {name : String} {v m text : List Char} {ms : List Member} (hbefore : IsBlanks before)
    (hafter : IsBlanks after) (hv : IsValue v) (hm : IsMember name.toList v m) (h : MoreMembers ms text) :
    IsObject ((name, v) :: ms) (before ++ '\x7b' :: (m ++ (text ++ '\x7d' :: after)))

/-- What stands after an element of an array: further elements up to the closing bracket. -/
inductive MoreElements : List (List Char) → List Char → Prop
  | none : MoreElements [] []
  | some {ws v ws' text : List Char} {vs : List (List Char)} (hws : IsBlanks ws) (hv : IsValue v) (hws' : IsBlanks ws')
    (h : MoreElements vs text) : MoreElements (v :: vs) (',' :: (ws ++ (v ++ (ws' ++ text))))

inductive IsArray : List (List Char) → List Char → Prop
  | empty {before ws after : List Char} (hbefore : IsBlanks before) (hws : IsBlanks ws) (hafter : IsBlanks after) :
    IsArray [] (before ++ '[' :: (ws ++ ']' :: after))
  | some {before after ws v ws' text : List Char} {vs : List (List Char)} (hbefore : IsBlanks before)
    (hafter : IsBlanks after) (hws : IsBlanks ws) (hv : IsValue v) (hws' : IsBlanks ws') (h : MoreElements vs text) :
    IsArray (v :: vs) (before ++ '[' :: (ws ++ (v ++ (ws' ++ (text ++ ']' :: after)))))

/-- The configuration has what the members give, and is like the other one for the rest. -/
def Describes (ms : List Member) (c c' : Config) : Prop :=
  ∀ f : Field, (∀ v, (f.name, v) ∈ ms → Gives v f (c'.get f)) ∧ (f ∉ named ms → c'.get f = c.get f)

section Describing

variable {ms : List Member} {c c' : Config} {f : Field} {name : String} {v : List Char}

theorem named_cons_of_some (h : Field.ofName? name = some f) : named ((name, v) :: ms) = f :: named ms :=
  List.filterMap_cons_some h

theorem named_cons_of_none (h : Field.ofName? name = none) : named ((name, v) :: ms) = named ms :=
  List.filterMap_cons_none h

theorem mem_named : f ∈ named ms ↔ ∃ v, (f.name, v) ∈ ms := by
  rw [named, List.mem_filterMap]
  constructor
  · rintro ⟨⟨name, v⟩, hm, hname⟩
    obtain rfl := Field.ofName?_eq_some_iff.1 hname
    exact ⟨v, hm⟩
  · rintro ⟨v, hm⟩
    exact ⟨_, hm, Field.ofName?_eq_some_iff.2 rfl⟩

theorem describes_nil : Describes [] c c' ↔ c' = c := by
  constructor
  · intro h
    exact Config.eq_of_get fun f => (h f).2 List.not_mem_nil
  · rintro rfl f
    exact ⟨fun v hv => absurd hv List.not_mem_nil, fun _ => rfl⟩

theorem describes_unknown (h : Field.ofName? name = none) : Describes ((name, v) :: ms) c c' ↔ Describes ms c c' := by
  have hmem (f : Field) (w : List Char) : (f.name, w) ∈ (name, v) :: ms ↔ (f.name, w) ∈ ms := by
    refine ⟨fun hw => (List.mem_cons.1 hw).resolve_left ?_, List.mem_cons_of_mem _⟩
    intro heq
    rw [← (Prod.mk.inj heq).1, Field.ofName?_eq_some_iff.2 rfl] at h
    cases h
  simp only [Describes, hmem, named_cons_of_none h]

theorem describes_known (hnew : f ∉ named ms) : Describes ((f.name, v) :: ms) c c' ↔
    ∃ c₁, (Gives v f (c₁.get f) ∧ ∀ g, g ≠ f → c₁.get g = c.get g) ∧ Describes ms c₁ c' := by
  have hnamed : named ((f.name, v) :: ms) = f :: named ms := named_cons_of_some (Field.ofName?_eq_some_iff.2 rfl)
  constructor
  · intro h
    refine ⟨c.put f (c'.get f), ⟨?_, fun g hg => Config.get_put_of_ne hg c _⟩, ?_⟩
    · rw [Config.get_put]
      exact (h f).1 v (List.mem_cons_self ..)
    · intro g
      refine ⟨fun w hw => (h g).1 w (List.mem_cons_of_mem _ hw), fun habsent => ?_⟩
      by_cases hg : g = f
      · subst hg
        exact (Config.get_put c g _).symm
      · rw [Config.get_put_of_ne hg]
        exact (h g).2 (hnamed ▸ List.not_mem_cons_of_ne_of_not_mem hg habsent)
  · rintro ⟨c₁, ⟨hgives, hothers⟩, h⟩ g
    constructor
    · intro w hw
      rcases List.mem_cons.1 hw with heq | hw
      · obtain ⟨hname, rfl⟩ := Prod.mk.inj heq
        obtain rfl := Field.name_injective hname
        rwa [(h g).2 hnew]
      · exact (h g).1 w hw
    · intro habsent
      rw [hnamed] at habsent
      rw [(h g).2 (List.not_mem_of_not_mem_cons habsent), hothers g (List.ne_of_not_mem_cons habsent)]

end Describing

section Reading

variable {ms : List Member} {met : List Field} {c c' : Config} {rest r text : List Char}

theorem endsValue_close (h : MoreMembers ms text) (rest : List Char) : EndsValue (text ++ '\x7d' :: rest) := by
  cases h with
  | none => exact Json.endsValue_cons (Or.inr (Or.inr rfl)) rest
  | some => exact Json.endsValue_cons (Or.inl rfl) _

private theorem readMember_eq {t ws₁ x : List Char} {name : String} (ht : Json.Spells t name.toList)
    (hws₁ : IsBlanks ws₁) : readMember met c (t ++ '"' :: (ws₁ ++ ':' :: x)) = match Field.ofName? name with
      | some f => if f ∈ met then .error .mistyped else (fun p => (f :: met, p.1, p.2)) <$> readField c f x
      | none => (fun r => (met, c, r)) <$> Json.skipValue x := by
  simp only [readMember, Json.readText_append ht, bind, Except.bind, String.ofList_toList, readColon_append hws₁]
  cases Field.ofName? name with
  | some f =>
    dsimp only
    split
    · rfl
    · cases readField c f x <;> rfl
  | none =>
    dsimp only
    cases Json.skipValue x <;> rfl

private theorem readMember_then {name : String} {t ws₁ ws₂ v ws₃ next : List Char} (ht : Json.Spells t name.toList)
    (hws₁ : IsBlanks ws₁) (hws₂ : IsBlanks ws₂) (hv : IsValue v) (hws₃ : IsBlanks ws₃) (hnext : EndsValue next)
    (hnew : (named ((name, v) :: ms) ++ met).Nodup)
    {later : List Field × Config × List Char → Except Json.Flaw (Config × List Char)}
    (hlater : ∀ met' c₁, (named ms ++ met').Nodup →
      (later (met', c₁, ws₃ ++ next) = .ok (c', r) ↔ Describes ms c₁ c' ∧ r = rest)) :
    readMember met c (t ++ '"' :: (ws₁ ++ ':' :: (ws₂ ++ (v ++ (ws₃ ++ next))))) >>= later = .ok (c', r) ↔
      Describes ((name, v) :: ms) c c' ∧ r = rest := by
  have hends := hnext.append hws₃
  rw [readMember_eq ht hws₁]
  cases hname : Field.ofName? name with
  | some f =>
    rw [named_cons_of_some hname, List.cons_append] at hnew
    obtain ⟨hf, -⟩ := List.nodup_cons.1 hnew
    have hmet : f ∉ met := fun h => hf (List.mem_append_right _ h)
    obtain rfl := Field.ofName?_eq_some_iff.1 hname
    rw [describes_known fun h => hf (List.mem_append_left _ h)]
    simp only [if_neg hmet, bind_eq_ok_iff, map_eq_ok_iff]
    constructor
    · rintro ⟨_, ⟨⟨c₁, q⟩, hread, rfl⟩, h⟩
      obtain ⟨hgives, hothers, rfl⟩ := (readField_eq_ok_iff hws₂ hv hends).1 hread
      obtain ⟨hdescribes, rfl⟩ := (hlater _ c₁ (List.nodup_middle.2 hnew)).1 h
      exact ⟨⟨c₁, ⟨hgives, hothers⟩, hdescribes⟩, rfl⟩
    · rintro ⟨⟨c₁, ⟨hgives, hothers⟩, hdescribes⟩, rfl⟩
      have hread := (readField_eq_ok_iff hws₂ hv hends).2 ⟨hgives, hothers, rfl⟩
      exact ⟨_, ⟨_, hread, rfl⟩, (hlater _ c₁ (List.nodup_middle.2 hnew)).2 ⟨hdescribes, rfl⟩⟩
  | none =>
    rw [named_cons_of_none hname] at hnew
    rw [describes_unknown hname, Json.skipValue_append hws₂ hv hends]
    exact hlater met c hnew

theorem readMembers_eq_ok_iff (h : MoreMembers ms text) (hnew : (named ms ++ met).Nodup) {rounds : Nat}
    (hrounds : ms.length < rounds) {ws : List Char} (hws : IsBlanks ws) :
    readMembers rounds met c (ws ++ (text ++ '\x7d' :: rest)) = .ok (c', r) ↔ Describes ms c c' ∧ r = rest := by
  induction h generalizing met c rounds ws with
  | none =>
    obtain ⟨rounds, rfl⟩ := Nat.exists_eq_add_one_of_ne_zero (Nat.ne_of_gt hrounds)
    rw [readMembers, Json.skipBlank_append hws, describes_nil]
    show Except.ok (c, rest) = _ ↔ _
    rw [Except.ok.injEq, Prod.mk.injEq, eq_comm, eq_comm (a := rest)]
  | some hv hm h ih =>
    obtain ⟨rounds, rfl⟩ := Nat.exists_eq_add_one_of_ne_zero (Nat.ne_of_gt (Nat.zero_lt_of_lt hrounds))
    have hlength := Nat.lt_of_succ_lt_succ hrounds
    obtain ⟨hws', ht, hws₁, hws₂, hws₃⟩ := hm
    simp only [List.cons_append, List.append_assoc, readMembers, Json.skipBlank_append hws, Json.skipBlank_append hws',
      Json.skipBlank_cons (c := ',') (by decide), Json.skipBlank_cons (c := '"') (by decide)]
    exact readMember_then ht hws₁ hws₂ hv hws₃ (endsValue_close h rest) hnew fun met' c₁ hnew' =>
      ih hnew' hlength hws₃

theorem MoreMembers.length_le (h : MoreMembers ms text) : ms.length ≤ text.length := by
  induction h with
  | none => exact Nat.le_refl 0
  | some _ _ _ ih =>
    simp only [List.length_cons, List.length_append]
    omega

private theorem skipBlank_blanks {ws : List Char} (hws : IsBlanks ws) : skipBlank ws = [] := by
  have h := Json.skipBlank_append hws []
  rwa [List.append_nil] at h

private theorem finish_iff {e : Except Json.Flaw (Config × List Char)} :
    (do let (c, r) ← e; if skipBlank r = [] then return c else throw Json.Flaw.malformed) = .ok c ↔
      ∃ r, e = .ok (c, r) ∧ skipBlank r = [] := by
  rw [bind_eq_ok_iff]
  constructor
  · rintro ⟨⟨c', r⟩, he, h⟩
    dsimp only at h
    split at h
    · obtain rfl := pure_eq_ok_iff.1 h
      exact ⟨r, he, ‹_›⟩
    · cases h
  · rintro ⟨r, he, hr⟩
    exact ⟨_, he, if_pos hr⟩

private theorem read_brace {before x : List Char} (hbefore : IsBlanks before) :
    read (before ++ '\x7b' :: x) = .ok c ↔ ∃ r, readObject x = .ok (c, r) ∧ skipBlank r = [] := by
  rw [read, Json.skipBlank_append hbefore]
  exact finish_iff

private theorem read_bracket {before x : List Char} (hbefore : IsBlanks before) :
    read (before ++ '[' :: x) = .ok c ↔ ∃ r, readArray x = .ok (c, r) ∧ skipBlank r = [] := by
  rw [read, Json.skipBlank_append hbefore]
  exact finish_iff

theorem readObject_eq_ok_iff {name : String} {v m : List Char} (hv : IsValue v) (hm : IsMember name.toList v m)
    (h : MoreMembers ms text) (hnodup : (named ((name, v) :: ms)).Nodup) :
    readObject (m ++ (text ++ '\x7d' :: rest)) = .ok (c, r) ↔ Describes ((name, v) :: ms) .default c ∧ r = rest := by
  obtain ⟨hws, ht, hws₁, hws₂, hws₃⟩ := hm
  simp only [List.cons_append, List.append_assoc, readObject, Json.skipBlank_append hws,
    Json.skipBlank_cons (c := '"') (by decide)]
  refine readMember_then ht hws₁ hws₂ hv hws₃ (endsValue_close h rest) (by rwa [List.append_nil]) fun met' c₁ hnew => ?_
  refine readMembers_eq_ok_iff h hnew ?_ hws₃
  have := h.length_le
  simp only [List.length_append]
  omega

theorem read_object_iff {s : List Char} (h : IsObject ms s) (hnodup : (named ms).Nodup) :
    read s = .ok c ↔ Describes ms .default c := by
  cases h with
  | @empty before ws after hbefore hws hafter =>
    have hread : readObject (ws ++ '\x7d' :: after) = .ok (.default, after) := by
      rw [readObject, Json.skipBlank_append hws]
      rfl
    rw [read_brace hbefore, describes_nil, hread]
    constructor
    · rintro ⟨r, hr, -⟩
      exact (Prod.mk.inj (Except.ok.inj hr)).1.symm
    · rintro rfl
      exact ⟨after, rfl, skipBlank_blanks hafter⟩
  | some hbefore hafter hv hm h =>
    simp only [read_brace hbefore, readObject_eq_ok_iff hv hm h hnodup]
    constructor
    · rintro ⟨r, ⟨hdescribes, -⟩, -⟩
      exact hdescribes
    · intro hdescribes
      exact ⟨_, ⟨hdescribes, rfl⟩, skipBlank_blanks hafter⟩

end Reading

section Elements

variable {vs : List (List Char)} {fs : List Field} {f : Field} {c c' : Config} {v ws x rest r text : List Char}

/-- The elements as members, for the settings in this order. -/
def placed (fs : List Field) (vs : List (List Char)) : List Member :=
  List.zipWith (fun f v => (f.name, v)) fs vs

theorem placed_cons (f : Field) (fs : List Field) (v : List Char) (vs : List (List Char)) :
    placed (f :: fs) (v :: vs) = (f.name, v) :: placed fs vs :=
  rfl

theorem named_placed (fs : List Field) (vs : List (List Char)) : named (placed fs vs) = fs.take vs.length := by
  induction fs generalizing vs with
  | nil => rw [List.take_nil]; rfl
  | cons f fs ih =>
    cases vs with
    | nil => rfl
    | cons v vs =>
      rw [placed_cons, named_cons_of_some (Field.ofName?_eq_some_iff.2 rfl), ih, List.length_cons, List.take_succ_cons]

theorem MoreElements.endsValue (h : MoreElements vs text) (rest : List Char) : EndsValue (text ++ ']' :: rest) := by
  cases h with
  | none => exact Json.endsValue_cons (Or.inr (Or.inl rfl)) rest
  | some => exact Json.endsValue_cons (Or.inl rfl) _

private theorem readElements_comma (hws : IsBlanks ws) (hv : IsValue v) {ws' : List Char} (hws' : IsBlanks ws') :
    readElements c (f :: fs) (ws ++ ',' :: (ws' ++ (v ++ x))) =
      readField c f (v ++ x) >>= fun p => readElements p.1 fs p.2 := by
  obtain ⟨d, q, rfl, hblank, hclose, -⟩ := hv.head
  simp only [readElements, Json.skipBlank_append hws, Json.skipBlank_append hws',
    Json.skipBlank_cons (c := ',') (by decide), List.cons_append, Json.skipBlank_cons hblank]
  split
  · exact absurd (List.cons.inj ‹_›).1 hclose
  · cases ‹_ = []›
  · rfl

private theorem readField_then (hv : IsValue v) (hws : IsBlanks ws) (hx : EndsValue x) (hf : f ∉ named (placed fs vs))
    (hlater : ∀ c₁, readElements c₁ fs (ws ++ x) = .ok (c', r) ↔ Describes (placed fs vs) c₁ c' ∧ r = rest) :
    (readField c f (v ++ (ws ++ x)) >>= fun p => readElements p.1 fs p.2) = .ok (c', r) ↔
      Describes (placed (f :: fs) (v :: vs)) c c' ∧ r = rest := by
  have hread {c₁ : Config} {q : List Char} : readField c f (v ++ (ws ++ x)) = .ok (c₁, q) ↔
      Gives v f (c₁.get f) ∧ (∀ g, g ≠ f → c₁.get g = c.get g) ∧ q = ws ++ x :=
    readField_eq_ok_iff Json.isBlanks_nil hv (hx.append hws)
  rw [placed_cons, describes_known hf, bind_eq_ok_iff]
  constructor
  · rintro ⟨⟨c₁, q⟩, hq, h⟩
    obtain ⟨hgives, hothers, rfl⟩ := hread.1 hq
    obtain ⟨hdescribes, rfl⟩ := (hlater c₁).1 h
    exact ⟨⟨c₁, ⟨hgives, hothers⟩, hdescribes⟩, rfl⟩
  · rintro ⟨⟨c₁, ⟨hgives, hothers⟩, hdescribes⟩, rfl⟩
    exact ⟨_, hread.2 ⟨hgives, hothers, rfl⟩, (hlater c₁).2 ⟨hdescribes, rfl⟩⟩

theorem readElements_eq_ok_iff (h : MoreElements vs text) (hfs : fs.Nodup) (hle : vs.length ≤ fs.length)
    (hws : IsBlanks ws) : readElements c fs (ws ++ (text ++ ']' :: rest)) = .ok (c', r) ↔
      Describes (placed fs vs) c c' ∧ r = rest := by
  induction h generalizing c fs ws with
  | none =>
    have hread : readElements c fs (ws ++ ([] ++ ']' :: rest)) = .ok (c, rest) := by
      cases fs <;> (rw [readElements, Json.skipBlank_append hws]; rfl)
    rw [hread, placed, List.zipWith_nil_right, describes_nil, Except.ok.injEq, Prod.mk.injEq, eq_comm, eq_comm (a := rest)]
  | some hws₁ hv hws₂ h ih =>
    cases fs with
    | nil => cases hle
    | cons f fs =>
      obtain ⟨hf, hfs⟩ := List.nodup_cons.1 hfs
      simp only [List.cons_append, List.append_assoc]
      rw [readElements_comma hws hv hws₁]
      refine readField_then hv hws₂ (h.endsValue rest) ?_ fun c₁ => ih hfs (Nat.le_of_succ_le_succ hle) hws₂
      rw [named_placed]
      exact fun hmem => hf (List.mem_of_mem_take hmem)

/-- An array is read as what its elements describe as members. -/
theorem read_array_iff {s : List Char} (h : IsArray vs s) (hle : vs.length ≤ Field.all.length) :
    read s = .ok c ↔ Describes (placed Field.all vs) .default c := by
  cases h with
  | @empty before ws after hbefore hws hafter =>
    have hread : readArray (ws ++ ']' :: after) = .ok (.default, after) := by
      rw [readArray, Json.skipBlank_append hws]
      rfl
    rw [read_bracket hbefore, placed, List.zipWith_nil_right, describes_nil, hread]
    constructor
    · rintro ⟨r, hr, -⟩
      exact (Prod.mk.inj (Except.ok.inj hr)).1.symm
    · rintro rfl
      exact ⟨after, rfl, skipBlank_blanks hafter⟩
  | @some before after ws v ws' text vs hbefore hafter hws hv hws' h =>
    have hread : readArray (ws ++ (v ++ (ws' ++ (text ++ ']' :: after)))) =
        readField .default .workerThreads (v ++ (ws' ++ (text ++ ']' :: after))) >>=
          fun p => readElements p.1 Field.all.tail p.2 := by
      obtain ⟨d, q, rfl, hblank, hclose, -⟩ := hv.head
      simp only [readArray, Json.skipBlank_append hws, List.cons_append, Json.skipBlank_cons hblank]
      split
      · exact absurd (List.cons.inj ‹_›).1 hclose
      · cases ‹_ = []›
      · rfl
    have helements {r : List Char} : readArray (ws ++ (v ++ (ws' ++ (text ++ ']' :: after)))) = .ok (c, r) ↔
        Describes (placed Field.all (v :: vs)) .default c ∧ r = after := by
      rw [hread]
      refine readField_then hv hws' (h.endsValue after) ?_ fun c₁ =>
        readElements_eq_ok_iff h (by decide) (Nat.le_of_succ_le_succ hle) hws'
      rw [named_placed]
      exact fun hmem => absurd (List.mem_of_mem_take hmem) (by decide)
    simp only [read_bracket hbefore, helements]
    constructor
    · rintro ⟨r, ⟨hdescribes, -⟩, -⟩
      exact hdescribes
    · intro hdescribes
      exact ⟨_, ⟨hdescribes, rfl⟩, skipBlank_blanks hafter⟩

end Elements
end Document
end PubSub
