import PubSub.Proofs.Lookup

/-!
# Tables

Tables that are only ever put to and erased from have each key once. How many of their values have some property
changes by one with each value that comes or goes.
-/

namespace PubSub.Table

variable {α β : Type} [DecidableEq α]

/-- Each key occurs once. -/
def Proper (t : Table α β) : Prop :=
  (t.entries.map Prod.fst).Nodup

omit [DecidableEq α] in
theorem proper_empty : (empty : Table α β).Proper :=
  List.nodup_nil

private theorem replace?_eq_none_iff (a : α) (b : β) (es : List (α × β)) :
    replace? a b es = none ↔ a ∉ es.map Prod.fst := by
  induction es with
  | nil => simp [replace?]
  | cons e es ih =>
    by_cases ha : a = e.1
    · simp [replace?, ha]
    · simp only [replace?, ha, if_false, Option.map_eq_none_iff, ih, List.map_cons, List.mem_cons, false_or]

private theorem keys_of_replace? {a : α} {b : β} {es r : List (α × β)} (h : replace? a b es = some r) :
    r.map Prod.fst = es.map Prod.fst := by
  induction es generalizing r with
  | nil => simp [replace?] at h
  | cons e es ih =>
    by_cases ha : a = e.1
    · obtain rfl : (a, b) :: es = r := by simpa [replace?, ha] using h
      simp [ha]
    · obtain ⟨r', hr, rfl⟩ : ∃ r', replace? a b es = some r' ∧ e :: r' = r := by simpa [replace?, ha] using h
      simp [ih hr]

theorem proper_put {t : Table α β} (ht : t.Proper) (a : α) (b : β) : (t.put a b).Proper := by
  simp only [Proper, put]
  cases h : replace? a b t.entries with
  | none =>
    rw [Option.getD_none, List.map_cons, List.nodup_cons]
    exact ⟨(replace?_eq_none_iff a b t.entries).1 h, ht⟩
  | some r =>
    rw [Option.getD_some, keys_of_replace? h]
    exact ht

theorem proper_erase {t : Table α β} (ht : t.Proper) (a : α) : (t.erase a).Proper :=
  (List.filter_sublist.map Prod.fst).nodup ht

theorem mem_entries_iff {t : Table α β} (ht : t.Proper) (a : α) (b : β) : (a, b) ∈ t.entries ↔ t.get? a = some b :=
  (lookup_eq_some_iff_mem ht a b).symm

theorem mem_entries_of_get? {t : Table α β} {a : α} {b : β} (h : t.get? a = some b) : (a, b) ∈ t.entries := by
  obtain ⟨before, rest, hentries, -⟩ := List.lookup_eq_some_iff.1 (show t.entries.lookup a = some b from h)
  rw [hentries]
  exact List.mem_append_right _ (List.mem_cons_self ..)

theorem put_of_get? {t : Table α β} {a : α} {b : β} (h : t.get? a = some b) : t.put a b = t := by
  have hreplace (es : List (α × β)) (h : es.lookup a = some b) : replace? a b es = some es := by
    induction es with
    | nil => cases h
    | cons e es ih =>
      rw [lookup_cons_eq_ite] at h
      simp only [replace?]
      split
      · rename_i ha
        rw [if_pos ha] at h
        rw [ha, ← Option.some.inj h]
      · rename_i ha
        rw [if_neg ha] at h
        rw [ih h]
        rfl
  rw [put, hreplace t.entries h]
  rfl

private theorem replace?_of_replace? {a : α} {b : β} (c : β) {es r : List (α × β)} (h : replace? a b es = some r) :
    replace? a c r = replace? a c es := by
  induction es generalizing r with
  | nil => cases h
  | cons e es ih =>
    by_cases ha : a = e.1
    · obtain rfl : (a, b) :: es = r := by simpa [replace?, ha] using h
      simp [replace?, ha]
    · obtain ⟨r', hr, rfl⟩ : ∃ r', replace? a b es = some r' ∧ e :: r' = r := by simpa [replace?, ha] using h
      simp only [replace?, ha, if_false, ih hr]

theorem put_put (t : Table α β) (a : α) (b c : β) : (t.put a b).put a c = t.put a c := by
  unfold put
  cases h : replace? a b t.entries with
  | none =>
    have hnone : replace? a c t.entries = none :=
      (replace?_eq_none_iff a c _).2 ((replace?_eq_none_iff a b _).1 h)
    simp [replace?, hnone]
  | some r =>
    obtain ⟨r', hr'⟩ : ∃ r', replace? a c t.entries = some r' := by
      apply Option.ne_none_iff_exists'.1
      intro hnone
      cases h.symm.trans ((replace?_eq_none_iff a b _).2 ((replace?_eq_none_iff a c _).1 hnone))
    simp [replace?_of_replace? c h, hr']

theorem erase_of_get? {t : Table α β} {a : α} (h : t.get? a = none) : t.erase a = t := by
  have hkeep : t.entries.filter (fun e => a ≠ e.1) = t.entries := by
    rw [List.filter_eq_self]
    intro e he
    rw [decide_eq_true_eq]
    rintro rfl
    obtain ⟨b, hb⟩ := (mem_keys_iff_lookup t.entries e.1).1 (List.mem_map_of_mem he)
    cases h.symm.trans hb
  rw [erase, hkeep]

theorem mem_values_iff {t : Table α β} (ht : t.Proper) (b : β) : b ∈ t.values ↔ ∃ a, t.get? a = some b := by
  simp only [values]
  rw [List.mem_map]
  constructor
  · intro h
    rcases h with ⟨⟨a, b⟩, hm, rfl⟩
    exact ⟨a, (mem_entries_iff ht a b).1 hm⟩
  · intro h
    rcases h with ⟨a, ha⟩
    exact ⟨(a, b), (mem_entries_iff ht a b).2 ha, rfl⟩

private theorem mem_of_replace? {a : α} {b : β} {es r : List (α × β)} (h : replace? a b es = some r) :
    b ∈ r.map Prod.snd ∧ ∀ c ∈ es.map Prod.snd, c ∈ r.map Prod.snd ∨ es.lookup a = some c := by
  induction es generalizing r with
  | nil => cases h
  | cons e es ih =>
    rw [lookup_cons_eq_ite]
    by_cases ha : a = e.1
    · obtain rfl : (a, b) :: es = r := by simpa [replace?, ha] using h
      rw [if_pos ha]
      refine ⟨List.mem_cons_self .., ?_⟩
      intro c hc
      rcases List.mem_cons.1 hc with rfl | hc
      · exact Or.inr rfl
      · exact Or.inl (List.mem_cons_of_mem _ hc)
    · obtain ⟨r', hr, rfl⟩ : ∃ r', replace? a b es = some r' ∧ e :: r' = r := by simpa [replace?, ha] using h
      obtain ⟨hb, hkept⟩ := ih hr
      rw [if_neg ha]
      refine ⟨List.mem_cons_of_mem _ hb, ?_⟩
      intro c hc
      rcases List.mem_cons.1 hc with rfl | hc
      · exact Or.inl (List.mem_cons_self ..)
      · exact (hkept c hc).imp_left (List.mem_cons_of_mem _)

theorem mem_values_put (t : Table α β) (a : α) (b : β) :
    b ∈ (t.put a b).values ∧ ∀ c ∈ t.values, c ∈ (t.put a b).values ∨ t.get? a = some c := by
  simp only [values, put]
  cases h : replace? a b t.entries with
  | none => exact ⟨List.mem_cons_self .., fun c hc => Or.inl (List.mem_cons_of_mem _ hc)⟩
  | some r => exact mem_of_replace? h

theorem values_put_of_none {t : Table α β} {a : α} (h : t.get? a = none) (b : β) :
    (t.put a b).values = b :: t.values := by
  have hnew : replace? a b t.entries = none := by
    rw [replace?_eq_none_iff, mem_keys_iff_lookup]
    rintro ⟨b', hb'⟩
    cases h.symm.trans hb'
  rw [values, put, hnew]
  rfl

/-- A value that replaces another one takes its place. -/
theorem values_put_of_some {t : Table α β} {a : α} {b : β} (h : t.get? a = some b) :
    ∃ before after, t.values = before ++ b :: after ∧ ∀ b', (t.put a b').values = before ++ b' :: after := by
  have hreplace (es : List (α × β)) (h : es.lookup a = some b) : ∃ before after,
      es.map Prod.snd = before ++ b :: after ∧
        ∀ b', ∃ r, replace? a b' es = some r ∧ r.map Prod.snd = before ++ b' :: after := by
    induction es with
    | nil => cases h
    | cons e es ih =>
      rw [lookup_cons_eq_ite] at h
      by_cases ha : a = e.1
      · rw [if_pos ha] at h
        obtain rfl := Option.some.inj h
        exact ⟨[], es.map Prod.snd, rfl, fun b' => ⟨(a, b') :: es, by simp [replace?, ha], rfl⟩⟩
      · rw [if_neg ha] at h
        obtain ⟨before, after, hvalues, hput⟩ := ih h
        refine ⟨e.2 :: before, after, congrArg (e.2 :: ·) hvalues, fun b' => ?_⟩
        obtain ⟨r, hr, hrvalues⟩ := hput b'
        exact ⟨e :: r, by simp [replace?, ha, hr], congrArg (e.2 :: ·) hrvalues⟩
  obtain ⟨before, after, hvalues, hput⟩ := hreplace t.entries h
  refine ⟨before, after, hvalues, fun b' => ?_⟩
  obtain ⟨r, hr, hrvalues⟩ := hput b'
  rw [put, hr]
  exact hrvalues

/-- How many of the values have a property. -/
def tally (t : Table α β) (f : β → Bool) : Nat :=
  t.values.countP f

theorem tally_put_new {t : Table α β} {a : α} (ha : t.get? a = none) (b : β) (f : β → Bool) :
    (t.put a b).tally f = t.tally f + (f b).toNat := by
  rw [tally, values_put_of_none ha, List.countP_cons]
  cases f b <;> rfl

theorem tally_put {t : Table α β} {a : α} {b' : β} (ha : t.get? a = some b') (b : β) (f : β → Bool) :
    (t.put a b).tally f + (f b').toNat = t.tally f + (f b).toNat := by
  obtain ⟨before, after, hvalues, hput⟩ := values_put_of_some ha
  simp only [tally, hvalues, hput, List.countP_append, List.countP_cons]
  cases f b <;> cases f b' <;> simp <;> omega

theorem tally_erase {t : Table α β} (ht : t.Proper) {a : α} {b : β} (ha : t.get? a = some b) (f : β → Bool) :
    (t.erase a).tally f + (f b).toNat = t.tally f := by
  simp only [Proper] at ht
  simp only [get?] at ha
  simp only [tally, values, erase]
  generalize t.entries = es at ht ha
  induction es with
  | nil => simp at ha
  | cons e es ih =>
    rw [List.map_cons, List.nodup_cons] at ht
    rw [lookup_cons_eq_ite] at ha
    by_cases he : a = e.1
    · subst he
      obtain rfl : e.2 = b := by simpa using ha
      have hrest : (es.filter fun e' => e.1 ≠ e'.1) = es := by
        rw [List.filter_eq_self]
        intro e' hm
        simp only [ne_eq, decide_not, Bool.not_eq_true', decide_eq_false_iff_not]
        exact fun hsame => ht.1 (hsame ▸ List.mem_map_of_mem hm)
      rw [List.filter_cons_of_neg (by simp), hrest, List.map_cons, List.countP_cons]
      cases f e.2 <;> simp
    · have := ih ht.2 (by simpa [he] using ha)
      rw [List.filter_cons_of_pos (by simpa using he), List.map_cons, List.map_cons, List.countP_cons,
        List.countP_cons]
      omega

theorem tally_pos_iff {t : Table α β} (ht : t.Proper) (f : β → Bool) :
    0 < t.tally f ↔ ∃ a b, t.get? a = some b ∧ f b = true := by
  simp only [tally]
  rw [List.countP_pos_iff]
  constructor
  · intro h
    rcases h with ⟨b, hm, hf⟩
    obtain ⟨a, ha⟩ := (mem_values_iff ht b).1 hm
    exact ⟨a, b, ha, hf⟩
  · intro h
    rcases h with ⟨a, b, ha, hf⟩
    exact ⟨b, (mem_values_iff ht b).2 ⟨a, ha⟩, hf⟩

end PubSub.Table
