import PubSub.Proofs.Registry.Bulk

/-!
# Bulk registrations amid a look-up

A bulk registration files one entry after the other, and a look-up reads one row after the other. Neither waits for the
other. A row shows the entries that were filed before it was read, and each row that is read later shows at least as
much of the table.
-/

namespace PubSub.Registry

/-- The number of requests before each read. -/
def cuts : List Turn → List Nat
  | [] => []
  | .read :: turns => 0 :: cuts turns
  | .request _ :: turns => (cuts turns).map (· + 1)

/-- A bulk registration, one request for each entry. -/
def filings (table : List (Key × Callback)) : List Request :=
  table.map fun e => .register e.1 e.2

/-- The entry itself is among what was found. -/
def Finds (found : List (Subscription × Option View)) (e : Key × Callback) : Prop :=
  ∃ p ∈ found, p.1.key = e.1 ∧ p.1.callback = e.2

section Cutting

theorem cuts_le (turns : List Turn) : ∀ n ∈ cuts turns, n ≤ (asked turns).length := by
  induction turns with
  | nil => simp [cuts]
  | cons t turns ih =>
    cases t with
    | read =>
      intro n hn
      rcases List.mem_cons.1 hn with rfl | hn
      · exact Nat.zero_le _
      · exact ih n hn
    | request q =>
      intro n hn
      obtain ⟨m, hm, rfl⟩ := List.mem_map.1 hn
      exact Nat.succ_le_succ (ih m hm)

theorem pairwise_cuts (turns : List Turn) : (cuts turns).Pairwise (· ≤ ·) := by
  induction turns with
  | nil => exact .nil
  | cons t turns ih =>
    cases t with
    | read => exact List.pairwise_cons.2 ⟨fun _ _ => Nat.zero_le _, ih⟩
    | request q => exact List.pairwise_map.2 (ih.imp Nat.succ_le_succ)

private theorem left_of_cuts (turns : List Turn) (c : Scan) :
    (turns.foldl Scan.take c).left = c.left.drop (cuts turns).length := by
  induction turns generalizing c with
  | nil => rfl
  | cons t turns ih =>
    rw [List.foldl_cons, ih]
    cases t with
    | read =>
      obtain ⟨r, left, found⟩ := c
      cases left <;> simp [Scan.take, cuts]
    | request q => simp [Scan.take, cuts]

private theorem found_of_cuts (turns : List Turn) (c : Scan) :
    (turns.foldl Scan.take c).found = c.found ++ (c.left.zip (cuts turns)).flatMap fun p =>
      ((((asked turns).take p.2).foldl request c.registry).row p.1.1).map fun s => (s, p.1.2) := by
  induction turns generalizing c with
  | nil => simp [cuts]
  | cons t turns ih =>
    rw [List.foldl_cons, ih]
    cases t with
    | read =>
      have hasked : asked (.read :: turns) = asked turns := rfl
      obtain ⟨r, left, found⟩ := c
      cases left with
      | nil => rfl
      | cons next left =>
        rw [hasked, cuts, List.zip_cons_cons, List.flatMap_cons]
        exact List.append_assoc ..
    | request q =>
      have hasked : asked (.request q :: turns) = q :: asked turns := rfl
      rw [hasked, cuts, List.zip_map_right, List.flatMap_map]
      rfl

private theorem exists_mem_take {table : List (Key × Callback)} {n : Nat} {k : Key} {c : Callback} :
    (∃ e ∈ table.take n, e.1 = k ∧ e.2.isSame c) ↔ ∃ j < n, ∃ c', table[j]? = some (k, c') ∧ c'.isSame c := by
  constructor
  · rintro ⟨⟨k, c'⟩, he, rfl, hsame⟩
    obtain ⟨j, hj⟩ := List.mem_iff_getElem?.1 he
    rw [List.getElem?_take] at hj
    split at hj
    · exact ⟨j, ‹_›, c', hj, hsame⟩
    · cases hj
  · rintro ⟨j, hj, c', he, hsame⟩
    refine ⟨(k, c'), List.mem_iff_getElem?.2 ⟨j, ?_⟩, rfl, hsame⟩
    rwa [List.getElem?_take_of_lt hj]

theorem take_filings (table : List (Key × Callback)) (n : Nat) : (filings table).take n = filings (table.take n) :=
  (List.map_take ..).symm

theorem foldl_filings (r : Registry) (table : List (Key × Callback)) :
    (filings table).foldl request r = (r.registerAll table).1 := by
  induction table generalizing r with
  | nil => rfl
  | cons e table ih => exact ih (r.register e.1 e.2).1

end Cutting

section Showing

variable {r : Registry} {k : Key} {c : Callback}

private theorem shows_register (key : Key) (callback : Callback) :
    (∃ u ∈ (r.register key callback).1.row k, u.callback.isSame c) ↔
      (∃ u ∈ r.row k, u.callback.isSame c) ∨ key = k ∧ callback.isSame c := by
  constructor
  · rintro ⟨u, hu, hsame⟩
    rcases mem_row_register hu with hu | ⟨rfl, rfl⟩
    · exact Or.inl ⟨u, hu, hsame⟩
    · exact Or.inr ⟨rfl, hsame⟩
  · rintro (⟨u, hu, hsame⟩ | ⟨rfl, hsame⟩)
    · exact ⟨u, mem_row_register_of_mem hu, hsame⟩
    · rw [row_register]
      split
      · exact ⟨_, List.mem_append_right _ (List.mem_singleton_self _), hsame⟩
      · -- one that is the same was there
        rename_i hthere
        obtain ⟨u, hu, hthere⟩ : ∃ u ∈ r.row key, u.callback.isSame callback := by simpa using hthere
        rw [Callback.isSame_iff] at hsame hthere
        refine ⟨u, hu, (Callback.isSame_iff ..).2 ⟨?_, ?_⟩⟩
        · exact hthere.1.trans hsame.1
        · exact hthere.2.trans hsame.2

theorem shows_registerAll (table : List (Key × Callback)) :
    (∃ u ∈ (r.registerAll table).1.row k, u.callback.isSame c) ↔
      (∃ u ∈ r.row k, u.callback.isSame c) ∨ ∃ e ∈ table, e.1 = k ∧ e.2.isSame c := by
  induction table generalizing r with
  | nil => simp [registerAll]
  | cons e table ih =>
    rw [registerAll_cons, ih, shows_register, List.exists_mem_cons_iff, or_assoc]

private theorem exists_found_iff {rows : Nat → Registry} {entries : List ((Key × Option View) × Nat)}
    (hkeys : (entries.map fun e => e.1.1).Nodup) (hmade : ∀ n k, ∀ s ∈ (rows n).row k, s.key = k) {view : Option View}
    {n : Nat} (he : ((k, view), n) ∈ entries) :
    (∃ p ∈ entries.flatMap (fun e => ((rows e.2).row e.1.1).map fun s => (s, e.1.2)),
      p.1.key = k ∧ p.1.callback.isSame c) ↔ ∃ s ∈ (rows n).row k, s.callback.isSame c := by
  constructor
  · rintro ⟨p, hp, hkey, hsame⟩
    obtain ⟨e, he', hp⟩ := List.mem_flatMap.1 hp
    obtain ⟨s, hs, rfl⟩ := List.mem_map.1 hp
    obtain rfl : e = ((k, view), n) :=
      List.inj_on_of_nodup_map hkeys he' he ((hmade _ _ s hs).symm.trans hkey)
    exact ⟨s, hs, hsame⟩
  · rintro ⟨s, hs, hsame⟩
    refine ⟨(s, view), List.mem_flatMap.2 ⟨_, he, ?_⟩, hmade n k s hs, hsame⟩
    exact List.mem_map.2 ⟨s, hs, rfl⟩

end Showing

/-- The entries of a table are filed one after the other while the rows of `resolution` are read. Each row has a cut,
and the cuts do not decrease from one row to the next. Under a key the look-up finds what was there before and the
entries of the table up to the cut, where an entry counts as found if one that is the same is there. So all of the table
is found when no row is read before the last entry is filed, and none of it when all are read before the first. -/
theorem found_up_to_cuts (prior : List Request) (table : List (Key × Callback)) (resolution : Resolution)
    (hkeys : resolution.keys.Nodup) (turns : List Turn) (hturns : asked turns = filings table)
    (hdone : (scan (after prior) resolution turns).left = []) :
    resolution.length ≤ (cuts turns).length ∧ (cuts turns).Pairwise (· ≤ ·) ∧ (∀ n ∈ cuts turns, n ≤ table.length) ∧
    (scan (after prior) resolution turns).found = (resolution.zip (cuts turns)).flatMap (fun e =>
      (((after prior).registerAll (table.take e.2)).1.row e.1.1).map fun s => (s, e.1.2)) ∧
    (∀ key view n, ((key, view), n) ∈ resolution.zip (cuts turns) → ∀ c : Callback,
      (∃ p ∈ (scan (after prior) resolution turns).found, p.1.key = key ∧ p.1.callback.isSame c) ↔
        (∃ s ∈ (after prior).row key, s.callback.isSame c) ∨ ∃ j < n, ∃ c', table[j]? = some (key, c') ∧ c'.isSame c) ∧
    ((∀ e ∈ resolution.zip (cuts turns), e.2 = table.length) →
      (scan (after prior) resolution turns).found = ((after prior).registerAll table).1.lookup resolution) ∧
    ((∀ e ∈ resolution.zip (cuts turns), e.2 = 0) →
      (scan (after prior) resolution turns).found = (after prior).lookup resolution) := by
  have hreads : resolution.length ≤ (cuts turns).length := by
    rw [scan, left_of_cuts] at hdone
    exact List.drop_eq_nil_iff.1 hdone
  have hfound : (scan (after prior) resolution turns).found = (resolution.zip (cuts turns)).flatMap fun e =>
      (((after prior).registerAll (table.take e.2)).1.row e.1.1).map fun s => (s, e.1.2) := by
    rw [scan, found_of_cuts, hturns]
    simp only [List.nil_append, take_filings, foldl_filings]
  have hzip : (resolution.zip (cuts turns)).map Prod.fst = resolution := List.map_fst_zip hreads
  -- where all rows have the same cut, the look-up is that of one registry
  have hlevel (n : Nat) (hn : ∀ e ∈ resolution.zip (cuts turns), e.2 = n) :
      (scan (after prior) resolution turns).found =
        ((after prior).registerAll (table.take n)).1.lookup resolution := by
    rw [hfound, ← hzip, lookup, List.flatMap_map, hzip]
    refine List.flatMap_congr ?_
    intro e he
    rw [hn e he]
  refine ⟨hreads, pairwise_cuts turns, ?_, hfound, ?_, ?_, ?_⟩
  · intro n hn
    have hle := cuts_le turns n hn
    rwa [hturns, filings, List.length_map] at hle
  · intro key view n he c
    have hmap : (resolution.zip (cuts turns)).map (fun e => e.1.1) = resolution.keys :=
      List.map_map.symm.trans (congrArg (List.map Prod.fst) hzip)
    have hnodup : ((resolution.zip (cuts turns)).map fun e => e.1.1).Nodup := hmap ▸ hkeys
    have hmade (m : Nat) (k : Key) (s : Subscription)
        (hs : s ∈ ((after prior).registerAll (table.take m)).1.row k) : s.key = k :=
      (((follows_after prior).registerAll _).made k s hs).1
    rw [hfound, exists_found_iff hnodup hmade he, shows_registerAll, exists_mem_take]
  · intro hlast
    have hall := hlevel table.length hlast
    rwa [List.take_length] at hall
  · exact hlevel 0

private def frontKey : Key :=
  .named (.simple 0)

private def backKey : Key :=
  .named (.simple 1)

private def bothKeys : Resolution :=
  [(frontKey, none), (backKey, none)]

private def method (name : String) (threadSafe : Bool) : Callback :=
  ⟨1, "Target@", name, threadSafe, .whole, 1, fun _ _ => .reply none⟩

private def table : List (Key × Callback) :=
  [(frontKey, method "front" false), (backKey, method "back" false)]

/-- The first row is read before the table is filed, the second row afterwards. -/
private def astride : List Turn :=
  [.read, .request (.register frontKey (method "front" false)), .request (.register backKey (method "back" false)),
    .read]

theorem back_found_without_front :
    (scan (after []) bothKeys astride).left = [] ∧
    (∃ p ∈ (scan (after []) bothKeys astride).found,
      p.1.key = backKey ∧ p.1.callback.isSame (method "back" false)) ∧
    ¬ ∃ p ∈ (scan (after []) bothKeys astride).found,
      p.1.key = frontKey ∧ p.1.callback.isSame (method "front" false) := by
  obtain ⟨-, -, -, -, hshown, -, -⟩ := found_up_to_cuts [] table bothKeys (by decide) astride rfl rfl
  refine ⟨rfl, (hshown backKey none 2 (by decide) _).2 (Or.inr ⟨1, by decide, _, rfl, by decide⟩), fun hfound => ?_⟩
  rcases (hshown frontKey none 0 (by decide) _).1 hfound with ⟨s, hs, -⟩ | ⟨j, hj, -⟩
  · cases hs
  · exact absurd hj (Nat.not_lt_zero j)

/-- All the entries under these keys are found, or none of them. -/
def AllOrNone (table : List (Key × Callback)) (resolution : Resolution) (found : List (Subscription × Option View)) :
    Prop :=
  (∀ e ∈ table, e.1 ∈ resolution.keys → Finds found e) ∨ ∀ e ∈ table, e.1 ∈ resolution.keys → ¬ Finds found e

/-- Two methods that go by one name, under one key. -/
private def namesakes : List (Key × Callback) :=
  [(frontKey, method "front" false), (frontKey, method "front" true)]

/-- A look-up with the table filed between its two rows finds the second entry only. Of two entries that are the same
the first alone is found, also after all the table. -/
theorem part_of_a_table_is_found :
    (bothKeys.keys.Nodup ∧ asked astride = filings table ∧ (scan (after []) bothKeys astride).left = [] ∧
      ¬ AllOrNone table bothKeys (scan (after []) bothKeys astride).found) ∧
    (scan (after []) [(frontKey, none)] ((filings namesakes).map .request ++ [.read])).left = [] ∧
    ¬ AllOrNone namesakes [(frontKey, none)]
      (scan (after []) [(frontKey, none)] ((filings namesakes).map .request ++ [.read])).found := by
  have hastride : (scan (after []) bothKeys astride).found = [(⟨2, backKey, method "back" false⟩, none)] := rfl
  have hnamesakes : (scan (after []) [(frontKey, none)] ((filings namesakes).map .request ++ [.read])).found =
      [(⟨1, frontKey, method "front" false⟩, none)] := rfl
  refine ⟨⟨by decide, rfl, rfl, ?_⟩, rfl, ?_⟩
  · rw [hastride]
    rintro (hall | hnone)
    · obtain ⟨p, hp, hkey, -⟩ := hall _ (List.mem_cons_self ..) (by decide)
      obtain rfl := List.mem_singleton.1 hp
      exact absurd hkey (by decide)
    · refine hnone _ (List.mem_cons_of_mem _ (List.mem_cons_self ..)) (by decide) ?_
      exact ⟨_, List.mem_singleton_self _, rfl, rfl⟩
  · rw [hnamesakes]
    rintro (hall | hnone)
    · obtain ⟨p, hp, -, hcallback⟩ := hall _ (List.mem_cons_of_mem _ (List.mem_cons_self ..)) (by decide)
      obtain rfl := List.mem_singleton.1 hp
      exact absurd (congrArg Callback.threadSafe hcallback) (by decide)
    · exact hnone _ (List.mem_cons_self ..) (by decide) ⟨_, List.mem_singleton_self _, rfl, rfl⟩

end PubSub.Registry
