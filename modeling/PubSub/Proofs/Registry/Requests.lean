import Mathlib.Algebra.GroupWithZero.Nat
import Mathlib.Data.List.Induction
import Mathlib.Data.List.Nodup
import PubSub.Proofs.Registry.Rows
import PubSub.Proofs.Tables

/-!
# Requests

What a registry is asked for, from the first request on. Each registration has a number. The subscription that it files
has this number for its id, and no other subscription ever has it.
-/

namespace PubSub

theorem Callback.isSame_iff (a b : Callback) : a.isSame b ↔ a.identity = b.identity ∧ a.name = b.name := by
  simp [isSame]

namespace Registry

inductive Request where
  | register (key : Key) (callback : Callback)
  | registerAll (bindings : List (Key × Callback))
  | unregister (key : Key) (id : Nat)
  | clear

/-- The registrations that a request consists of. -/
def Request.registrations : Request → List (Key × Callback)
  | register key callback => [(key, callback)]
  | registerAll bindings => bindings
  | unregister _ _ | clear => []

def request (r : Registry) : Request → Registry
  | .register key callback => (r.register key callback).1
  | .registerAll bindings => (r.registerAll bindings).1
  | .unregister key id => r.unregister key id
  | .clear => r.clear

/-- What the requests make of a registry that is empty at first. -/
def after (requests : List Request) : Registry :=
  requests.foldl request empty

def registrations (requests : List Request) : List (Key × Callback) :=
  requests.flatMap Request.registrations

def keys (r : Registry) : List Key :=
  r.rows.entries.map Prod.fst

theorem after_append (requests later : List Request) :
    after (requests ++ later) = later.foldl request (after requests) :=
  List.foldl_append ..

theorem registrations_append (requests later : List Request) :
    registrations (requests ++ later) = registrations requests ++ registrations later :=
  List.flatMap_append ..

/-- What holds of a registry after these registrations, whatever was removed in between. -/
structure Follows (r : Registry) (calls : List (Key × Callback)) : Prop where
  issued : r.issued = calls.length
  proper : r.rows.Proper
  nonempty : ∀ k, r.rows.get? k ≠ some []
  made : ∀ k, ∀ s ∈ r.row k, s.key = k ∧ 1 ≤ s.id ∧ calls[s.id - 1]? = some (s.key, s.callback)
  increasing : ∀ k, (r.row k).Pairwise fun s s' => s.id < s'.id
  unlike : ∀ k, (r.row k).Pairwise fun s s' => s.callback.isSame s'.callback = false

theorem follows_empty : empty.Follows [] where
  issued := rfl
  proper := Table.proper_empty
  nonempty k := by simp [empty]
  made _ _ hs := by cases hs
  increasing _ := .nil
  unlike _ := .nil

section Registering

variable {r : Registry} {key : Key} {callback : Callback}

theorem register_of_same (hunlike : (r.row key).Pairwise fun s s' => s.callback.isSame s'.callback = false)
    {s : Subscription} (hs : s ∈ r.row key) (hsame : s.callback.isSame callback) :
    r.register key callback = ({ r with issued := r.issued + 1 }, s.id) := by
  have hfind : (r.row key).find? (·.callback.isSame callback) = some s := by
    rw [List.find?_eq_some_iff_append]
    obtain ⟨before, rest, hrow⟩ := List.append_of_mem hs
    refine ⟨hsame, before, rest, hrow, ?_⟩
    intro s' hs'
    have hapart := (List.pairwise_append.1 (hrow ▸ hunlike)).2.2 s' hs' s (List.mem_cons_self ..)
    rw [← Bool.not_eq_true, Callback.isSame_iff] at hapart
    rw [Bool.not_eq_true', ← Bool.not_eq_true, Callback.isSame_iff]
    rw [Callback.isSame_iff] at hsame
    intro hsame'
    exact hapart ⟨hsame'.1.trans hsame.1.symm, hsame'.2.trans hsame.2.symm⟩
  simp only [register, hfind]

theorem register_of_new (hnew : ∀ s ∈ r.row key, ¬ s.callback.isSame callback) :
    r.register key callback =
      (⟨r.rows.put key (r.row key ++ [⟨r.issued + 1, key, callback⟩]), r.issued + 1⟩, r.issued + 1) := by
  have hfind : (r.row key).find? (·.callback.isSame callback) = none := List.find?_eq_none.2 hnew
  simp only [register, hfind]

theorem row_of_register_new (hnew : ∀ s ∈ r.row key, ¬ s.callback.isSame callback) (k : Key) :
    (r.register key callback).1.row k =
      if k = key then r.row k ++ [⟨r.issued + 1, key, callback⟩] else r.row k := by
  have hany : (r.row key).any (·.callback.isSame callback) = false := by simpa using hnew
  rw [row_register, hany]
  simp

theorem getElem?_registerAll (bindings : List (Key × Callback)) (j : Nat) :
    (r.registerAll bindings).2[j]? =
      bindings[j]?.map fun e => (e.1, ((r.registerAll (bindings.take j)).1.register e.1 e.2).2) := by
  induction bindings generalizing r j with
  | nil => rfl
  | cons binding rest ih =>
    cases j with
    | zero => rfl
    | succ j => exact ih j

end Registering

namespace Follows

variable {r : Registry} {calls : List (Key × Callback)}

theorem id_le (hr : r.Follows calls) {k : Key} {s : Subscription} (hs : s ∈ r.row k) : s.id ≤ calls.length := by
  obtain ⟨-, hpos, hmade⟩ := hr.made k s hs
  have := (List.getElem?_eq_some_iff.1 hmade).1
  omega

/-- An id stands for what was registered under that number. -/
theorem eq_of_id (hr : r.Follows calls) {r' : Registry} {later : List (Key × Callback)}
    (hr' : r'.Follows (calls ++ later)) {k k' : Key} {s s' : Subscription} (hs : s ∈ r.row k)
    (hs' : s' ∈ r'.row k') (hid : s.id = s'.id) : s = s' := by
  obtain ⟨-, -, hmade⟩ := hr.made k s hs
  obtain ⟨-, -, hmade'⟩ := hr'.made k' s' hs'
  have hlt := (List.getElem?_eq_some_iff.1 hmade).1
  rw [List.getElem?_append_left (hid ▸ hlt), ← hid, hmade] at hmade'
  obtain ⟨hkey, hcallback⟩ := Prod.mk.inj (Option.some.inj hmade')
  cases s
  cases s'
  simp_all

private theorem fewer (hr : r.Follows calls) {r' : Registry} (hissued : r'.issued = r.issued) (hproper : r'.rows.Proper)
    (hnonempty : ∀ k, r'.rows.get? k ≠ some []) (hrow : ∀ k, (r'.row k).Sublist (r.row k)) : r'.Follows calls where
  issued := hissued.trans hr.issued
  proper := hproper
  nonempty := hnonempty
  made k s hs := hr.made k s ((hrow k).subset hs)
  increasing k := (hr.increasing k).sublist (hrow k)
  unlike k := (hr.unlike k).sublist (hrow k)

theorem clear (hr : r.Follows calls) : r.clear.Follows calls :=
  hr.fewer rfl Table.proper_empty (fun k => by simp [Registry.clear]) fun k => by simp

theorem unregister (hr : r.Follows calls) (key : Key) (id : Nat) : (r.unregister key id).Follows calls := by
  refine hr.fewer (r.issued_unregister key id) ?_ ?_ ?_
  · simp only [Registry.unregister]
    split
    · exact Table.proper_erase hr.proper _
    · exact Table.proper_put hr.proper _ _
  · intro k
    simp only [Registry.unregister]
    split
    · rw [Table.get?_erase]
      split
      · simp
      · exact hr.nonempty k
    · rename_i hrest
      rw [Table.get?_put]
      split
      · exact fun hempty => hrest (Option.some.inj hempty)
      · exact hr.nonempty k
  · intro k
    rw [row_unregister]
    split
    · exact List.filter_sublist
    · exact List.Sublist.refl _

private theorem counted (hr : r.Follows calls) (call : Key × Callback) :
    ({ r with issued := r.issued + 1 } : Registry).Follows (calls ++ [call]) where
  issued := by simp [hr.issued]
  proper := hr.proper
  nonempty := hr.nonempty
  made k s hs := by
    obtain ⟨hkey, hpos, hmade⟩ := hr.made k s hs
    have hlt := (List.getElem?_eq_some_iff.1 hmade).1
    exact ⟨hkey, hpos, (List.getElem?_append_left hlt).trans hmade⟩
  increasing := hr.increasing
  unlike := hr.unlike

private theorem file (hr : r.Follows calls) {key : Key} {callback : Callback}
    (hnew : ∀ s ∈ r.row key, ¬ s.callback.isSame callback) :
    (r.register key callback).1.Follows (calls ++ [(key, callback)]) := by
  have hrow := row_of_register_new (r := r) hnew
  have hmem {k : Key} {s : Subscription} (hs : s ∈ (r.register key callback).1.row k) :
      s ∈ r.row k ∨ (k = key ∧ s = ⟨r.issued + 1, key, callback⟩) := mem_row_register hs
  -- in the row of the key the new subscription comes last
  have hpairwise {P : Subscription → Subscription → Prop} (hold : ∀ k, (r.row k).Pairwise P)
      (hlast : ∀ s ∈ r.row key, P s ⟨r.issued + 1, key, callback⟩) (k : Key) :
      ((r.register key callback).1.row k).Pairwise P := by
    rw [hrow]
    split
    · obtain rfl : k = key := ‹_›
      rw [List.pairwise_append]
      refine ⟨hold k, List.pairwise_singleton .., ?_⟩
      intro s hs s' hs'
      rw [List.mem_singleton.1 hs']
      exact hlast s hs
    · exact hold k
  refine ⟨?_, ?_, ?_, ?_, hpairwise hr.increasing ?_, hpairwise hr.unlike ?_⟩
  · rw [issued_register, hr.issued, List.length_append, List.length_singleton]
  · rw [register_of_new hnew]
    exact Table.proper_put hr.proper _ _
  · intro k
    rw [register_of_new hnew, Table.get?_put]
    split
    · simp
    · exact hr.nonempty k
  · intro k s hs
    rcases hmem hs with hs | ⟨rfl, rfl⟩
    · exact (hr.counted (key, callback)).made k s hs
    · exact ⟨rfl, Nat.le_add_left .., by simp [hr.issued]⟩
  · intro s hs
    have := hr.id_le hs
    rw [← hr.issued] at this
    exact Nat.lt_succ_of_le this
  · intro s hs
    exact Bool.not_eq_true _ ▸ hnew s hs

theorem register_cases (hr : r.Follows calls) (key : Key) (callback : Callback) :
    (∃ s ∈ r.row key, s.callback.isSame callback ∧
      r.register key callback = ({ r with issued := r.issued + 1 }, s.id)) ∨
    ∀ s ∈ r.row key, ¬ s.callback.isSame callback := by
  by_cases hsame : ∃ s ∈ r.row key, s.callback.isSame callback
  · obtain ⟨s, hs, hsame⟩ := hsame
    exact Or.inl ⟨s, hs, hsame, register_of_same (hr.unlike key) hs hsame⟩
  · exact Or.inr fun s hs hs' => hsame ⟨s, hs, hs'⟩

theorem register (hr : r.Follows calls) (key : Key) (callback : Callback) :
    (r.register key callback).1.Follows (calls ++ [(key, callback)]) := by
  rcases hr.register_cases key callback with ⟨s, -, -, hfound⟩ | hnew
  · rw [hfound]
    exact hr.counted (key, callback)
  · exact hr.file hnew

theorem registerAll (hr : r.Follows calls) (bindings : List (Key × Callback)) :
    (r.registerAll bindings).1.Follows (calls ++ bindings) := by
  induction bindings generalizing r calls with
  | nil =>
    rw [List.append_nil]
    exact hr
  | cons binding rest ih =>
    rw [List.append_cons]
    exact ih (hr.register binding.1 binding.2)

theorem request (hr : r.Follows calls) (q : Request) : (r.request q).Follows (calls ++ q.registrations) := by
  cases q with
  | register key callback => exact hr.register key callback
  | registerAll bindings => exact hr.registerAll bindings
  | unregister key id => exact (List.append_nil calls).symm ▸ hr.unregister key id
  | clear => exact (List.append_nil calls).symm ▸ hr.clear

theorem mem_keys_iff (hr : r.Follows calls) (k : Key) : k ∈ r.keys ↔ r.row k ≠ [] := by
  rw [keys, mem_keys_iff_lookup]
  show (∃ row, r.rows.get? k = some row) ↔ _
  have hnonempty := hr.nonempty k
  cases hrow : r.rows.get? k with
  | none => simp [row, hrow]
  | some row =>
    rw [hrow] at hnonempty
    simp only [Registry.row, hrow, Option.getD_some, Option.some.injEq, exists_eq', true_iff]
    exact fun hempty => hnonempty (congrArg some hempty)

theorem size_eq (hr : r.Follows calls) : r.size = (r.keys.map r.count).sum := by
  have hcount : r.rows.entries.map (fun e => e.2.length) = r.keys.map r.count := by
    rw [keys, List.map_map]
    apply List.map_congr_left
    intro e he
    have hrow := (Table.mem_entries_iff hr.proper e.1 e.2).1 he
    simp [Registry.count, row, hrow]
  rw [← hcount, size, Table.values, List.length_flatten, List.map_map]
  rfl

theorem size_congr (hr : r.Follows calls) {r' : Registry} {calls' : List (Key × Callback)} (hr' : r'.Follows calls')
    (hrow : ∀ k, r'.row k = r.row k) : r'.size = r.size := by
  have hkeys : r'.keys.Perm r.keys := by
    refine (List.perm_ext_iff_of_nodup hr'.proper hr.proper).2 ?_
    intro k
    show k ∈ r'.keys ↔ k ∈ r.keys
    rw [hr'.mem_keys_iff, hr.mem_keys_iff, hrow]
  have hcount : r'.count = r.count := by
    funext k
    rw [count, count, hrow]
  rw [hr.size_eq, hr'.size_eq, hcount]
  exact (hkeys.map r.count).sum_nat

end Follows

theorem follows_after (requests : List Request) : (after requests).Follows (registrations requests) := by
  induction requests using List.reverseRecOn with
  | nil => exact follows_empty
  | append_singleton requests q ih =>
    rw [after_append, registrations_append]
    simpa [registrations] using ih.request q

theorem mem_row_request {r : Registry} {q : Request} {k : Key} {s : Subscription} (hs : s ∈ (r.request q).row k) :
    s ∈ r.row k ∨ r.issued < s.id := by
  cases q with
  | register key callback =>
    have hs' : s ∈ (r.registerAll [(key, callback)]).1.row k := hs
    exact mem_row_registerAll hs'
  | registerAll bindings => exact mem_row_registerAll hs
  | unregister key id =>
    simp only [request, row_unregister] at hs
    split at hs
    · exact Or.inl (List.mem_of_mem_filter hs)
    · exact Or.inl hs
  | clear => cases hs

private theorem mem_row_of_later (requests later : List Request) {k : Key} {s : Subscription}
    (hs : s ∈ (after (requests ++ later)).row k) (hid : s.id ≤ (registrations requests).length) :
    s ∈ (after requests).row k := by
  induction later using List.reverseRecOn with
  | nil => simpa using hs
  | append_singleton later q ih =>
    rw [← List.append_assoc, after_append] at hs
    rcases mem_row_request hs with hs | hnew
    · exact ih hs
    · rw [(follows_after _).issued, registrations_append, List.length_append] at hnew
      omega

/-- Whatever a registry is asked for: no key has an empty row, and a subscription is filed under its own key. Ids are
numbers of registrations; they differ, they increase along each row, and no two callbacks of a row are the same. The
rows make up the size. An id stands for one subscription at all times, which is gone for good when it is removed. A
registration gives its own number, or the id of the same callback if that is there, and then it files nothing. A bulk
registration does so for one callback after the other. -/
theorem filed_by_number (requests : List Request) :
    (∀ k, (after requests).rows.get? k ≠ some []) ∧
    (∀ k, ∀ s ∈ (after requests).row k, s.key = k ∧ 1 ≤ s.id ∧ s.id ≤ (registrations requests).length) ∧
    (∀ k k', ∀ s ∈ (after requests).row k, ∀ s' ∈ (after requests).row k', s.id = s'.id → s = s') ∧
    (∀ k, ((after requests).row k).Pairwise fun s s' => s.id < s'.id ∧
      ¬ (s.callback.identity = s'.callback.identity ∧ s.callback.name = s'.callback.name)) ∧
    ((after requests).keys.Nodup ∧ (∀ k, k ∈ (after requests).keys ↔ (after requests).row k ≠ []) ∧
      (after requests).size = ((after requests).keys.map (after requests).count).sum) ∧
    (∀ later k k', ∀ s ∈ (after requests).row k, ∀ s' ∈ (after (requests ++ later)).row k', s.id = s'.id → s = s') ∧
    (∀ later k, ∀ s ∈ (after (requests ++ later)).row k, s.id ≤ (registrations requests).length →
      s ∈ (after requests).row k) ∧
    (∀ key callback,
      (∀ s ∈ (after requests).row key, s.callback.identity = callback.identity ∧ s.callback.name = callback.name →
        (after requests).register key callback =
          ({ after requests with issued := (registrations requests).length + 1 }, s.id)) ∧
      ((∀ s ∈ (after requests).row key,
          ¬ (s.callback.identity = callback.identity ∧ s.callback.name = callback.name)) →
        ((after requests).register key callback).2 = (registrations requests).length + 1 ∧
        ∀ k, ((after requests).register key callback).1.row k = if k = key
          then (after requests).row k ++ [⟨(registrations requests).length + 1, key, callback⟩]
          else (after requests).row k)) ∧
    ∀ bindings j, ((after requests).registerAll bindings).2[j]? = bindings[j]?.map fun e =>
      (e.1, ((after (requests ++ [.registerAll (bindings.take j)])).register e.1 e.2).2) := by
  have hr := follows_after requests
  simp only [← Callback.isSame_iff]
  refine ⟨hr.nonempty, ?_, ?_, ?_, ⟨hr.proper, hr.mem_keys_iff, hr.size_eq⟩, ?_, ?_, ?_, ?_⟩
  · intro k s hs
    obtain ⟨hkey, hpos, -⟩ := hr.made k s hs
    exact ⟨hkey, hpos, hr.id_le hs⟩
  · intro k k' s hs s' hs' hid
    have hself : (after requests).Follows (registrations requests ++ []) := by simpa using hr
    exact hr.eq_of_id hself hs hs' hid
  · intro k
    exact ((hr.increasing k).and (hr.unlike k)).imp fun h => ⟨h.1, by simp [h.2]⟩
  · intro later k k' s hs s' hs' hid
    have hr' := follows_after (requests ++ later)
    rw [registrations_append] at hr'
    exact hr.eq_of_id hr' hs hs' hid
  · intro later k s hs hid
    exact mem_row_of_later requests later hs hid
  · intro key callback
    rw [← hr.issued]
    refine ⟨?_, ?_⟩
    · intro s hs hsame
      exact register_of_same (hr.unlike key) hs hsame
    · intro hnew
      refine ⟨?_, row_of_register_new hnew⟩
      rw [register_of_new hnew]
  · intro bindings j
    rw [getElem?_registerAll, after_append]
    rfl

private def relistedKey : Key :=
  .named (.simple 0)

private def relisted : Callback :=
  ⟨1, "Listener@", "on_event", true, .whole, 1, fun _ _ => .reply none⟩

/-- The callback is registered twice and then removed. -/
private def relisting : List Request :=
  [.register relistedKey relisted, .register relistedKey relisted, .unregister relistedKey 1]

theorem relisted_gets_new_id :
    (∃ s ∈ (after (relisting.take 1)).row relistedKey, s.id = 1 ∧
      (s.callback.identity = relisted.identity ∧ s.callback.name = relisted.name) ∧
      ((after (relisting.take 1)).register relistedKey relisted).2 = s.id) ∧
    (after relisting).row relistedKey = [] ∧ ((after relisting).register relistedKey relisted).2 = 3 ∧
    ∀ s ∈ (after (relisting ++ [.register relistedKey relisted])).row relistedKey, s.id ≠ 1 := by
  have hnone : (after relisting).row relistedKey = [] := rfl
  obtain ⟨-, -, -, -, -, -, -, hregister, -⟩ := filed_by_number (relisting.take 1)
  obtain ⟨-, -, -, -, -, -, hgone, hagain, -⟩ := filed_by_number relisting
  refine ⟨⟨⟨1, relistedKey, relisted⟩, List.mem_singleton.2 rfl, rfl, ⟨rfl, rfl⟩, ?_⟩, hnone, ?_, ?_⟩
  · rw [(hregister relistedKey relisted).1 ⟨1, relistedKey, relisted⟩ (List.mem_singleton.2 rfl) ⟨rfl, rfl⟩]
  · refine ((hagain relistedKey relisted).2 ?_).1
    intro s hs
    rw [hnone] at hs
    cases hs
  · intro s hs hid
    have hold := hgone [.register relistedKey relisted] relistedKey s hs (by rw [hid]; decide)
    rw [hnone] at hold
    cases hold

end Registry
end PubSub
