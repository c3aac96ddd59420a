import PubSub.Proofs.Registry.Churn
import PubSub.Proofs.Registry.Removal

/-!
# Bulk registrations

What becomes of the entries of a table that is registered as a whole. Each of them is there afterwards, under the id on
the receipt. Entries that differ by key, identity or name get different ids, and each is its own callback, unless the
same one, as far as the registry can tell, was there before.
-/

namespace PubSub.Registry

variable {r : Registry} {calls bindings : List (Key × Callback)}

theorem bound_of_mem_registerAll {k : Key} {u : Subscription} (hu : u ∈ (r.registerAll bindings).1.row k) :
    u ∈ r.row k ∨ (k, u.callback) ∈ bindings := by
  induction bindings generalizing r with
  | nil => exact Or.inl hu
  | cons binding rest ih =>
    obtain ⟨key, callback⟩ := binding
    rcases ih (r := (r.register key callback).1) hu with hu | hu
    · rcases mem_row_register hu with hu | ⟨rfl, rfl⟩
      · exact Or.inl hu
      · exact Or.inr (List.mem_cons_self ..)
    · exact Or.inr (List.mem_cons_of_mem _ hu)

theorem map_fst_registerAll (r : Registry) (bindings : List (Key × Callback)) :
    (r.registerAll bindings).2.map Prod.fst = bindings.map Prod.fst := by
  induction bindings generalizing r with
  | nil => rfl
  | cons binding rest ih => exact congrArg (binding.1 :: ·) (ih (r.register binding.1 binding.2).1)

theorem Follows.eq_of_same (hr : r.Follows calls) {k : Key} {u v : Subscription} (hu : u ∈ r.row k) (hv : v ∈ r.row k)
    (hsame : u.callback.isSame v.callback) : u = v := by
  have hself : r.Follows (calls ++ []) := by simpa using hr
  -- registering it once more finds both
  have hfound := register_of_same (hr.unlike k) hu hsame
  rw [register_of_same (hr.unlike k) hv ((Callback.isSame_iff ..).2 ⟨rfl, rfl⟩)] at hfound
  exact hr.eq_of_id hself hu hv (congrArg Prod.snd hfound).symm

/-- The registry cannot tell these entries apart. -/
def Alike (e e' : Key × Callback) : Prop :=
  e.1 = e'.1 ∧ e.2.isSame e'.2

/-- An entry is there afterwards, and it is its own callback unless one that is the same was there before. -/
theorem entry_of_registerAll (hr : r.Follows calls) (hunlike : bindings.Pairwise fun e e' => ¬ Alike e e') {j : Nat}
    {k : Key} {c : Callback} (hj : bindings[j]? = some (k, c)) :
    ∃ u ∈ (r.registerAll bindings).1.row k, (r.registerAll bindings).2[j]? = some (k, u.id) ∧ u.callback.isSame c ∧
      (u ∈ r.row k ∨ u.callback = c) := by
  induction bindings generalizing r calls j with
  | nil => cases hj
  | cons binding rest ih =>
    obtain ⟨key, callback⟩ := binding
    obtain ⟨hfirst, hrest⟩ := List.pairwise_cons.1 hunlike
    have hr' := hr.register key callback
    rw [registerAll_cons]
    cases j with
    | zero =>
      cases hj
      have hlater {u : Subscription} (hu : u ∈ (r.register k c).1.row k) :
          u ∈ ((r.register k c).1.registerAll rest).1.row k := mem_row_registerAll_of_mem hu
      rcases hr.register_cases k c with ⟨u, hu, hsame, hfound⟩ | hnew
      · refine ⟨u, hlater ?_, ?_, hsame, Or.inl hu⟩
        · rw [hfound]
          exact hu
        · rw [hfound]
          rfl
      · refine ⟨⟨r.issued + 1, k, c⟩, hlater ?_, ?_, ?_, Or.inr rfl⟩
        · rw [row_of_register_new hnew, if_pos rfl]
          exact List.mem_append_right _ (List.mem_singleton.2 rfl)
        · rw [register_of_new hnew]
          rfl
        · simp [Callback.isSame]
    | succ j =>
      obtain ⟨u, hu, hid, hsame, horigin⟩ := ih hr' hrest hj
      refine ⟨u, hu, hid, hsame, horigin.imp_left fun hrow => ?_⟩
      -- it is not the first entry, which is not alike
      rcases mem_row_register hrow with hrow | ⟨rfl, rfl⟩
      · exact hrow
      · exact absurd ⟨rfl, hsame⟩ (hfirst _ (List.mem_of_getElem? hj))

theorem nodup_registerAll (hr : r.Follows calls) (hunlike : bindings.Pairwise fun e e' => ¬ Alike e e') :
    ((r.registerAll bindings).2.map Prod.snd).Nodup := by
  have hlength : ((r.registerAll bindings).2.map Prod.snd).length = bindings.length := by
    have hkeys := congrArg List.length (map_fst_registerAll r bindings)
    simpa only [List.length_map] using hkeys
  have hr' : (r.registerAll bindings).1.Follows (calls ++ bindings) := hr.registerAll bindings
  have hself : (r.registerAll bindings).1.Follows (calls ++ bindings ++ []) := by simpa using hr'
  rw [List.nodup_iff_getElem?_ne_getElem?]
  intro i j hij hj hsame
  rw [hlength] at hj
  obtain ⟨u, hu, hid, hsameu, -⟩ := entry_of_registerAll hr hunlike (List.getElem?_eq_getElem (Nat.lt_trans hij hj))
  obtain ⟨v, hv, hid', hsamev, -⟩ := entry_of_registerAll hr hunlike (List.getElem?_eq_getElem hj)
  rw [List.getElem?_map, List.getElem?_map, hid, hid'] at hsame
  obtain rfl := hr'.eq_of_id hself hu hv (Option.some.inj hsame)
  refine List.pairwise_iff_getElem.1 hunlike i j (Nat.lt_trans hij hj) hj hij ⟨?_, ?_⟩
  · exact (hr'.made _ u hu).1.symm.trans (hr'.made _ u hv).1
  · rw [Callback.isSame_iff] at hsameu hsamev ⊢
    exact ⟨hsameu.1.symm.trans hsamev.1, hsameu.2.symm.trans hsamev.2⟩

end PubSub.Registry
