/-!
# Allocators

Where new subscriptions are put in memory. Addresses that are in use are not given again, but those of what is gone may
be.
-/

namespace PubSub

/-- The first number from `candidate` on that is not in use, if there are at most `fuel` numbers in use. -/
def firstFree : Nat → Nat → List Nat → Nat
  | 0, candidate, _ => candidate
  | fuel + 1, candidate, used =>
    if candidate ∈ used then firstFree fuel (candidate + 1) (used.filter (· ≠ candidate)) else candidate

private theorem le_firstFree (fuel candidate : Nat) (used : List Nat) : candidate ≤ firstFree fuel candidate used := by
  induction fuel generalizing candidate used with
  | zero => exact Nat.le_refl _
  | succ fuel ih =>
    simp only [firstFree]
    split
    · exact Nat.le_of_succ_le (ih ..)
    · exact Nat.le_refl _

theorem firstFree_notMem {fuel : Nat} {used : List Nat} (h : used.length ≤ fuel) (candidate : Nat) :
    firstFree fuel candidate used ∉ used := by
  induction fuel generalizing candidate used with
  | zero =>
    obtain rfl := List.eq_nil_of_length_eq_zero (Nat.le_zero.1 h)
    exact List.not_mem_nil
  | succ fuel ih =>
    simp only [firstFree]
    split
    · rename_i hused
      intro hmem
      have hfewer : (used.filter (· ≠ candidate)).length < used.length :=
        List.length_filter_lt_length_iff_exists.2 ⟨candidate, hused, by simp⟩
      have hlater := le_firstFree fuel (candidate + 1) (used.filter (· ≠ candidate))
      have hne : firstFree fuel (candidate + 1) (used.filter (· ≠ candidate)) ≠ candidate := by omega
      exact ih (by omega) (candidate + 1) (List.mem_filter.2 ⟨hmem, decide_eq_true hne⟩)
    · assumption

structure Allocator where
  /-- An address for something new, while the given ones are in use. -/
  choose : List Nat → Nat
  fresh : ∀ used, choose used ∉ used

/-- Gives the lowest address that is free. -/
def Allocator.lowest : Allocator where
  choose used := firstFree used.length 1 used
  fresh _ := firstFree_notMem (Nat.le_refl _) 1

end PubSub
