import Mathlib.Tactic.SplitIfs
import PubSub.Json.Number
import PubSub.Proofs.Text.Words

/-!
# JSON numbers

What a number is made of. A number is passed over as a whole, and it is read as a natural number if it is the decimal
form of one of 64 bits. A number that is read is never read as another natural number than this.
-/

namespace PubSub.Json

section Grammar

/-- Decimal digits without zeros in front. -/
structure IsInteger (ds : List Char) : Prop where
  nonempty : ds ≠ []
  digits : ∀ c ∈ ds, c.isDigit
  leading : ∀ cs, ds = '0' :: cs → cs = []

structure IsDigits (ds : List Char) : Prop where
  nonempty : ds ≠ []
  digits : ∀ c ∈ ds, c.isDigit

inductive IsFraction : List Char → Prop
  | none : IsFraction []
  | some {ds : List Char} (h : IsDigits ds) : IsFraction ('.' :: ds)

inductive IsExponent : List Char → Prop
  | none : IsExponent []
  | some {mark : Char} {sign ds : List Char} (hmark : mark = 'e' ∨ mark = 'E') (hsign : sign ∈ [[], ['+'], ['-']])
    (h : IsDigits ds) : IsExponent (mark :: (sign ++ ds))

inductive IsUnsigned : List Char → Prop
  | mk {int frac exp : List Char} (hint : IsInteger int) (hfrac : IsFraction frac) (hexp : IsExponent exp) :
    IsUnsigned (int ++ (frac ++ exp))

/-- The decimal form of a natural number of 64 bits. -/
structure IsNatural (text : List Char) (n : UInt64) : Prop where
  integer : IsInteger text
  value : Text.Numeral text n.toNat

end Grammar

/-- No digit comes next, and nothing else that would go on with a number. -/
def EndsNumber (rest : List Char) : Prop :=
  ∀ c ∈ rest.head?, c.isDigit = false ∧ c ≠ '.' ∧ c ≠ 'e' ∧ c ≠ 'E'

section Runs

variable {ds rest : List Char}

theorem EndsNumber.noDigit (h : EndsNumber rest) : ∀ c ∈ rest.head?, c.isDigit = false :=
  fun c hc => (h c hc).1

theorem digitRun_append (hdigits : ∀ c ∈ ds, c.isDigit) (hrest : ∀ c ∈ rest.head?, c.isDigit = false) :
    digitRun (ds ++ rest) = (ds.map fun c => c.toNat - '0'.toNat, rest) := by
  rw [digitRun, List.takeWhile_append_of_pos hdigits, List.dropWhile_append_of_pos hdigits]
  cases rest with
  | nil => simp
  | cons c rest =>
    have hc : c.isDigit = false := hrest c rfl
    simp [hc]

theorem IsDigits.run (h : IsDigits ds) (hrest : ∀ c ∈ rest.head?, c.isDigit = false) :
    ∃ n ns, digitRun (ds ++ rest) = (n :: ns, rest) := by
  obtain ⟨c, cs, rfl⟩ := List.exists_cons_of_ne_nil h.nonempty
  exact ⟨_, _, digitRun_append h.digits hrest⟩

private theorem eq_zero_of_digit {c : Char} (h : c.isDigit) (hzero : c.toNat - '0'.toNat = 0) : c = '0' := by
  have hge := (Char.isDigit_iff_toNat.1 h).1
  exact Char.toNat_inj.1 (by omega)

theorem IsInteger.run (h : IsInteger ds) (hrest : ∀ c ∈ rest.head?, c.isDigit = false) :
    ∃ n ns, digitRun (ds ++ rest) = (n :: ns, rest) ∧ n :: ns = ds.map (fun c => c.toNat - '0'.toNat) ∧
      (n = 0 → ns = []) := by
  obtain ⟨c, cs, rfl⟩ := List.exists_cons_of_ne_nil h.nonempty
  refine ⟨_, _, digitRun_append h.digits hrest, rfl, ?_⟩
  intro hzero
  obtain rfl := eq_zero_of_digit (h.digits c (List.mem_cons_self ..)) hzero
  rw [h.leading cs rfl, List.map_nil]

end Runs

section Skipping

variable {int frac exp rest : List Char}

theorem IsExponent.noDigit (h : IsExponent exp) (hrest : EndsNumber rest) :
    ∀ c ∈ (exp ++ rest).head?, c.isDigit = false ∧ c ≠ '.' := by
  cases h with
  | none => exact fun c hc => ⟨(hrest c hc).1, (hrest c hc).2.1⟩
  | some hmark =>
    intro c hc
    obtain rfl := Option.some.inj hc
    rcases hmark with rfl | rfl <;> decide

theorem IsFraction.noDigit (h : IsFraction frac) (hexp : IsExponent exp) (hrest : EndsNumber rest) :
    ∀ c ∈ (frac ++ (exp ++ rest)).head?, c.isDigit = false := by
  cases h with
  | none => exact fun c hc => (hexp.noDigit hrest c hc).1
  | some =>
    intro c hc
    obtain rfl := Option.some.inj hc
    decide

theorem skipDigits_append {ds : List Char} (h : IsDigits ds) (hrest : ∀ c ∈ rest.head?, c.isDigit = false) :
    skipDigits (ds ++ rest) = .ok rest := by
  obtain ⟨n, ns, hrun⟩ := h.run hrest
  simp only [skipDigits, hrun]

private theorem skipExponent_unsigned {mark c : Char} (hmark : mark = 'e' ∨ mark = 'E') (hc : c.isDigit) (r : List Char) :
    skipExponent (mark :: c :: r) = skipDigits (c :: r) := by
  have hplus (q : List Char) (h : c :: r = '+' :: q) : False := by
    obtain ⟨rfl, -⟩ := List.cons.inj h
    cases hc
  have hminus (q : List Char) (h : c :: r = '-' :: q) : False := by
    obtain ⟨rfl, -⟩ := List.cons.inj h
    cases hc
  rcases hmark with rfl | rfl
  all_goals
    rw [skipExponent]
    · exact hplus
    · exact hminus

theorem skipExponent_append (h : IsExponent exp) (hrest : EndsNumber rest) : skipExponent (exp ++ rest) = .ok rest := by
  cases h with
  | none =>
    rw [List.nil_append, skipExponent]
    · rintro r rfl
      exact (hrest 'e' rfl).2.2.1 rfl
    · rintro r rfl
      exact (hrest 'E' rfl).2.2.2 rfl
  | @some mark sign ds hmark hsign hdigits =>
    have hskip := skipDigits_append hdigits hrest.noDigit
    simp only [List.mem_cons, List.not_mem_nil, or_false] at hsign
    rcases hsign with rfl | hsign
    · obtain ⟨c, cs, rfl⟩ := List.exists_cons_of_ne_nil hdigits.nonempty
      exact (skipExponent_unsigned hmark (hdigits.digits c (List.mem_cons_self ..)) _).trans hskip
    · rcases hmark with rfl | rfl <;> rcases hsign with rfl | rfl <;> exact hskip

section Runs

variable {s r : List Char} {n : Nat} {ns : List Nat} (hleading : n = 0 → ns = [])
include hleading

private theorem skipNumber_of_point (hrun : digitRun s = (n :: ns, '.' :: r)) :
    skipNumber s = skipDigits r >>= skipExponent := by
  cases n with
  | zero =>
    obtain rfl := hleading rfl
    simp only [skipNumber, hrun]
  | succ => simp only [skipNumber, hrun]

private theorem skipNumber_of_plain (hrun : digitRun s = (n :: ns, rest)) (hplain : ∀ c ∈ rest.head?, c ≠ '.') :
    skipNumber s = skipExponent rest := by
  have hpoint (q : List Char) (h : rest = '.' :: q) : False :=
    hplain '.' (h ▸ rfl) rfl
  cases n with
  | zero =>
    obtain rfl := hleading rfl
    simp only [skipNumber, hrun]
  | succ => simp only [skipNumber, hrun]

end Runs

theorem skipNumber_append {text : List Char} (h : IsUnsigned text) (hrest : EndsNumber rest) :
    skipNumber (text ++ rest) = .ok rest := by
  obtain ⟨hint, hfrac, hexp⟩ := h
  obtain ⟨n, ns, hrun, -, hleading⟩ := hint.run (hfrac.noDigit hexp hrest)
  have hexponent := skipExponent_append hexp hrest
  have hhead := hexp.noDigit hrest
  rw [List.append_assoc, List.append_assoc]
  cases hfrac with
  | none => exact (skipNumber_of_plain hleading hrun fun c hc => (hhead c hc).2).trans hexponent
  | some hdigits =>
    rw [skipNumber_of_point hleading hrun]
    have hskip := skipDigits_append hdigits fun c hc => (hhead c hc).1
    show (skipDigits (_ ++ _) >>= skipExponent) = _
    rw [hskip]
    exact hexponent

end Skipping

section Reading

variable {rest r : List Char} {k : UInt64}

private theorem absorb_cases (significand : Nat) (ds : List Nat) (h : significand < UInt64.size) :
    absorb significand ds = (ds.foldl (fun n d => 10 * n + d) significand, 0) ∧
        ds.foldl (fun n d => 10 * n + d) significand < UInt64.size ∨
      (absorb significand ds).2 ≠ 0 ∧ UInt64.size ≤ ds.foldl (fun n d => 10 * n + d) significand := by
  have hle (n : Nat) (ds : List Nat) : n ≤ ds.foldl (fun n d => 10 * n + d) n := by
    induction ds generalizing n with
    | nil => exact Nat.le_refl n
    | cons d ds ih =>
      have := ih (10 * n + d)
      rw [List.foldl_cons]
      omega
  induction ds generalizing significand with
  | nil => exact Or.inl ⟨rfl, h⟩
  | cons d ds ih =>
    rw [List.foldl_cons, absorb]
    split
    · exact ih _ ‹_›
    · exact Or.inr ⟨Nat.succ_ne_zero _, Nat.le_trans (Nat.le_of_not_lt ‹_›) (hle _ ds)⟩

private theorem bounded_ne (significand : Nat) (exponent : Int) :
    bounded significand exponent rest ≠ .ok (.natural k, r) := by
  rw [bounded]
  split <;> simp

private theorem readExponent_ne (significand : Nat) (exponent : Int) (s : List Char) :
    readExponent significand exponent s ≠ .ok (.natural k, r) := by
  simp only [readExponent]
  split
  · simp
  · simp
  · split_ifs
    · apply bounded_ne
    · apply bounded_ne
    · simp
    · simp

private theorem readFraction_ne (significand left : Nat) (s : List Char) :
    readFraction significand left s ≠ .ok (.natural k, r) := by
  simp only [readFraction]
  split
  · simp
  · simp
  · split
    · apply readExponent_ne
    · apply readExponent_ne
    · apply bounded_ne

section Runs

variable {negative : Bool} {s : List Char} {n : Nat} {ns : List Nat} (hleading : n = 0 → ns = [])
include hleading

private theorem readNumber_of_plain (hrun : digitRun s = (n :: ns, rest)) (hplain : EndsNumber rest) :
    readNumber negative s = if (absorb 0 (n :: ns)).2 ≠ 0
      then bounded (absorb 0 (n :: ns)).1 (absorb 0 (n :: ns)).2 rest
      else .ok (if negative then .other else .natural (UInt64.ofNat (absorb 0 (n :: ns)).1), rest) := by
  have hpoint (q : List Char) (h : rest = '.' :: q) : False :=
    (hplain '.' (h ▸ rfl)).2.1 rfl
  have hlower (q : List Char) (h : rest = 'e' :: q) : False :=
    (hplain 'e' (h ▸ rfl)).2.2.1 rfl
  have hupper (q : List Char) (h : rest = 'E' :: q) : False :=
    (hplain 'E' (h ▸ rfl)).2.2.2 rfl
  cases n with
  | zero =>
    obtain rfl := hleading rfl
    simp only [readNumber, hrun]
  | succ => simp only [readNumber, hrun]

private theorem readNumber_of_mark {c : Char} {q : List Char} (hrun : digitRun s = (n :: ns, c :: q))
    (hmark : c = '.' ∨ c = 'e' ∨ c = 'E') : readNumber negative s ≠ .ok (.natural k, r) := by
  have heq : readNumber negative s = readFraction (absorb 0 (n :: ns)).1 (absorb 0 (n :: ns)).2 q ∨
      readNumber negative s = readExponent (absorb 0 (n :: ns)).1 (absorb 0 (n :: ns)).2 q := by
    cases n with
    | zero =>
      obtain rfl := hleading rfl
      rcases hmark with rfl | rfl | rfl <;> simp only [readNumber, hrun, true_or, or_true]
    | succ => rcases hmark with rfl | rfl | rfl <;> simp only [readNumber, hrun, true_or, or_true]
  rcases heq with heq | heq
  · rw [heq]
    apply readFraction_ne
  · rw [heq]
    apply readExponent_ne

end Runs

private theorem IsInteger.isNatural_iff {int : List Char} (h : IsInteger int) :
    IsNatural int k ↔ (int.map fun c => c.toNat - '0'.toNat).foldl (fun n d => 10 * n + d) 0 = k.toNat := by
  have hvalue : Text.Numeral int k.toNat ↔
      (int.map fun c => c.toNat - '0'.toNat).foldl (fun n d => 10 * n + d) 0 = k.toNat := by
    rw [Text.numeral_iff, Text.digits?, if_pos ⟨h.nonempty, List.all_eq_true.2 h.digits⟩, Option.some.injEq,
      List.foldl_map]
    rfl
  exact ⟨fun hk => hvalue.1 hk.value, fun hk => ⟨h, hvalue.2 hk⟩⟩

private theorem IsInteger.noMark {ds ds' : List Char} {c : Char} (h : IsInteger (ds ++ c :: ds'))
    (hmark : c = '.' ∨ c = 'e' ∨ c = 'E') : False := by
  have hc : c.isDigit := h.digits c (by simp)
  rcases hmark with rfl | rfl | rfl <;> cases hc

private theorem readNumber_integer {int : List Char} (h : IsInteger int) (hrest : EndsNumber rest) (negative : Bool) :
    readNumber negative (int ++ rest) = .ok (.natural k, r) ↔ negative = false ∧ IsNatural int k ∧ r = rest := by
  obtain ⟨n, ns, hrun, hvalue, hleading⟩ := h.run hrest.noDigit
  rw [readNumber_of_plain hleading hrun hrest, h.isNatural_iff]
  rw [← hvalue]
  rcases absorb_cases 0 (n :: ns) (by decide) with ⟨hfits, hlt⟩ | ⟨hleft, hge⟩
  · rw [hfits, if_neg (by simp)]
    generalize (n :: ns).foldl (fun n d => 10 * n + d) 0 = value at hlt ⊢
    have hk : UInt64.ofNat value = k ↔ value = k.toNat := by
      rw [← UInt64.toNat_inj, UInt64.toNat_ofNat_of_lt' hlt]
    cases negative with
    | true => simp
    | false => simp [hk, eq_comm (a := rest)]
  · rw [if_pos hleft]
    refine iff_of_false (by apply bounded_ne) fun hk => ?_
    exact absurd k.toNat_lt (Nat.not_lt.2 (hk.2.1 ▸ hge))

theorem readNumber_eq_natural_iff {text : List Char} (h : IsUnsigned text) (hrest : EndsNumber rest) (negative : Bool) :
    readNumber negative (text ++ rest) = .ok (.natural k, r) ↔ negative = false ∧ IsNatural text k ∧ r = rest := by
  obtain ⟨hint, hfrac, hexp⟩ := h
  obtain ⟨n, ns, hrun, -, hleading⟩ := hint.run (hfrac.noDigit hexp hrest)
  cases hfrac with
  | some =>
    have hmark : '.' = '.' ∨ '.' = 'e' ∨ '.' = 'E' := Or.inl rfl
    rw [List.append_assoc, List.append_assoc]
    exact iff_of_false (readNumber_of_mark hleading hrun hmark) fun h => h.2.1.integer.noMark hmark
  | none =>
    cases hexp with
    | some hmark =>
      rw [List.append_assoc]
      exact iff_of_false (readNumber_of_mark hleading hrun (Or.inr hmark)) fun h => h.2.1.integer.noMark (Or.inr hmark)
    | none =>
      rw [List.append_nil, List.append_nil]
      exact readNumber_integer hint hrest negative

end Reading

section Writing

/-- Only zero begins with the digit zero. -/
theorem head?_toDigits_ne_zero {n : Nat} (h : 0 < n) : (Nat.toDigits 10 n).head? ≠ some '0' := by
  induction n using Nat.strongRecOn with
  | _ n ih =>
    by_cases hsmall : n < 10
    · rw [Nat.toDigits_of_lt_base hsmall, List.head?_cons, Ne, Option.some.injEq, Nat.digitChar_eq_zero]
      omega
    · have hrest : Nat.toDigits 10 n = Nat.toDigits 10 (n / 10) ++ [(n % 10).digitChar] :=
        Nat.toDigits_of_base_le (by decide) (Nat.le_of_not_lt hsmall)
      rw [hrest, List.head?_append, Option.or_of_isSome (by simp [Nat.toDigits_ne_nil])]
      exact ih (n / 10) (by omega) (by omega)

theorem isNatural_toDigits (n : UInt64) : IsNatural (Nat.toDigits 10 n.toNat) n := by
  refine ⟨⟨Nat.toDigits_ne_nil, ?_, ?_⟩, Text.numeral_toDigits n.toNat⟩
  · intro c hc
    exact Nat.isDigit_of_mem_toDigits (by decide) (by decide) hc
  · intro cs hcs
    rcases Nat.eq_zero_or_pos n.toNat with hzero | hpos
    · rw [hzero, Nat.toDigits_zero] at hcs
      exact (List.cons.inj hcs).2.symm
    · exact absurd (congrArg List.head? hcs) (head?_toDigits_ne_zero hpos)

end Writing
end PubSub.Json
