import Mathlib.Data.List.Induction
import Mathlib.Data.List.TakeWhile
import PubSub.Text.Word

/-!
# What variables say

Which texts are words and which are numbers is said here without an order of reading. Words are compared in any case
of ASCII letters. That is all there is to it, though there are other characters whose lower-case forms are letters of
ASCII: none of those stands in a word that is in use.
-/

namespace PubSub.Text

/-- The text is this, with blanks around it but none at its own ends. -/
structure Trims (text core : List Char) : Prop where
  around : ∃ front back, text = front ++ core ++ back ∧ (∀ c ∈ front, isBlank c) ∧ ∀ c ∈ back, isBlank c
  first : ∀ c ∈ core.head?, ¬ isBlank c
  last : ∀ c ∈ core.getLast?, ¬ isBlank c

/-- Decimal digits that denote the number; leading zeros are fine. -/
inductive Numeral : List Char → Nat → Prop
  | digit {c : Char} (hc : c.isDigit) : Numeral [c] (c.toNat - '0'.toNat)
  | append {cs : List Char} {n : Nat} {c : Char} (h : Numeral cs n) (hc : c.isDigit) :
    Numeral (cs ++ [c]) (10 * n + (c.toNat - '0'.toNat))

/-- A numeral, or one after a plus sign. -/
inductive Denotes : List Char → Nat → Prop
  | plain {cs : List Char} {n : Nat} (h : Numeral cs n) : Denotes cs n
  | signed {cs : List Char} {n : Nat} (h : Numeral cs n) : Denotes ('+' :: cs) n

/-- The word in any case of its ASCII letters. -/
def Spells (core : List Char) (word : String) : Prop :=
  core.map Char.toLower = word.toList

section Blanks

variable {text core : List Char}

private theorem dropWhile_of_head {cs : List Char} (h : ∀ c ∈ cs.head?, ¬ isBlank c) : cs.dropWhile isBlank = cs := by
  cases cs with
  | nil => rfl
  | cons c cs => exact List.dropWhile_cons_of_neg (h c rfl)

private theorem not_isBlank_of_head {cs : List Char} : ∀ c ∈ (cs.dropWhile isBlank).head?, ¬ isBlank c := by
  intro c hc
  have hhead := List.head?_dropWhile_not isBlank cs
  rw [hc] at hhead
  simp [hhead]

theorem trims_trim (text : List Char) : Trims text (trim text) := by
  have hfront : text = text.takeWhile isBlank ++ text.dropWhile isBlank := List.takeWhile_append_dropWhile.symm
  have hback : text.dropWhile isBlank = trim text ++ ((text.dropWhile isBlank).reverse.takeWhile isBlank).reverse := by
    rw [trim, ← List.reverse_append, List.takeWhile_append_dropWhile, List.reverse_reverse]
  refine ⟨⟨_, _, by rw [List.append_assoc, ← hback, ← hfront], ?_, ?_⟩, ?_, ?_⟩
  · exact fun c hc => List.mem_takeWhile_imp hc
  · exact fun c hc => List.mem_takeWhile_imp (List.mem_reverse.1 hc)
  · intro c hc
    have hhead : c ∈ (text.dropWhile isBlank).head? := by
      rw [hback, List.head?_append, Option.mem_def.1 hc]
      rfl
    exact not_isBlank_of_head c hhead
  · intro c hc
    rw [trim, List.getLast?_reverse] at hc
    exact not_isBlank_of_head c hc

theorem trims_iff : Trims text core ↔ trim text = core := by
  constructor
  · rintro ⟨⟨front, back, rfl, hfront, hback⟩, hfirst, hlast⟩
    cases core with
    | nil =>
      have hnone : (front ++ [] ++ back).dropWhile isBlank = [] := by
        rw [List.dropWhile_eq_nil_iff]
        simpa [or_imp, forall_and] using ⟨hfront, hback⟩
      rw [trim, hnone]
      rfl
    | cons c core =>
      have hcore : (c :: core ++ back).dropWhile isBlank = c :: core ++ back := dropWhile_of_head hfirst
      have hcore' : (c :: core).reverse.dropWhile isBlank = (c :: core).reverse :=
        dropWhile_of_head (by rwa [List.head?_reverse])
      rw [trim, List.append_assoc, List.dropWhile_append_of_pos hfront, hcore, List.reverse_append,
        List.dropWhile_append_of_pos (by simpa using hback), hcore', List.reverse_reverse]
  · rintro rfl
    exact trims_trim text

end Blanks

section Numbers

variable {cs : List Char} {n : Nat}

private theorem digitsValue_append (cs : List Char) (c : Char) :
    digitsValue (cs ++ [c]) = 10 * digitsValue cs + (c.toNat - '0'.toNat) := by
  simp [digitsValue]

theorem Numeral.ne_nil (h : Numeral cs n) : cs ≠ [] := by
  cases h <;> simp

theorem Numeral.isDigit (h : Numeral cs n) : ∀ c ∈ cs, c.isDigit := by
  induction h with
  | digit hc => simpa using hc
  | append _ hc ih => simpa [or_imp, forall_and] using ⟨ih, hc⟩

theorem numeral_iff : Numeral cs n ↔ digits? cs = some n := by
  have hdigits : digits? cs = some n ↔ cs ≠ [] ∧ (∀ c ∈ cs, c.isDigit) ∧ digitsValue cs = n := by
    simp [digits?, and_assoc]
  rw [hdigits]
  clear hdigits
  constructor
  · intro h
    refine ⟨h.ne_nil, h.isDigit, ?_⟩
    induction h with
    | digit hc => simp [digitsValue]
    | append h hc ih => rw [digitsValue_append, ih]
  · rintro ⟨hsome, hall, rfl⟩
    induction cs using List.reverseRecOn with
    | nil => exact absurd rfl hsome
    | append_singleton cs c ih =>
      have hc : c.isDigit := hall c (by simp)
      by_cases hcs : cs = []
      · subst hcs
        simpa [digitsValue] using Numeral.digit hc
      · rw [digitsValue_append]
        exact .append (ih hcs fun c' hc' => hall c' (List.mem_append_left _ hc')) hc

theorem Numeral.not_signed (h : Numeral ('+' :: cs) n) : False := by
  rw [numeral_iff] at h
  simp [digits?] at h

theorem numeral_toDigits (n : Nat) : Numeral (Nat.toDigits 10 n) n := by
  have hall : ∀ c ∈ Nat.toDigits 10 n, c.isDigit := fun c hc => Nat.isDigit_of_mem_toDigits (by decide) (by decide) hc
  have hvalue : digitsValue (Nat.toDigits 10 n) = n := Nat.ofDigitChars_ten_toDigits
  rw [numeral_iff, digits?, if_pos ⟨Nat.toDigits_ne_nil, List.all_eq_true.2 hall⟩, hvalue]

theorem denotes_iff : Denotes cs n ↔ digits? (match cs with | '+' :: cs => cs | cs => cs) = some n := by
  constructor
  · intro h
    cases h with
    | plain h =>
      split
      · exact h.not_signed.elim
      · exact numeral_iff.1 h
    | signed h => exact numeral_iff.1 h
  · intro h
    split at h
    · exact .signed (numeral_iff.2 h)
    · exact .plain (numeral_iff.2 h)

theorem natural?_eq_some_iff {text : String} {v : UInt64} :
    natural? text = some v ↔ ∃ core, Trims text.toList core ∧ Denotes core v.toNat := by
  have hbound (n : Nat) : (if n < UInt64.size then some (UInt64.ofNat n) else none) = some v ↔ n = v.toNat := by
    have hv := v.toNat_lt
    by_cases hn : n < UInt64.size
    · rw [if_pos hn, Option.some.injEq, ← UInt64.toNat_inj, UInt64.toNat_ofNat_of_lt' hn]
    · rw [if_neg hn]
      exact iff_of_false (Option.some_ne_none v).symm fun h => hn (h ▸ hv)
  simp only [trims_iff, exists_eq_left', natural?, denotes_iff, Option.bind_eq_bind, Option.bind_eq_some_iff, hbound]
  constructor
  · rintro ⟨n, hn, hv⟩
    exact hv ▸ hn
  · exact fun h => ⟨_, h, rfl⟩

theorem natural?_toString (v : UInt64) : natural? (toString v.toNat) = some v := by
  have hnumeral := numeral_toDigits v.toNat
  have hblank : ∀ c ∈ Nat.toDigits 10 v.toNat, ¬ isBlank c := by
    intro c hc
    obtain ⟨hge, hle⟩ := Char.isDigit_iff_toNat.1 (hnumeral.isDigit c hc)
    have h0 : '0'.toNat = 48 := rfl
    have h9 : '9'.toNat = 57 := rfl
    simp only [isBlank, Bool.or_eq_true, Bool.and_eq_true, decide_eq_true_eq]
    omega
  have htext : (toString v.toNat).toList = Nat.toDigits 10 v.toNat := by
    rw [Nat.toString_eq_ofList_toDigits, String.toList_ofList]
  refine natural?_eq_some_iff.2 ⟨_, ⟨⟨[], [], ?_, by simp, by simp⟩, ?_, ?_⟩, .plain hnumeral⟩
  · rw [htext]
    simp
  · exact fun c hc => hblank c (List.mem_of_mem_head? hc)
  · exact fun c hc => hblank c (List.mem_of_mem_getLast? hc)

end Numbers

section Letters

theorem isWord_iff {word text : String} : isWord word text ↔ ∃ core, Trims text.toList core ∧ Spells core word := by
  simp [isWord, trims_iff, Spells]

theorem isWord_unique {word word' text : String} (h : isWord word text) (h' : isWord word' text) : word = word' := by
  simp only [isWord, decide_eq_true_eq] at h h'
  exact String.toList_inj.1 (h.symm.trans h')

/-- Lower-casing by all the rules, some of which depend on what stands around a character. Beyond ASCII there is one
character whose lower-case form is a letter of ASCII; all others keep something that is not ASCII. -/
structure Lowering where
  lower : List Char → Char → List Char → List Char
  ascii : ∀ before c after, c.toNat < 128 → lower before c after = [c.toLower]
  kelvin : ∀ before after, lower before '\u212A' after = ['k']
  beyond : ∀ before c after, 128 ≤ c.toNat → c ≠ '\u212A' → ∃ d ∈ lower before c after, 128 ≤ d.toNat

theorem toLower_of_isDigit {c : Char} (h : c.isDigit) : c.toLower = c := by
  have ha : ¬ (c.val ≥ 'A'.val ∧ c.val ≤ 'Z'.val) := by
    rintro ⟨hge, -⟩
    have hge' : 'A'.toNat ≤ c.toNat := UInt32.le_iff_toNat_le.1 hge
    have hdigit := (Char.isDigit_iff_toNat.1 h).2
    have hA : 'A'.toNat = 65 := rfl
    have h9 : '9'.toNat = 57 := rfl
    omega
  exact dif_neg ha

theorem Denotes.not_spells {core : List Char} {n : Nat} {word : String} (h : Denotes core n)
    (hword : ∀ w ∈ word.toList.head?, ¬ w.isDigit ∧ w ≠ '+') : ¬ Spells core word := by
  have hfirst : ∃ c ∈ core.head?, c.isDigit ∨ c = '+' := by
    cases h with
    | plain h =>
      obtain ⟨c, cs, rfl⟩ := List.exists_cons_of_ne_nil h.ne_nil
      exact ⟨c, rfl, Or.inl (h.isDigit c (List.mem_cons_self ..))⟩
    | signed h => exact ⟨'+', rfl, Or.inr rfl⟩
  intro hs
  obtain ⟨c, hc, hsign⟩ := hfirst
  have hkept : c.toLower = c := by
    rcases hsign with hdigit | rfl
    · exact toLower_of_isDigit hdigit
    · rfl
  obtain ⟨hnot, hplus⟩ := hword c (by rw [← hs, List.head?_map, Option.mem_def.1 hc, Option.map_some, hkept]; rfl)
  rcases hsign with hdigit | hsign
  · exact hnot hdigit
  · exact hplus hsign

theorem toLower_of_le {c : Char} (h : 128 ≤ c.toNat) : c.toLower = c := by
  have hz : ¬ (c.val ≥ 'A'.val ∧ c.val ≤ 'Z'.val) := by
    rintro ⟨-, hle⟩
    have hle' : c.toNat ≤ 'Z'.toNat := UInt32.le_iff_toNat_le.1 hle
    have hz : 'Z'.toNat = 90 := rfl
    omega
  exact dif_neg hz

namespace Lowering

/-- The rules applied to one character of a text after the other, and to what comes before it. -/
def lowered (l : Lowering) (before : List Char) : List Char → List Char
  | [] => []
  | c :: cs => l.lower before c cs ++ lowered l (before ++ [c]) cs

instance : Inhabited Lowering where
  default := {
    lower _ c _ := if c = '\u212A' then ['k'] else [c.toLower]
    ascii := by
      intro before c after hc
      have hne : c ≠ '\u212A' := by
        rintro rfl
        exact absurd hc (by decide)
      rw [if_neg hne]
    kelvin := by simp
    beyond := by
      intro before c after hc hne
      rw [if_neg hne, toLower_of_le hc]
      exact ⟨c, List.mem_singleton.2 rfl, hc⟩ }

/-- A word of ASCII letters without that one is met just in the ASCII cases. -/
theorem lowered_eq_iff (l : Lowering) {word : List Char} (hword : ∀ w ∈ word, w.toNat < 128 ∧ w ≠ 'k')
    (before cs : List Char) : l.lowered before cs = word ↔ cs.map Char.toLower = word := by
  induction cs generalizing before word with
  | nil => simp [lowered]
  | cons c cs ih =>
    rw [lowered, List.map_cons]
    by_cases hascii : c.toNat < 128
    · rw [l.ascii _ _ _ hascii]
      cases word with
      | nil => simp
      | cons w word => simp [ih fun w hw => hword w (List.mem_cons_of_mem _ hw)]
    · have hbeyond : 128 ≤ c.toNat := Nat.le_of_not_lt hascii
      refine iff_of_false ?_ ?_
      · rintro rfl
        by_cases hkelvin : c = '\u212A'
        · rw [hkelvin, l.kelvin] at hword
          exact (hword 'k' (by simp)).2 rfl
        · obtain ⟨d, hd, hd'⟩ := l.beyond before c cs hbeyond hkelvin
          have := (hword d (List.mem_append_left _ hd)).1
          omega
      · rintro rfl
        have := (hword c.toLower (List.mem_cons_self ..)).1
        rw [toLower_of_le hbeyond] at this
        omega

end Lowering

end Letters

end PubSub.Text
