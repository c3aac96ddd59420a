import PubSub.Json.Skip
import PubSub.Proofs.Exceptions
import PubSub.Proofs.Json.Number
import PubSub.Proofs.Json.Text

/-!
# JSON values

The values of JSON as texts, of any nesting and with blanks wherever they may stand. A value that nobody asked for is
passed over as a whole, whatever it is.
-/

namespace PubSub.Json

def IsBlanks (s : List Char) : Prop :=
  ∀ c ∈ s, isBlank c

instance (s : List Char) : Decidable (IsBlanks s) :=
  List.decidableBAll (fun c => isBlank c) s

theorem isBlanks_nil : IsBlanks [] :=
  fun _ hc => absurd hc List.not_mem_nil

theorem skipBlank_append {ws : List Char} (h : IsBlanks ws) (s : List Char) : skipBlank (ws ++ s) = skipBlank s :=
  List.dropWhile_append_of_pos h

theorem skipBlank_cons {c : Char} (h : isBlank c = false) (r : List Char) : skipBlank (c :: r) = c :: r := by
  simp [skipBlank, h]

theorem skipBlank_skipBlank (s : List Char) : skipBlank (skipBlank s) = skipBlank s := by
  induction s with
  | nil => rfl
  | cons c s ih =>
    cases h : isBlank c with
    | true => simpa [skipBlank, h] using ih
    | false => rw [skipBlank_cons h, skipBlank_cons h]

/-- A value, or what stands between the brackets of an array or the braces of an object that is not empty. -/
inductive Part where
  | value
  | elements
  | members

inductive IsPart : Part → List Char → Prop
  | null : IsPart .value ['n', 'u', 'l', 'l']
  | truth : IsPart .value ['t', 'r', 'u', 'e']
  | falsity : IsPart .value ['f', 'a', 'l', 's', 'e']
  | number {text : List Char} (h : IsUnsigned text) : IsPart .value text
  | negative {text : List Char} (h : IsUnsigned text) : IsPart .value ('-' :: text)
  | text {t : List Char} (h : IsQuoted t) : IsPart .value ('"' :: (t ++ ['"']))
  | emptyArray {ws : List Char} (hws : IsBlanks ws) : IsPart .value ('[' :: (ws ++ [']']))
  | array {es : List Char} (h : IsPart .elements es) : IsPart .value ('[' :: (es ++ [']']))
  | emptyObject {ws : List Char} (hws : IsBlanks ws) : IsPart .value ('\x7b' :: (ws ++ ['\x7d']))
  | object {ms : List Char} (h : IsPart .members ms) : IsPart .value ('\x7b' :: (ms ++ ['\x7d']))
  | element {ws v ws' : List Char} (hws : IsBlanks ws) (h : IsPart .value v) (hws' : IsBlanks ws') :
    IsPart .elements (ws ++ (v ++ ws'))
  | elements {ws v ws' es : List Char} (hws : IsBlanks ws) (h : IsPart .value v) (hws' : IsBlanks ws')
    (hes : IsPart .elements es) : IsPart .elements (ws ++ (v ++ (ws' ++ ',' :: es)))
  | member {ws t ws₁ ws₂ v ws₃ : List Char} (hws : IsBlanks ws) (ht : IsQuoted t) (hws₁ : IsBlanks ws₁)
    (hws₂ : IsBlanks ws₂) (h : IsPart .value v) (hws₃ : IsBlanks ws₃) :
    IsPart .members (ws ++ '"' :: (t ++ '"' :: (ws₁ ++ ':' :: (ws₂ ++ (v ++ ws₃)))))
  | members {ws t ws₁ ws₂ v ws₃ ms : List Char} (hws : IsBlanks ws) (ht : IsQuoted t) (hws₁ : IsBlanks ws₁)
    (hws₂ : IsBlanks ws₂) (h : IsPart .value v) (hws₃ : IsBlanks ws₃) (hms : IsPart .members ms) :
    IsPart .members (ws ++ '"' :: (t ++ '"' :: (ws₁ ++ ':' :: (ws₂ ++ (v ++ (ws₃ ++ ',' :: ms))))))

/-- A member with this name, in any spelling, and this value, with blanks around them. -/
inductive IsMember (name v : List Char) : List Char → Prop
  | mk {ws t ws₁ ws₂ ws₃ : List Char} (hws : IsBlanks ws) (ht : Spells t name) (hws₁ : IsBlanks ws₁)
    (hws₂ : IsBlanks ws₂) (hws₃ : IsBlanks ws₃) :
    IsMember name v (ws ++ '"' :: (t ++ '"' :: (ws₁ ++ ':' :: (ws₂ ++ (v ++ ws₃)))))

theorem isMember_escape (name v : List Char) : IsMember name v ('"' :: (name.flatMap escape ++ '"' :: ':' :: v)) := by
  simpa using IsMember.mk (v := v) isBlanks_nil (spells_escape name) isBlanks_nil isBlanks_nil isBlanks_nil

/-- The text is one value, without blanks around it. -/
abbrev IsValue : List Char → Prop :=
  IsPart .value

/-- What comes next is none of the value before. -/
def EndsValue (rest : List Char) : Prop :=
  ∀ c ∈ rest.head?, isBlank c ∨ c = ',' ∨ c = ']' ∨ c = '\x7d'

section Heads

variable {rest : List Char}

theorem isBlank_of_digit {c : Char} (h : c.isDigit) : isBlank c = false := by
  rw [← Bool.not_eq_true, isBlank]
  simp only [Bool.or_eq_true, decide_eq_true_eq]
  rintro (((rfl | rfl) | rfl) | rfl) <;> cases h

theorem EndsValue.endsNumber (h : EndsValue rest) : EndsNumber rest := by
  intro c hc
  have hends := h c hc
  simp only [isBlank, Bool.or_eq_true, decide_eq_true_eq] at hends
  rcases hends with (((rfl | rfl) | rfl) | rfl) | rfl | rfl | rfl <;> decide

theorem EndsValue.append {ws : List Char} (hws : IsBlanks ws) (h : EndsValue rest) : EndsValue (ws ++ rest) := by
  cases ws with
  | nil => exact h
  | cons c ws =>
    intro c' hc'
    obtain rfl := Option.some.inj hc'
    exact Or.inl (hws c (List.mem_cons_self ..))

theorem endsValue_cons {c : Char} (h : c = ',' ∨ c = ']' ∨ c = '\x7d') (rest : List Char) : EndsValue (c :: rest) := by
  intro c' hc'
  obtain rfl := Option.some.inj hc'
  exact Or.inr h

theorem IsUnsigned.head {text : List Char} (h : IsUnsigned text) : ∃ c r, text = c :: r ∧ c.isDigit := by
  obtain ⟨hint, -, -⟩ := h
  obtain ⟨c, cs, rfl⟩ := List.exists_cons_of_ne_nil hint.nonempty
  exact ⟨c, _, rfl, hint.digits c (List.mem_cons_self ..)⟩

theorem IsValue.head {v : List Char} (h : IsValue v) :
    ∃ c r, v = c :: r ∧ isBlank c = false ∧ c ≠ ']' ∧ c ≠ '\x7d' := by
  cases h with
  | number h =>
    obtain ⟨c, r, rfl, hdigit⟩ := h.head
    refine ⟨c, r, rfl, isBlank_of_digit hdigit, ?_, ?_⟩ <;> rintro rfl <;> cases hdigit
  | _ => exact ⟨_, _, rfl, by decide, by decide, by decide⟩

theorem IsValue.length_pos {v : List Char} (h : IsValue v) : 0 < v.length := by
  obtain ⟨c, r, rfl, -⟩ := h.head
  exact Nat.succ_pos _

theorem IsPart.head {p : Part} {s : List Char} (h : IsPart p s) (rest : List Char) :
    ∃ c r, skipBlank (s ++ rest) = c :: r ∧ c ≠ ']' ∧ c ≠ '\x7d' := by
  have hvalue {v : List Char} (h : IsValue v) (rest : List Char) :
      ∃ c r, skipBlank (v ++ rest) = c :: r ∧ c ≠ ']' ∧ c ≠ '\x7d' := by
    obtain ⟨c, r, rfl, hblank, hc⟩ := h.head
    exact ⟨c, r ++ rest, skipBlank_cons hblank _, hc⟩
  have hquote (r : List Char) : ∃ c r', skipBlank ('"' :: r) = c :: r' ∧ c ≠ ']' ∧ c ≠ '\x7d' :=
    ⟨'"', r, skipBlank_cons (by decide) r, by decide, by decide⟩
  cases p with
  | value => exact hvalue h rest
  | elements =>
    cases h with
    | element hws h | elements hws h =>
      rw [List.append_assoc, skipBlank_append hws, List.append_assoc]
      exact hvalue h _
  | members =>
    cases h with
    | member hws | members hws =>
      rw [List.append_assoc, skipBlank_append hws]
      exact hquote _

end Heads

section Skipping

variable {rest : List Char} {rounds : Nat}

theorem skipWithin_skipBlank (rounds : Nat) (s : List Char) : skipWithin rounds (skipBlank s) = skipWithin rounds s := by
  cases rounds with
  | zero => rfl
  | succ => simp only [skipWithin, skipBlank_skipBlank]

theorem skipWithin_append {ws : List Char} (h : IsBlanks ws) (s : List Char) :
    skipWithin rounds (ws ++ s) = skipWithin rounds s := by
  rw [← skipWithin_skipBlank, skipBlank_append h, skipWithin_skipBlank]

theorem skipElements_skipBlank (rounds : Nat) (s : List Char) :
    skipElements rounds (skipBlank s) = skipElements rounds s := by
  cases rounds with
  | zero => rfl
  | succ => simp only [skipElements, skipWithin_skipBlank]

theorem skipMembers_skipBlank (rounds : Nat) (s : List Char) :
    skipMembers rounds (skipBlank s) = skipMembers rounds s := by
  cases rounds with
  | zero => rfl
  | succ => simp only [skipMembers, skipBlank_skipBlank]

private theorem skipWithin_digit {c : Char} (h : c.isDigit) (r : List Char) :
    skipWithin (rounds + 1) (c :: r) = skipNumber (c :: r) := by
  simp only [skipWithin, skipBlank_cons (isBlank_of_digit h)]
  split
  · rename_i hnil
    cases hnil
  all_goals
    rename_i hcons
    obtain ⟨rfl, rfl⟩ := List.cons.inj hcons
    first
      | cases h
      | exact if_pos h

private theorem skipWithin_array {s r : List Char} {c : Char} (hhead : skipBlank s = c :: r) (hc : c ≠ ']') :
    skipWithin (rounds + 1) ('[' :: s) = skipElements rounds s := by
  rw [← skipElements_skipBlank]
  simp only [skipWithin, skipBlank_cons (c := '[') (by decide), hhead]
  split
  · exact absurd (List.cons.inj ‹_›).1 hc
  · rfl

private theorem skipWithin_object {s r : List Char} {c : Char} (hhead : skipBlank s = c :: r) (hc : c ≠ '\x7d') :
    skipWithin (rounds + 1) ('\x7b' :: s) = skipMembers rounds s := by
  rw [← skipMembers_skipBlank]
  simp only [skipWithin, skipBlank_cons (c := '\x7b') (by decide), hhead]
  split
  · exact absurd (List.cons.inj ‹_›).1 hc
  · rfl

/-- Enough rounds pass over a part, up to where it ends. -/
def Skips : Part → List Char → Prop
  | .value, v => ∀ rounds rest, 2 * v.length ≤ rounds + 1 → EndsValue rest → skipWithin rounds (v ++ rest) = .ok rest
  | .elements, es => ∀ rounds rest, 2 * es.length ≤ rounds → skipElements rounds (es ++ ']' :: rest) = .ok rest
  | .members, ms => ∀ rounds rest, 2 * ms.length ≤ rounds → skipMembers rounds (ms ++ '\x7d' :: rest) = .ok rest

theorem skips_value {v : List Char} (h : ∀ rounds rest, 2 * v.length ≤ rounds + 2 → EndsValue rest →
    skipWithin (rounds + 1) (v ++ rest) = .ok rest) (hsome : v ≠ []) : Skips .value v := by
  intro rounds rest hrounds hrest
  have := List.length_pos_iff.2 hsome
  obtain ⟨rounds, rfl⟩ : ∃ n, rounds = n + 1 := ⟨rounds - 1, by omega⟩
  exact h rounds rest hrounds hrest

private theorem exists_round {v : List Char} (h : IsValue v) (rounds : Nat) (hle : 2 * v.length ≤ rounds) :
    ∃ n, rounds = n + 1 ∧ 2 * v.length ≤ n + 1 := by
  have hpos := h.length_pos
  exact ⟨rounds - 1, by omega, by omega⟩

section Rounds

variable {ws t ws₁ ws₂ v ws₃ next : List Char} (hws : IsBlanks ws) (h : Skips .value v) (hws₃ : IsBlanks ws₃)
  (hfits : 2 * v.length ≤ rounds + 1) (hnext : EndsValue next)
include hws h hws₃ hfits hnext

private theorem skipElements_round : skipElements (rounds + 1) (ws ++ (v ++ (ws₃ ++ next))) = match skipBlank next with
    | ',' :: r => skipElements rounds r
    | ']' :: r => .ok r
    | [] => .error .truncated
    | _ => .error .malformed := by
  have hskip : skipWithin rounds (ws ++ (v ++ (ws₃ ++ next))) = .ok (ws₃ ++ next) := by
    rw [skipWithin_append hws]
    exact h rounds _ hfits (hnext.append hws₃)
  rw [← skipBlank_append hws₃]
  simp only [skipElements, hskip]
  rfl

private theorem skipMembers_round (ht : IsQuoted t) (hws₁ : IsBlanks ws₁) (hws₂ : IsBlanks ws₂) :
    skipMembers (rounds + 1) (ws ++ '"' :: (t ++ '"' :: (ws₁ ++ ':' :: (ws₂ ++ (v ++ (ws₃ ++ next)))))) =
      match skipBlank next with
      | ',' :: r => skipMembers rounds r
      | '\x7d' :: r => .ok r
      | [] => .error .truncated
      | _ => .error .malformed := by
  have hskip : skipWithin rounds (ws₂ ++ (v ++ (ws₃ ++ next))) = .ok (ws₃ ++ next) := by
    rw [skipWithin_append hws₂]
    exact h rounds _ hfits (hnext.append hws₃)
  obtain ⟨name, hname⟩ := skipText_append ht (ws₁ ++ ':' :: (ws₂ ++ (v ++ (ws₃ ++ next))))
  change _ = pure _ at hname
  rw [← skipBlank_append hws₃ next]
  simp only [skipMembers, skipBlank_append hws, skipBlank_cons (c := '"') (by decide), hname, pure_bind,
    skipBlank_append hws₁, skipBlank_cons (c := ':') (by decide), hskip]
  rfl

end Rounds

theorem IsPart.skips {p : Part} {s : List Char} (h : IsPart p s) : Skips p s := by
  induction h with
  | null | truth | falsity => exact skips_value (fun _ _ _ _ => rfl) (by simp)
  | number h =>
    obtain ⟨c, r, rfl, hdigit⟩ := h.head
    refine skips_value (fun rounds rest _ hrest => ?_) (by simp)
    rw [List.cons_append, skipWithin_digit hdigit]
    exact skipNumber_append h hrest.endsNumber
  | negative h => exact skips_value (fun _ _ _ hrest => skipNumber_append h hrest.endsNumber) (by simp)
  | text h =>
    refine skips_value (fun rounds rest _ _ => ?_) (by simp)
    obtain ⟨t, ht⟩ := skipText_append h rest
    rw [List.cons_append, List.append_assoc]
    show Prod.snd <$> readText false .plain (_ ++ '"' :: rest) = _
    rw [ht]
    rfl
  | emptyArray hws =>
    refine skips_value (fun rounds rest _ _ => ?_) (by simp)
    rw [List.cons_append, List.append_assoc]
    simp only [skipWithin, skipBlank_cons (c := '[') (by decide), skipBlank_append hws]
    rfl
  | array h ih =>
    refine skips_value (fun rounds rest hrounds _ => ?_) (by simp)
    obtain ⟨c, r, hhead, hc, -⟩ := h.head (']' :: rest)
    rw [List.cons_append, List.append_assoc]
    refine (skipWithin_array hhead hc).trans (ih rounds rest ?_)
    simp only [List.length_cons, List.length_append, List.length_nil] at hrounds
    omega
  | emptyObject hws =>
    refine skips_value (fun rounds rest _ _ => ?_) (by simp)
    rw [List.cons_append, List.append_assoc]
    simp only [skipWithin, skipBlank_cons (c := '\x7b') (by decide), skipBlank_append hws]
    rfl
  | object h ih =>
    refine skips_value (fun rounds rest hrounds _ => ?_) (by simp)
    obtain ⟨c, r, hhead, -, hc⟩ := h.head ('\x7d' :: rest)
    rw [List.cons_append, List.append_assoc]
    refine (skipWithin_object hhead hc).trans (ih rounds rest ?_)
    simp only [List.length_cons, List.length_append, List.length_nil] at hrounds
    omega
  | element hws h hws' ih =>
    intro rounds rest hrounds
    simp only [List.length_append] at hrounds
    obtain ⟨rounds, rfl, hfits⟩ := exists_round h rounds (by omega)
    rw [List.append_assoc, List.append_assoc,
      skipElements_round hws ih hws' hfits (endsValue_cons (Or.inr (Or.inl rfl)) rest)]
    rfl
  | elements hws h hws' _ ih ihes =>
    intro rounds rest hrounds
    simp only [List.length_append, List.length_cons] at hrounds
    obtain ⟨rounds, rfl, hfits⟩ := exists_round h rounds (by omega)
    simp only [List.append_assoc, List.cons_append]
    rw [skipElements_round hws ih hws' hfits (endsValue_cons (Or.inl rfl) _)]
    exact ihes rounds rest (by omega)
  | member hws ht hws₁ hws₂ h hws₃ ih =>
    intro rounds rest hrounds
    simp only [List.length_append, List.length_cons] at hrounds
    obtain ⟨rounds, rfl, hfits⟩ := exists_round h rounds (by omega)
    simp only [List.append_assoc, List.cons_append]
    rw [skipMembers_round hws ih hws₃ hfits (endsValue_cons (Or.inr (Or.inr rfl)) rest) ht hws₁ hws₂]
    rfl
  | members hws ht hws₁ hws₂ h hws₃ _ ih ihms =>
    intro rounds rest hrounds
    simp only [List.length_append, List.length_cons] at hrounds
    obtain ⟨rounds, rfl, hfits⟩ := exists_round h rounds (by omega)
    simp only [List.append_assoc, List.cons_append]
    rw [skipMembers_round hws ih hws₃ hfits (endsValue_cons (Or.inl rfl) _) ht hws₁ hws₂]
    exact ihms rounds rest (by omega)

end Skipping

/-- A value is passed over, whatever it is. -/
theorem skipValue_append {ws v rest : List Char} (hws : IsBlanks ws) (h : IsValue v) (hrest : EndsValue rest) :
    skipValue (ws ++ (v ++ rest)) = .ok rest := by
  rw [skipValue, skipWithin_append hws]
  refine h.skips _ rest ?_ hrest
  simp only [List.length_append]
  omega

end PubSub.Json
