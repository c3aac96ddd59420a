import Mathlib.Data.Set.Operations
import PubSub.Key

/-!
# Keys told by their texts

An argument stands in angle brackets after its wrapper. As long as no name holds such a bracket, the text of a key is
read from its end in one way only: a closing bracket shows that there is an argument, and the argument, a key again,
goes back to the opening bracket that belongs to it.
-/

namespace PubSub

/-- No bracket is written in a name, and no two names are written alike. -/
structure Name.Legible (write : Name → String) (known : Set Name) : Prop where
  unbracketed : ∀ n ∈ known, '<' ∉ (write n).toList ∧ '>' ∉ (write n).toList
  apart : Set.InjOn write known

namespace Key

variable {write : Name → String} {known : Set Name} {k k' : Key}

/-- All names in the key are known. -/
def IsOver (known : Set Name) : Key → Prop
  | named n => n ∈ known
  | applied r a => r.IsOver known ∧ a.IsOver known

theorem isOver_univ (k : Key) : k.IsOver Set.univ := by
  induction k with
  | named n => exact Set.mem_univ n
  | applied r a ihr iha => exact ⟨ihr, iha⟩

section Reading

/-- Nothing, or what an argument comes after. -/
private def Opens (front : List Char) : Prop :=
  ∀ c ∈ front.getLast?, c = '<'

private theorem opens_nil : Opens [] := by
  intro c hc
  cases hc

private theorem opens_bracket (front : List Char) : Opens (front ++ ['<']) := by
  intro c hc
  simpa using hc.symm

theorem append_applied (write : Name → String) (front : List Char) (r a : Key) :
    front ++ ((applied r a).textWith write).toList =
      front ++ (r.textWith write).toList ++ ['<'] ++ (a.textWith write).toList ++ ['>'] := by
  simp [textWith]

private theorem eq_nil_of_opens {name middle front : List Char} (hname : '<' ∉ middle ++ name)
    (hopens : Opens (front ++ middle)) : middle = [] := by
  by_contra hsome
  have hlast : middle.getLast hsome ∈ (front ++ middle).getLast? := by
    rw [List.getLast?_append, List.getLast?_eq_some_getLast hsome]
    rfl
  have hmem : middle.getLast hsome ∈ middle ++ name := List.mem_append_left _ (List.getLast_mem hsome)
  exact hname (hopens _ hlast ▸ hmem)

private theorem eq_of_names {name name' front front' : List Char} (hname : '<' ∉ name) (hname' : '<' ∉ name')
    (hopens : Opens front) (hopens' : Opens front') (h : front ++ name = front' ++ name') :
    name = name' ∧ front = front' := by
  rcases List.append_eq_append_iff.1 h with ⟨middle, rfl, rfl⟩ | ⟨middle, rfl, rfl⟩
  · obtain rfl := eq_nil_of_opens hname hopens'
    exact ⟨rfl, (List.append_nil front).symm⟩
  · obtain rfl := eq_nil_of_opens hname' hopens
    exact ⟨rfl, List.append_nil front'⟩

private theorem name_ne_applied {name front : List Char} (hname : '>' ∉ name) (hopens : Opens front)
    (text : List Char) : front ++ name ≠ text ++ ['>'] := by
  intro h
  have hlast : (front ++ name).getLast? = some '>' := by
    rw [h]
    exact List.getLast?_concat
  rw [List.getLast?_append, Option.or_eq_some_iff] at hlast
  rcases hlast with hlast | ⟨-, hlast⟩
  · exact hname (List.mem_of_mem_getLast? hlast)
  · exact absurd (hopens _ hlast) (by decide)

private theorem eq_of_append_eq (h : Name.Legible write known) (hk : k.IsOver known) (hk' : k'.IsOver known)
    {front front' : List Char} (hopens : Opens front) (hopens' : Opens front')
    (htext : front ++ (k.textWith write).toList = front' ++ (k'.textWith write).toList) :
    k = k' ∧ front = front' := by
  induction k generalizing k' front front' with
  | named n =>
    obtain ⟨hopening, hclosing⟩ := h.unbracketed n hk
    cases k' with
    | named n' =>
      obtain ⟨hwritten, hfront⟩ := eq_of_names hopening (h.unbracketed n' hk').1 hopens hopens' htext
      exact ⟨congrArg named (h.apart hk hk' (String.toList_inj.1 hwritten)), hfront⟩
    | applied r' a' =>
      rw [append_applied] at htext
      exact absurd htext (name_ne_applied hclosing hopens _)
  | applied r a ihr iha =>
    rw [append_applied] at htext
    cases k' with
    | named n' => exact absurd htext.symm (name_ne_applied (h.unbracketed n' hk').2 hopens' _)
    | applied r' a' =>
      rw [append_applied] at htext
      -- off with the closing bracket, the argument before it, the opening bracket, and the wrapper
      obtain ⟨rfl, hrest⟩ := iha hk.2 hk'.2 (opens_bracket _) (opens_bracket _) (List.append_cancel_right htext)
      obtain ⟨rfl, hfront⟩ := ihr hk.1 hk'.1 hopens hopens' (List.append_cancel_right hrest)
      exact ⟨rfl, hfront⟩

theorem textWith_inj (h : Name.Legible write known) (hk : k.IsOver known) (hk' : k'.IsOver known) :
    k.textWith write = k'.textWith write ↔ k = k' := by
  constructor
  · intro htext
    exact (eq_of_append_eq h hk hk' opens_nil opens_nil (congrArg String.toList htext)).1
  · rintro rfl
    rfl

end Reading

section Names

private theorem bracketless_index (i : Nat) : '<' ∉ (toString i).toList ∧ '>' ∉ (toString i).toList := by
  have hdigit : ∀ c ∈ Nat.toDigits 10 i, c.isDigit := by
    intro c hc
    exact Nat.isDigit_of_mem_toDigits (by decide) (by decide) hc
  rw [Nat.toString_eq_ofList_toDigits, String.toList_ofList]
  exact ⟨fun hc => absurd (hdigit _ hc) (by decide), fun hc => absurd (hdigit _ hc) (by decide)⟩

private theorem index_inj {i j : Nat} (h : (toString i).toList = (toString j).toList) : i = j := by
  simp only [Nat.toString_eq_ofList_toDigits, String.toList_ofList] at h
  rw [← Nat.ofDigitChars_ten_toDigits (n := i), h, Nat.ofDigitChars_ten_toDigits]

theorem legible_text : Name.Legible Name.text Set.univ := by
  constructor
  · intro n _
    cases n with
    | composite i | simple i | interface i | wrapper i => simpa [Name.text] using bracketless_index i
    | root | dead => decide
  · intro n _ n' _ h
    have hchars : n.text.toList = n'.text.toList := congrArg String.toList h
    cases n <;> cases n' <;> simp only [Name.text, String.toList_append] at hchars <;> first
      | rfl
      | exact congrArg _ (index_inj (List.cons.inj hchars).2)
      | exact absurd (List.cons.inj hchars).1 (by decide)

theorem text_inj : k.text = k'.text ↔ k = k' :=
  textWith_inj legible_text k.isOver_univ k'.isOver_univ

end Names

/-- Two keys are written alike just if they are the same, however deeply wrappers and arguments are nested in them, if
their names are told apart and hold no angle brackets; an empty name does no harm. So an argument with an argument of
its own is told from two arguments one after the other, and no wrapper with an argument looks like a name. -/
theorem text_tells_key (h : Name.Legible write known) :
    (∀ k k' : Key, k.IsOver known → k'.IsOver known → (k.textWith write = k'.textWith write ↔ k = k')) ∧
    (∀ r a b : Key, r.IsOver known → a.IsOver known → b.IsOver known →
      (applied r (applied a b)).textWith write ≠ (applied (applied r a) b).textWith write) ∧
    ∀ r a : Key, ∀ n ∈ known, (applied r a).textWith write ≠ (named n).textWith write := by
  refine ⟨fun k k' hk hk' => textWith_inj h hk hk', ?_, ?_⟩
  · intro r a b hr ha hb htext
    have hnested : (applied r (applied a b)).IsOver known := ⟨hr, ha, hb⟩
    have hrepeated : (applied (applied r a) b).IsOver known := ⟨⟨hr, ha⟩, hb⟩
    obtain ⟨hwrapper, -⟩ := applied.inj ((textWith_inj h hnested hrepeated).1 htext)
    -- no key is its own wrapper
    have hsize : sizeOf r = sizeOf (applied r a) := congrArg sizeOf hwrapper
    rw [applied.sizeOf_spec] at hsize
    omega
  · intro r a n hn htext
    have hchars : [] ++ (write n).toList = [] ++ ((applied r a).textWith write).toList := by
      rw [htext]
      rfl
    rw [append_applied] at hchars
    exact name_ne_applied (h.unbracketed n hn).2 opens_nil _ hchars

theorem nested_argument_is_told : Name.Legible Name.text Set.univ ∧
    (applied (named (.wrapper 0)) (applied (named (.composite 1)) (named (.composite 2)))).text = "R0<C1<C2>>" ∧
    (applied (applied (named (.wrapper 0)) (named (.composite 1))) (named (.composite 2))).text = "R0<C1><C2>" ∧
    (applied (named (.wrapper 0)) (applied (named (.composite 1)) (named (.composite 2)))).text ≠
      (applied (applied (named (.wrapper 0)) (named (.composite 1))) (named (.composite 2))).text :=
  ⟨legible_text, by decide, by decide,
    (text_tells_key legible_text).2.1 _ _ _ (isOver_univ _) (isOver_univ _) (isOver_univ _)⟩

end Key
end PubSub
