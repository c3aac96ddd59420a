import PubSub.Json.Text

/-!
# JSON strings

What may stand between the quotes of a string, and which text it spells. A string is read as the text that it spells, and
passed over even if it spells none. A string that was written is read back as it was, whatever characters it holds.
-/

namespace PubSub.Json

section Grammar

/-- Hexadecimal digits of a code of sixteen bits. -/
inductive HexCode : List Char → Nat → Prop
  | mk {a b c d : Char} {p q r s : Nat} (ha : hexValue? a = some p) (hb : hexValue? b = some q)
    (hc : hexValue? c = some r) (hd : hexValue? d = some s) :
    HexCode [a, b, c, d] (16 * (16 * (16 * p + q) + r) + s)

/-- What stands between quotes. Halves of pairs may stand alone. -/
inductive IsQuoted : List Char → Prop
  | nil : IsQuoted []
  | plain {c : Char} {t : List Char} (hquote : c ≠ '"') (hbackslash : c ≠ '\\') (hcontrol : ¬ c.toNat < 0x20)
    (h : IsQuoted t) : IsQuoted (c :: t)
  | escaped {c d : Char} {t : List Char} (hd : simpleEscape? d = some c) (h : IsQuoted t) : IsQuoted ('\\' :: d :: t)
  | code {ds t : List Char} {n : Nat} (hds : HexCode ds n) (h : IsQuoted t) : IsQuoted ('\\' :: 'u' :: (ds ++ t))

/-- What stands between quotes, and the text that it means. -/
inductive Spells : List Char → List Char → Prop
  | nil : Spells [] []
  | plain {c : Char} {t s : List Char} (hquote : c ≠ '"') (hbackslash : c ≠ '\\') (hcontrol : ¬ c.toNat < 0x20)
    (h : Spells t s) : Spells (c :: t) (c :: s)
  | escaped {c d : Char} {t s : List Char} (hd : simpleEscape? d = some c) (h : Spells t s) :
    Spells ('\\' :: d :: t) (c :: s)
  | code {ds t s : List Char} {n : Nat} (hds : HexCode ds n) (hlow : isLowHalf n = false) (hhigh : isHighHalf n = false)
    (h : Spells t s) : Spells ('\\' :: 'u' :: (ds ++ t)) (Char.ofNat n :: s)
  | pair {ds ds' t s : List Char} {n n' : Nat} (hds : HexCode ds n) (hhigh : isHighHalf n) (hds' : HexCode ds' n')
    (hlow : isLowHalf n') (h : Spells t s) :
    Spells ('\\' :: 'u' :: (ds ++ '\\' :: 'u' :: (ds' ++ t))) (joinHalves n n' :: s)

theorem Spells.isQuoted {t s : List Char} (h : Spells t s) : IsQuoted t := by
  induction h with
  | nil => exact .nil
  | plain hquote hbackslash hcontrol _ ih => exact .plain hquote hbackslash hcontrol ih
  | escaped hd _ ih => exact .escaped hd ih
  | code hds _ _ _ ih => exact .code hds ih
  | pair hds _ hds' _ _ ih => exact .code hds (.code hds' ih)

end Grammar

section Reading

variable {t s r x : List Char} {strict : Bool} {n : Nat}

theorem readText_of_plain {c : Char} (hquote : c ≠ '"') (hbackslash : c ≠ '\\') (hcontrol : ¬ c.toNat < 0x20) :
    readText strict .plain (c :: r) = andThen c (readText strict .plain r) := by
  simp only [readText_plain, hquote, hbackslash, hcontrol, if_false]

theorem readText_of_escape {c d : Char} (hd : simpleEscape? d = some c) :
    readText strict .plain ('\\' :: d :: r) = andThen c (readText strict .plain r) := by
  have hu : d ≠ 'u' := by
    rintro rfl
    cases hd
  simp [readText_plain, readText_escaped, hd, hu]

theorem not_low_of_high (h : isHighHalf n) : isLowHalf n = false := by
  simp only [isHighHalf, Bool.and_eq_true, decide_eq_true_eq] at h
  simp only [isLowHalf, Bool.and_eq_false_iff, decide_eq_false_iff_not]
  omega

theorem skipText_append (h : IsQuoted t) (r : List Char) : ∃ s, readText false .plain (t ++ '"' :: r) = .ok (s, r) := by
  induction h with
  | nil => exact ⟨[], rfl⟩
  | plain hquote hbackslash hcontrol _ ih =>
    obtain ⟨s, hs⟩ := ih
    rw [List.cons_append, readText_of_plain hquote hbackslash hcontrol, hs]
    exact ⟨_, rfl⟩
  | escaped hd _ ih =>
    obtain ⟨s, hs⟩ := ih
    rw [List.cons_append, List.cons_append, readText_of_escape hd, hs]
    exact ⟨_, rfl⟩
  | code hds _ ih =>
    obtain ⟨s, hs⟩ := ih
    obtain ⟨ha, hb, hc, hd⟩ := hds
    refine ⟨s, ?_⟩
    simp [readText_plain, readText_escaped, readText_hex, ha, hb, hc, hd, hs]

theorem readText_append (h : Spells t s) (r : List Char) : readText true .plain (t ++ '"' :: r) = .ok (s, r) := by
  induction h with
  | nil => rfl
  | plain hquote hbackslash hcontrol _ ih =>
    rw [List.cons_append, readText_of_plain hquote hbackslash hcontrol, ih]
    rfl
  | escaped hd _ ih =>
    rw [List.cons_append, List.cons_append, readText_of_escape hd, ih]
    rfl
  | code hds hlow hhigh _ ih =>
    obtain ⟨ha, hb, hc, hd⟩ := hds
    simp [readText_plain, readText_escaped, readText_hex, ha, hb, hc, hd, hlow, hhigh, ih, andThen, Except.map]
  | pair hds hhigh hds' hlow' _ ih =>
    obtain ⟨ha, hb, hc, hd⟩ := hds
    obtain ⟨ha', hb', hc', hd'⟩ := hds'
    simp [readText_plain, readText_escaped, readText_hex, readText_backslash, readText_letter, ha, hb, hc, hd,
      not_low_of_high hhigh, hhigh, ha', hb', hc', hd', hlow', ih, andThen, Except.map]

private theorem ok_of_andThen {c : Char} {e : Except Flaw (List Char × List Char)} (h : andThen c e = .ok (s, r)) :
    ∃ s', e = .ok (s', r) ∧ s = c :: s' := by
  cases e with
  | error => cases h
  | ok p =>
    obtain ⟨rfl, rfl⟩ := Prod.mk.inj (Except.ok.inj h)
    exact ⟨p.1, rfl, rfl⟩

private theorem readText_digit {high : Option Nat} {k v : Nat} (hk : k < 3) {p : List Char × List Char}
    (h : readText strict (.hex high k v) x = .ok p) : ∃ c d y, x = c :: y ∧ hexValue? c = some d ∧
      readText strict (.hex high (k + 1) (16 * v + d)) y = .ok p := by
  cases x with
  | nil => cases h
  | cons c y =>
    cases hd : hexValue? c with
    | none => simp [readText_hex, hd] at h
    | some d =>
      simp only [readText_hex, hd, if_pos hk] at h
      exact ⟨c, d, y, rfl, hd, h⟩

private theorem readText_code {high : Option Nat} : readText true (.hex high 0 0) x = .ok (s, r) →
    ∃ ds n y, HexCode ds n ∧ x = ds ++ y ∧ match high with
      | some k => isLowHalf n ∧ andThen (joinHalves k n) (readText true .plain y) = .ok (s, r)
      | none => isLowHalf n = false ∧ if isHighHalf n then readText true (.backslash n) y = .ok (s, r)
        else andThen (Char.ofNat n) (readText true .plain y) = .ok (s, r) := by
  intro h
  obtain ⟨a, p, _, rfl, ha, h⟩ := readText_digit (by decide) h
  obtain ⟨b, q, _, rfl, hb, h⟩ := readText_digit (by decide) h
  obtain ⟨c, u, x, rfl, hc, h⟩ := readText_digit (by decide) h
  cases x with
  | nil => cases h
  | cons d y =>
    cases hd : hexValue? d with
    | none => simp [readText_hex, hd] at h
    | some v =>
      refine ⟨[a, b, c, d], _, y, .mk ha hb hc hd, rfl, ?_⟩
      simp only [readText_hex, hd, Nat.mul_zero, Nat.zero_add, Nat.reduceAdd, Nat.lt_irrefl, if_false, Bool.not_true,
        Bool.false_eq_true] at h
      generalize 16 * (16 * (16 * p + q) + u) + v = n at h ⊢
      cases high with
      | some k =>
        dsimp only at h
        split at h
        · exact ⟨‹_›, h⟩
        · cases h
      | none =>
        dsimp only at h
        split at h
        · cases h
        · refine ⟨by simpa using ‹¬ isLowHalf n = true›, ?_⟩
          split at h
          · rwa [if_pos ‹_›]
          · rwa [if_neg ‹_›]

private theorem readText_secondHalf {p : List Char × List Char} (h : readText true (.backslash n) x = .ok p) :
    ∃ y, x = '\\' :: 'u' :: y ∧ readText true (.hex (some n) 0 0) y = .ok p := by
  cases x with
  | nil => cases h
  | cons c x =>
    simp only [readText_backslash] at h
    split at h
    · cases x with
      | nil => cases h
      | cons d y =>
        simp only [readText_letter] at h
        split at h
        · subst_vars
          exact ⟨y, rfl, h⟩
        · cases h
    · cases h

theorem spells_of_readText (h : readText true .plain x = .ok (s, r)) : ∃ t, Spells t s ∧ x = t ++ '"' :: r := by
  induction hlength : x.length using Nat.strongRecOn generalizing x s with
  | _ _ ih =>
  have hrest {c : Char} {y : List Char} (hlt : y.length < x.length)
      (h : andThen c (readText true .plain y) = .ok (s, r)) : ∃ t s', Spells t s' ∧ y = t ++ '"' :: r ∧ s = c :: s' := by
    obtain ⟨s', hread, rfl⟩ := ok_of_andThen h
    obtain ⟨t, ht, rfl⟩ := ih _ (hlength ▸ hlt) hread rfl
    exact ⟨t, s', ht, rfl, rfl⟩
  cases x with
  | nil => cases h
  | cons c y =>
    by_cases hquote : c = '"'
    · subst hquote
      obtain ⟨rfl, rfl⟩ := Prod.mk.inj (Except.ok.inj h)
      exact ⟨[], .nil, rfl⟩
    by_cases hbackslash : c = '\\'
    · subst hbackslash
      cases y with
      | nil => cases h
      | cons d y =>
        cases hd : simpleEscape? d with
        | some c =>
          rw [readText_of_escape hd] at h
          obtain ⟨t, s', ht, rfl, rfl⟩ := hrest (by simp only [List.length_cons]; omega) h
          exact ⟨_, .escaped hd ht, rfl⟩
        | none =>
          by_cases hu : d = 'u'
          · subst hu
            have hcode : readText true (.hex none 0 0) y = .ok (s, r) := h
            obtain ⟨ds, n, y, hds, rfl, hlow, h⟩ := readText_code hcode
            split at h
            · obtain ⟨z, rfl, hsecond⟩ := readText_secondHalf h
              obtain ⟨ds', n', z, hds', rfl, hlow', h⟩ := readText_code hsecond
              obtain ⟨t, s', ht, rfl, rfl⟩ := hrest (by simp only [List.length_cons, List.length_append]; omega) h
              exact ⟨_, .pair hds ‹_› hds' hlow' ht, by simp⟩
            · obtain ⟨t, s', ht, rfl, rfl⟩ := hrest (by simp only [List.length_cons, List.length_append]; omega) h
              exact ⟨_, .code hds hlow (by simpa using ‹¬ isHighHalf n = true›) ht, by simp⟩
          · simp [readText_plain, readText_escaped, hu, hd] at h
    by_cases hcontrol : c.toNat < 0x20
    · simp [readText_plain, hquote, hbackslash, hcontrol] at h
    · rw [readText_of_plain hquote hbackslash hcontrol] at h
      obtain ⟨t, s', ht, rfl, rfl⟩ := hrest (by simp) h
      exact ⟨_, .plain hquote hbackslash hcontrol ht, rfl⟩

theorem spells_iff : Spells t s ↔ readText true .plain (t ++ ['"']) = .ok (s, []) := by
  constructor
  · intro h
    exact readText_append h []
  · intro h
    obtain ⟨t', ht', heq⟩ := spells_of_readText h
    rwa [List.append_cancel_right heq]

theorem readText_eq_ok_iff (h : IsQuoted t) : readText true .plain (t ++ '"' :: x) = .ok (s, r) ↔ Spells t s ∧ r = x := by
  constructor
  · intro hread
    obtain ⟨t', ht', heq⟩ := spells_of_readText hread
    obtain ⟨_, hskip⟩ := skipText_append h x
    obtain ⟨_, hskip'⟩ := skipText_append ht'.isQuoted r
    rw [heq, hskip'] at hskip
    obtain ⟨-, rfl⟩ := Prod.mk.inj (Except.ok.inj hskip)
    exact ⟨List.append_cancel_right heq ▸ ht', rfl⟩
  · rintro ⟨ht, rfl⟩
    exact readText_append ht r

end Reading

section Writing

variable {c : Char} {t s : List Char}

theorem hexValue?_hexDigit {n : Nat} (h : n < 16) : hexValue? (hexDigit n) = some n := by
  have hall : ∀ n < 16, hexValue? (hexDigit n) = some n := by decide
  exact hall n h

private def named : List Char :=
  ['"', '\\', '\x08', '\x0c', '\n', '\r', '\t']

private theorem escape_of_named (h : c ∈ named) : ∃ d, escape c = ['\\', d] ∧ simpleEscape? d = some c := by
  simp only [named, List.mem_cons, List.not_mem_nil, or_false] at h
  rcases h with rfl | rfl | rfl | rfl | rfl | rfl | rfl <;> exact ⟨_, rfl, rfl⟩

private theorem spells_control (hcontrol : c.toNat < 0x20) (h : Spells t s) :
    Spells ('\\' :: 'u' :: ('0' :: '0' :: hexDigit (c.toNat / 16) :: [hexDigit (c.toNat % 16)] ++ t)) (c :: s) := by
  have hcode : HexCode ('0' :: '0' :: hexDigit (c.toNat / 16) :: [hexDigit (c.toNat % 16)])
      (16 * (16 * (16 * 0 + 0) + c.toNat / 16) + c.toNat % 16) :=
    .mk rfl rfl (hexValue?_hexDigit (by omega)) (hexValue?_hexDigit (by omega))
  have hvalue : 16 * (16 * (16 * 0 + 0) + c.toNat / 16) + c.toNat % 16 = c.toNat := by omega
  rw [hvalue] at hcode
  have hlow : isLowHalf c.toNat = false := by
    simp [isLowHalf]
    omega
  have hhigh : isHighHalf c.toNat = false := by
    simp [isHighHalf]
    omega
  have hspells := Spells.code hcode hlow hhigh h
  rwa [Char.ofNat_toNat] at hspells

private theorem spells_escape_append (c : Char) (h : Spells t s) : Spells (escape c ++ t) (c :: s) := by
  by_cases hnamed : c ∈ named
  · obtain ⟨d, hescape, hsimple⟩ := escape_of_named hnamed
    rw [hescape]
    exact .escaped hsimple h
  · simp only [named, List.mem_cons, List.not_mem_nil, or_false, not_or] at hnamed
    by_cases hcontrol : c.toNat < 0x20
    · have hescape : escape c = '\\' :: 'u' :: '0' :: '0' :: hexDigit (c.toNat / 16) :: [hexDigit (c.toNat % 16)] := by
        simp [escape, hnamed, hcontrol]
      rw [hescape]
      exact spells_control hcontrol h
    · have hescape : escape c = [c] := by
        simp [escape, hnamed, hcontrol]
      rw [hescape]
      exact .plain hnamed.1 hnamed.2.1 hcontrol h

/-- What is written spells what was to be written. -/
theorem spells_escape (s : List Char) : Spells (s.flatMap escape) s := by
  induction s with
  | nil => exact .nil
  | cons c s ih => exact spells_escape_append c ih

end Writing

end PubSub.Json
