import PubSub.Config.Document
import PubSub.Proofs.Json.Values

/-!
# Values of settings

Which values of JSON give a setting, and what they make of it. Each value is read as what it gives, and no other value is
read at all, wherever it stands in a document.
-/

namespace PubSub

/-- What a setting can be. -/
def Field.Content : Field → Type
  | workerThreads | maxPublishDepth => Option UInt64
  | maxWorkerThreads => UInt64
  | threadName => String
  | deadEvents => Policy
  | enableLogging => Bool

namespace Config

variable {c c' : Config} {f g : Field}

def get (c : Config) : (f : Field) → f.Content
  | .workerThreads => c.workerThreads
  | .maxWorkerThreads => c.maxWorkerThreads
  | .threadName => c.threadName
  | .deadEvents => c.deadEvents
  | .maxPublishDepth => c.maxPublishDepth
  | .enableLogging => c.enableLogging

theorem eq_of_get (h : ∀ f, c.get f = c'.get f) : c = c' := by
  cases c
  cases c'
  obtain rfl := h .workerThreads
  obtain rfl := h .maxWorkerThreads
  obtain rfl := h .threadName
  obtain rfl := h .deadEvents
  obtain rfl := h .maxPublishDepth
  obtain rfl := h .enableLogging
  rfl

def put (c : Config) : (f : Field) → f.Content → Config
  | .workerThreads, x => { c with workerThreads := x }
  | .maxWorkerThreads, x => { c with maxWorkerThreads := x }
  | .threadName, x => { c with threadName := x }
  | .deadEvents, x => { c with deadEvents := x }
  | .maxPublishDepth, x => { c with maxPublishDepth := x }
  | .enableLogging, x => { c with enableLogging := x }

@[simp] theorem get_put (c : Config) (f : Field) (x : f.Content) : (c.put f x).get f = x := by
  cases f <;> rfl

theorem get_put_of_ne (h : g ≠ f) (c : Config) (x : f.Content) : (c.put f x).get g = c.get g := by
  cases f <;> cases g <;> first | rfl | exact absurd rfl h

theorem eq_put_iff {x : f.Content} : c' = c.put f x ↔ c'.get f = x ∧ ∀ g, g ≠ f → c'.get g = c.get g := by
  constructor
  · rintro rfl
    exact ⟨get_put c f x, fun g hg => get_put_of_ne hg c x⟩
  · rintro ⟨rfl, hothers⟩
    refine eq_of_get fun g => ?_
    by_cases hg : g = f
    · subst hg
      exact (get_put c g _).symm
    · rw [hothers g hg, get_put_of_ne hg]

end Config

namespace Document

open Json (IsValue IsBlanks EndsValue IsNatural Spells skipBlank)

inductive GivesOptional : List Char → Option UInt64 → Prop
  | null : GivesOptional ['n', 'u', 'l', 'l'] none
  | natural {v : List Char} {n : UInt64} (h : IsNatural v n) : GivesOptional v (some n)

inductive GivesString : List Char → String → Prop
  | mk {t : List Char} {s : String} (h : Spells t s.toList) : GivesString ('"' :: (t ++ ['"'])) s

inductive GivesPolicy : List Char → Policy → Prop
  | name {v : List Char} {p : Policy} (h : GivesString v p.text) : GivesPolicy v p
  | object {m : List Char} {p : Policy} (h : Json.IsMember p.text.toList ['n', 'u', 'l', 'l'] m) :
    GivesPolicy ('\x7b' :: (m ++ ['\x7d'])) p

inductive GivesFlag : List Char → Bool → Prop
  | truth : GivesFlag ['t', 'r', 'u', 'e'] true
  | falsity : GivesFlag ['f', 'a', 'l', 's', 'e'] false

/-- The value is a text for this setting. -/
def Gives (v : List Char) : (f : Field) → f.Content → Prop
  | .workerThreads => GivesOptional v
  | .maxWorkerThreads => IsNatural v
  | .threadName => GivesString v
  | .deadEvents => GivesPolicy v
  | .maxPublishDepth => GivesOptional v
  | .enableLogging => GivesFlag v

section Naturals

variable {v rest r : List Char} {n : UInt64}

private theorem naturalOnly_iff {e : Except Json.Flaw (Json.Number × List Char)} :
    e >>= naturalOnly = .ok (n, r) ↔ e = .ok (.natural n, r) := by
  rw [bind_eq_ok_iff]
  constructor
  · rintro ⟨⟨number, q⟩, rfl, h⟩
    cases number with
    | natural => exact congrArg _ (by simpa [naturalOnly] using h)
    | other => cases h
  · intro h
    exact ⟨_, h, rfl⟩

private theorem readNatural_digit {c : Char} (h : c.isDigit) (r : List Char) :
    readNatural (c :: r) = Json.readNumber false (c :: r) >>= naturalOnly := by
  simp only [readNatural, Json.skipBlank_cons (Json.isBlank_of_digit h)]
  split
  · obtain ⟨rfl, -⟩ := List.cons.inj ‹_›
    cases h
  · obtain ⟨rfl, rfl⟩ := List.cons.inj ‹_›
    exact if_pos h
  · cases ‹_ = []›

theorem isUnsigned_of_isInteger (h : Json.IsInteger v) : Json.IsUnsigned v := by
  simpa using Json.IsUnsigned.mk h .none .none

theorem readNatural_of_isNatural (h : IsNatural v n) (hrest : EndsValue rest) :
    readNatural (v ++ rest) = .ok (n, rest) := by
  have hunsigned := isUnsigned_of_isInteger h.integer
  obtain ⟨c, r, rfl, hdigit⟩ := hunsigned.head
  rw [List.cons_append, readNatural_digit hdigit, naturalOnly_iff]
  exact (Json.readNumber_eq_natural_iff hunsigned hrest.endsNumber false).2 ⟨rfl, h, rfl⟩

theorem isNatural_of_readNatural (h : IsValue v) (hrest : EndsValue rest) (hread : readNatural (v ++ rest) = .ok (n, r)) :
    IsNatural v n := by
  cases h with
  | number h =>
    obtain ⟨c, r, rfl, hdigit⟩ := h.head
    rw [List.cons_append, readNatural_digit hdigit, naturalOnly_iff] at hread
    exact ((Json.readNumber_eq_natural_iff h hrest.endsNumber false).1 hread).2.1
  | negative h =>
    have hnumber := naturalOnly_iff.1 hread
    cases ((Json.readNumber_eq_natural_iff h hrest.endsNumber true).1 hnumber).1
  | _ => cases hread

end Naturals

section Optionals

variable {v rest r : List Char} {o : Option UInt64}

private theorem readOptional_head {c : Char} (hblank : Json.isBlank c = false) (hc : c ≠ 'n') (r : List Char) :
    readOptional (c :: r) = (fun p => (some p.1, p.2)) <$> readNatural (c :: r) := by
  simp only [readOptional, Json.skipBlank_cons hblank]
  split
  · exact absurd (List.cons.inj ‹_›).1 hc
  · cases readNatural (c :: r) <;> rfl

theorem readOptional_of_gives (h : GivesOptional v o) (hrest : EndsValue rest) :
    readOptional (v ++ rest) = .ok (o, rest) := by
  cases h with
  | null => rfl
  | natural h =>
    have hread := readNatural_of_isNatural h hrest
    obtain ⟨c, r, rfl, hdigit⟩ := (isUnsigned_of_isInteger h.integer).head
    have hc : c ≠ 'n' := by
      rintro rfl
      cases hdigit
    rw [List.cons_append] at hread ⊢
    rw [readOptional_head (Json.isBlank_of_digit hdigit) hc, hread]
    rfl

theorem gives_of_readOptional (h : IsValue v) (hrest : EndsValue rest) (hread : readOptional (v ++ rest) = .ok (o, r)) :
    GivesOptional v o := by
  by_cases hnull : v.head? = some 'n'
  · cases h with
    | null =>
      obtain ⟨rfl, -⟩ := Prod.mk.inj (Except.ok.inj hread)
      exact .null
    | number h =>
      obtain ⟨c, r, rfl, hdigit⟩ := h.head
      obtain rfl := Option.some.inj hnull
      cases hdigit
    | _ => cases hnull
  · obtain ⟨c, s, hv, hblank, -⟩ := h.head
    have hc : c ≠ 'n' := by
      rintro rfl
      exact hnull (hv ▸ rfl)
    rw [hv, List.cons_append, readOptional_head hblank hc, ← List.cons_append, ← hv] at hread
    obtain ⟨p, hnatural, hp⟩ := map_eq_ok_iff.1 hread
    obtain ⟨rfl, -⟩ := Prod.mk.inj hp
    exact .natural (isNatural_of_readNatural h hrest hnatural)

end Optionals

section Strings

variable {v rest r : List Char} {s : String}

theorem readString_append {ws : List Char} (hws : IsBlanks ws) (x : List Char) : readString (ws ++ x) = readString x := by
  simp only [readString, Json.skipBlank_append hws]

private theorem readString_quoted {t : List Char} (h : Json.IsQuoted t) (rest : List Char) :
    readString ('"' :: (t ++ '"' :: rest)) = .ok (s, r) ↔ Spells t s.toList ∧ r = rest := by
  have hread : readString ('"' :: (t ++ '"' :: rest))
      = (fun p => (String.ofList p.1, p.2)) <$> Json.readText true .plain (t ++ '"' :: rest) := by
    simp only [readString, Json.skipBlank_cons (c := '"') (by decide)]
    cases Json.readText true .plain (t ++ '"' :: rest) <;> rfl
  rw [hread, map_eq_ok_iff, ← Json.readText_eq_ok_iff h]
  constructor
  · rintro ⟨⟨s', r'⟩, hok, hp⟩
    obtain ⟨rfl, rfl⟩ := Prod.mk.inj hp
    rw [hok, String.toList_ofList]
  · intro hok
    exact ⟨_, hok, by rw [String.ofList_toList]⟩

theorem readString_of_gives (h : GivesString v s) (rest : List Char) : readString (v ++ rest) = .ok (s, rest) := by
  obtain ⟨h⟩ := h
  rw [List.cons_append, List.append_assoc]
  exact (readString_quoted h.isQuoted rest).2 ⟨h, rfl⟩

theorem gives_of_readString (h : IsValue v) (hread : readString (v ++ rest) = .ok (s, r)) : GivesString v s := by
  cases h with
  | text h =>
    rw [List.cons_append, List.append_assoc] at hread
    exact ⟨((readString_quoted h rest).1 hread).1⟩
  | number h =>
    obtain ⟨c, q, rfl, hdigit⟩ := h.head
    simp only [List.cons_append, readString, Json.skipBlank_cons (Json.isBlank_of_digit hdigit)] at hread
    split at hread
    · obtain ⟨rfl, -⟩ := List.cons.inj ‹_›
      cases hdigit
    · cases hread
  | _ => cases hread

end Strings

section Policies

variable {v rest r : List Char} {p : Policy}

theorem readColon_append {ws : List Char} (hws : IsBlanks ws) (x : List Char) : readColon (ws ++ ':' :: x) = .ok x := by
  simp only [readColon, Json.skipBlank_append hws]
  rfl

theorem readPolicyName_eq_ok_iff {x : List Char} :
    readPolicyName x = .ok (p, r) ↔ readString x = .ok (p.text, r) := by
  have hfind (t : String) : Policy.all.find? (·.text = t) = some p ↔ t = p.text := by
    constructor
    · intro h
      have hname := List.find?_some h
      exact (of_decide_eq_true hname).symm
    · rintro rfl
      cases p <;> rfl
  rw [readPolicyName, bind_eq_ok_iff]
  constructor
  · rintro ⟨⟨t, q⟩, hread, h⟩
    dsimp only at h
    split at h
    · obtain ⟨rfl, rfl⟩ := Prod.mk.inj (Except.ok.inj h)
      rw [hread, (hfind t).1 ‹_›]
    · cases h
  · intro hread
    refine ⟨_, hread, ?_⟩
    dsimp only
    rw [(hfind p.text).2 rfl]
    rfl

private theorem readPolicy_object {x : List Char} : readPolicy ('\x7b' :: x) = .ok (p, r) ↔
    ∃ q q' y z, readPolicyName x = .ok (p, q) ∧ readColon q = .ok q' ∧ skipBlank q' = 'n' :: y ∧
      Json.literal ['u', 'l', 'l'] y = .ok z ∧ skipBlank z = '\x7d' :: r := by
  simp only [readPolicy, Json.skipBlank_cons (c := '\x7b') (by decide)]
  constructor
  · intro h
    obtain ⟨⟨p', q⟩, hname, h⟩ := bind_eq_ok_iff.1 h
    obtain ⟨q', hcolon, h⟩ := bind_eq_ok_iff.1 h
    dsimp only at h
    split at h
    · obtain ⟨z, hliteral, h⟩ := bind_eq_ok_iff.1 h
      split at h
      · obtain ⟨rfl, rfl⟩ := Prod.mk.inj (Except.ok.inj h)
        exact ⟨q, q', _, z, hname, hcolon, ‹_›, hliteral, ‹_›⟩
      · cases h
      · cases h
    · cases h
  · rintro ⟨q, q', y, z, hname, hcolon, hnull, hliteral, hclose⟩
    simp only [hname, hcolon, hnull, hliteral, hclose, bind, Except.bind, pure, Except.pure]

private theorem readPolicy_member {ws t ws₁ ws₂ : List Char} (hws : IsBlanks ws) (ht : Json.IsQuoted t)
    (hws₁ : IsBlanks ws₁) (hws₂ : IsBlanks ws₂) (x : List Char) :
    readPolicy ('\x7b' :: (ws ++ '"' :: (t ++ '"' :: (ws₁ ++ ':' :: (ws₂ ++ x))))) = .ok (p, r) ↔
      Spells t p.text.toList ∧
        ∃ y z, skipBlank x = 'n' :: y ∧ Json.literal ['u', 'l', 'l'] y = .ok z ∧ skipBlank z = '\x7d' :: r := by
  have hname {q : List Char} : readPolicyName (ws ++ '"' :: (t ++ '"' :: (ws₁ ++ ':' :: (ws₂ ++ x)))) = .ok (p, q) ↔
      Spells t p.text.toList ∧ q = ws₁ ++ ':' :: (ws₂ ++ x) := by
    rw [readPolicyName_eq_ok_iff, readString_append hws, readString_quoted ht]
  rw [readPolicy_object]
  constructor
  · rintro ⟨q, q', y, z, hread, hcolon, hvalue⟩
    obtain ⟨hspells, rfl⟩ := hname.1 hread
    obtain rfl := Except.ok.inj ((readColon_append hws₁ _).symm.trans hcolon)
    rw [Json.skipBlank_append hws₂] at hvalue
    exact ⟨hspells, y, z, hvalue⟩
  · rintro ⟨hspells, y, z, hvalue⟩
    rw [← Json.skipBlank_append hws₂] at hvalue
    exact ⟨_, _, y, z, hname.2 ⟨hspells, rfl⟩, readColon_append hws₁ _, hvalue⟩

theorem readPolicy_of_gives (h : GivesPolicy v p) (rest : List Char) : readPolicy (v ++ rest) = .ok (p, rest) := by
  cases h with
  | name h =>
    have hread := readPolicyName_eq_ok_iff.2 (readString_of_gives h rest)
    obtain ⟨-⟩ := h
    exact hread
  | object h =>
    obtain @⟨ws, t, ws₁, ws₂, ws₃, hws, ht, hws₁, hws₂, hws₃⟩ := h
    simp only [List.cons_append, List.append_assoc]
    refine (readPolicy_member hws ht.isQuoted hws₁ hws₂ _).2
      ⟨ht, 'u' :: 'l' :: 'l' :: (ws₃ ++ '\x7d' :: rest), _, rfl, rfl, ?_⟩
    exact Json.skipBlank_append hws₃ _

private theorem null_of_read {x y z : List Char} (h : IsValue v) (hnull : skipBlank (v ++ x) = 'n' :: y)
    (hliteral : Json.literal ['u', 'l', 'l'] y = .ok z) : v = ['n', 'u', 'l', 'l'] ∧ z = x := by
  cases h with
  | null =>
    obtain ⟨-, rfl⟩ := List.cons.inj hnull
    exact ⟨rfl, (Except.ok.inj hliteral).symm⟩
  | number h =>
    obtain ⟨c, q, rfl, hdigit⟩ := h.head
    rw [List.cons_append, Json.skipBlank_cons (Json.isBlank_of_digit hdigit)] at hnull
    obtain ⟨rfl, -⟩ := List.cons.inj hnull
    cases hdigit
  | _ => cases (List.cons.inj hnull).1

theorem gives_of_readPolicy (h : IsValue v) (hread : readPolicy (v ++ rest) = .ok (p, r)) : GivesPolicy v p := by
  cases h with
  | text h => exact .name (gives_of_readString (.text h) (readPolicyName_eq_ok_iff.1 hread))
  | emptyObject hws =>
    simp only [List.cons_append, List.append_assoc] at hread
    obtain ⟨q, _, _, _, hname, -⟩ := readPolicy_object.1 hread
    rw [readPolicyName_eq_ok_iff, readString_append hws] at hname
    cases hname
  | object h =>
    cases h with
    | member hws ht hws₁ hws₂ h hws₃ =>
      simp only [List.cons_append, List.append_assoc] at hread
      obtain ⟨hspells, y, z, hnull, hliteral, -⟩ := (readPolicy_member hws ht hws₁ hws₂ _).1 hread
      obtain ⟨rfl, -⟩ := null_of_read h hnull hliteral
      exact .object ⟨hws, hspells, hws₁, hws₂, hws₃⟩
    | members hws ht hws₁ hws₂ h hws₃ =>
      simp only [List.cons_append, List.append_assoc] at hread
      obtain ⟨-, y, z, hnull, hliteral, hclose⟩ := (readPolicy_member hws ht hws₁ hws₂ _).1 hread
      -- after the null another member comes, where the object should end
      obtain ⟨-, rfl⟩ := null_of_read h hnull hliteral
      rw [Json.skipBlank_append hws₃] at hclose
      cases hclose
  | number h =>
    obtain ⟨c, q, rfl, hdigit⟩ := h.head
    simp only [List.cons_append, readPolicy, Json.skipBlank_cons (Json.isBlank_of_digit hdigit)] at hread
    split at hread
    · obtain ⟨rfl, -⟩ := List.cons.inj ‹_›
      cases hdigit
    · obtain ⟨rfl, -⟩ := List.cons.inj ‹_›
      cases hdigit
    · cases hread
    · cases hread
  | _ => cases hread

end Policies

section Flags

variable {v rest r : List Char} {b : Bool}

theorem readFlag_of_gives (h : GivesFlag v b) (rest : List Char) : readFlag (v ++ rest) = .ok (b, rest) := by
  cases h <;> rfl

theorem gives_of_readFlag (h : IsValue v) (hread : readFlag (v ++ rest) = .ok (b, r)) : GivesFlag v b := by
  cases h with
  | truth =>
    obtain ⟨rfl, -⟩ := Prod.mk.inj (Except.ok.inj hread)
    exact .truth
  | falsity =>
    obtain ⟨rfl, -⟩ := Prod.mk.inj (Except.ok.inj hread)
    exact .falsity
  | number h =>
    obtain ⟨c, q, rfl, hdigit⟩ := h.head
    simp only [List.cons_append, readFlag, Json.skipBlank_cons (Json.isBlank_of_digit hdigit)] at hread
    split at hread
    · obtain ⟨rfl, -⟩ := List.cons.inj ‹_›
      cases hdigit
    · obtain ⟨rfl, -⟩ := List.cons.inj ‹_›
      cases hdigit
    · cases hread
  | _ => cases hread

end Flags

section Fields

variable {v ws rest r : List Char} {c c' : Config} {f : Field}

theorem isValue_of_gives {x : f.Content} (h : Gives v f x) : IsValue v := by
  have hnatural {n : UInt64} (h : IsNatural v n) : IsValue v := .number (isUnsigned_of_isInteger h.integer)
  have hoptional {o : Option UInt64} (h : GivesOptional v o) : IsValue v := by
    cases h with
    | null => exact .null
    | natural h => exact hnatural h
  have hstring {s : String} (h : GivesString v s) : IsValue v := by
    obtain ⟨h⟩ := h
    exact .text h.isQuoted
  cases f with
  | workerThreads | maxPublishDepth => exact hoptional h
  | maxWorkerThreads => exact hnatural h
  | threadName => exact hstring h
  | deadEvents =>
    cases h with
    | name h => exact hstring h
    | object h =>
      obtain ⟨hws, ht, hws₁, hws₂, hws₃⟩ := h
      exact .object (.member hws ht.isQuoted hws₁ hws₂ .null hws₃)
  | enableLogging =>
    cases h with
    | truth => exact .truth
    | falsity => exact .falsity

def readContent : (f : Field) → Reader f.Content
  | .workerThreads | .maxPublishDepth => readOptional
  | .maxWorkerThreads => readNatural
  | .threadName => readString
  | .deadEvents => readPolicy
  | .enableLogging => readFlag

theorem readField_eq (c : Config) (f : Field) (x : List Char) :
    readField c f x = (fun p => (c.put f p.1, p.2)) <$> readContent f x := by
  cases f with
  | workerThreads | maxPublishDepth =>
    simp only [readField, readContent]
    cases readOptional x <;> rfl
  | maxWorkerThreads =>
    simp only [readField, readContent]
    cases readNatural x <;> rfl
  | threadName =>
    simp only [readField, readContent]
    cases readString x <;> rfl
  | deadEvents =>
    simp only [readField, readContent]
    cases readPolicy x <;> rfl
  | enableLogging =>
    simp only [readField, readContent]
    cases readFlag x <;> rfl

theorem readContent_of_gives {x : f.Content} (h : Gives v f x) (hrest : EndsValue rest) :
    readContent f (v ++ rest) = .ok (x, rest) := by
  cases f with
  | workerThreads | maxPublishDepth => exact readOptional_of_gives h hrest
  | maxWorkerThreads => exact readNatural_of_isNatural h hrest
  | threadName => exact readString_of_gives h rest
  | deadEvents => exact readPolicy_of_gives h rest
  | enableLogging => exact readFlag_of_gives h rest

theorem gives_of_readContent {x : f.Content} (h : IsValue v) (hrest : EndsValue rest)
    (hread : readContent f (v ++ rest) = .ok (x, r)) : Gives v f x := by
  cases f with
  | workerThreads | maxPublishDepth => exact gives_of_readOptional h hrest hread
  | maxWorkerThreads => exact isNatural_of_readNatural h hrest hread
  | threadName => exact gives_of_readString h hread
  | deadEvents => exact gives_of_readPolicy h hread
  | enableLogging => exact gives_of_readFlag h hread

theorem readContent_append (hws : IsBlanks ws) (x : List Char) : readContent f (ws ++ x) = readContent f x := by
  have hblank := Json.skipBlank_append hws x
  cases f with
  | workerThreads | maxPublishDepth =>
    show readOptional _ = readOptional _
    simp only [readOptional, hblank]
  | maxWorkerThreads =>
    show readNatural _ = readNatural _
    simp only [readNatural, hblank]
  | threadName => exact readString_append hws x
  | deadEvents =>
    show readPolicy _ = readPolicy _
    simp only [readPolicy, hblank]
  | enableLogging =>
    show readFlag _ = readFlag _
    simp only [readFlag, hblank]

/-- A value is read as what it gives for the setting; the other settings stay as they are. -/
theorem readField_eq_ok_iff (hws : IsBlanks ws) (h : IsValue v) (hrest : EndsValue rest) :
    readField c f (ws ++ (v ++ rest)) = .ok (c', r) ↔
      Gives v f (c'.get f) ∧ (∀ g, g ≠ f → c'.get g = c.get g) ∧ r = rest := by
  rw [readField_eq, map_eq_ok_iff, readContent_append hws]
  constructor
  · rintro ⟨⟨x, q⟩, hread, hp⟩
    obtain ⟨rfl, rfl⟩ := Prod.mk.inj hp
    have hgives := gives_of_readContent h hrest hread
    have hrest' := (Prod.mk.inj (Except.ok.inj (hread.symm.trans (readContent_of_gives hgives hrest)))).2
    exact ⟨by simpa using hgives, fun g hg => Config.get_put_of_ne hg c x, hrest'⟩
  · rintro ⟨hgives, hothers, rfl⟩
    refine ⟨_, readContent_of_gives hgives hrest, ?_⟩
    rw [← Config.eq_put_iff.2 ⟨rfl, hothers⟩]

end Fields

end Document
end PubSub
