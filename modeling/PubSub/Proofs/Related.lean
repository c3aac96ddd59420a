import Mathlib.Data.List.Forall2
import PubSub.Table

/-!
# Related data

Lists, tables and computations that may fail, related part by part: what looks something up, changes it or goes
through it in the same way on both sides gives related results.
-/

namespace PubSub

/-- Both fail in the same way, or both give values that are related. -/
inductive Agree {ε α β : Type} (R : α → β → Prop) : Except ε α → Except ε β → Prop
  | error (e : ε) : Agree R (.error e) (.error e)
  | ok {a : α} {b : β} (h : R a b) : Agree R (.ok a) (.ok b)

theorem Agree.bind {ε α β γ : Type} {R : α → β → Prop} (x : Except ε γ) {f : γ → Except ε α} {g : γ → Except ε β}
    (h : ∀ c, Agree R (f c) (g c)) : Agree R (x >>= f) (x >>= g) := by
  cases x with
  | error e => exact .error e
  | ok c => exact h c

theorem rel_of_eq {α : Type} {o o' : Option α} (h : o = o') : Option.Rel (· = ·) o o' := by
  subst h
  cases o with
  | none => exact .none
  | some a => exact .some rfl

section Lists

variable {α β γ δ : Type} {R : α → β → Prop} {l : List α} {l' : List β}

theorem rel_find? (h : List.Forall₂ R l l') {p : α → Bool} {q : β → Bool} (hpq : ∀ a b, R a b → p a = q b) :
    Option.Rel R (l.find? p) (l'.find? q) := by
  induction h with
  | nil => exact .none
  | @cons a b l l' hab _ ih =>
    rw [List.find?_cons, List.find?_cons, hpq a b hab]
    cases q b with
    | true => exact .some hab
    | false => exact ih

theorem rel_findSome? {S : γ → δ → Prop} (l : List α) {f : α → Option γ} {g : α → Option δ}
    (hfg : ∀ a, Option.Rel S (f a) (g a)) : Option.Rel S (l.findSome? f) (l.findSome? g) := by
  induction l with
  | nil => exact .none
  | cons a l ih =>
    have ha := hfg a
    rw [List.findSome?_cons, List.findSome?_cons]
    generalize f a = found at ha
    generalize g a = found' at ha
    cases ha with
    | none => exact ih
    | some hab => exact .some hab

theorem any_eq_of_forall₂ (h : List.Forall₂ R l l') {p : α → Bool} {q : β → Bool} (hpq : ∀ a b, R a b → p a = q b) :
    l.any p = l'.any q := by
  induction h with
  | nil => rfl
  | @cons a b l l' hab _ ih => rw [List.any_cons, List.any_cons, hpq a b hab, ih]

theorem map_eq_of_forall₂ (h : List.Forall₂ R l l') {f : α → γ} {g : β → γ} (hfg : ∀ a b, R a b → f a = g b) :
    l.map f = l'.map g := by
  induction h with
  | nil => rfl
  | @cons a b l l' hab _ ih => rw [List.map_cons, List.map_cons, hfg a b hab, ih]

theorem rel_filter (h : List.Forall₂ R l l') {p : α → Bool} {q : β → Bool} (hpq : ∀ a b, R a b → p a = q b) :
    List.Forall₂ R (l.filter p) (l'.filter q) :=
  List.rel_filter (fun a b hab => Bool.eq_iff_iff.1 (hpq a b hab)) h

theorem rel_foldl {P : γ → δ → Prop} (h : List.Forall₂ R l l') {f : γ → α → γ} {g : δ → β → δ} {c : γ}
    {d : δ} (hcd : P c d) (hstep : ∀ c d, P c d → ∀ a b, R a b → P (f c a) (g d b)) :
    P (l.foldl f c) (l'.foldl g d) :=
  List.rel_foldl (fun c d hcd a b hab => hstep c d hcd a b hab) hcd h

end Lists

namespace Table

variable {α β γ : Type} {R : β → γ → Prop} {t : Table α β} {t' : Table α γ}

/-- The same keys in the same order, with related values. -/
def Related (R : β → γ → Prop) (t : Table α β) (t' : Table α γ) : Prop :=
  List.Forall₂ (fun e e' => e.1 = e'.1 ∧ R e.2 e'.2) t.entries t'.entries

theorem related_empty (R : β → γ → Prop) : Related R (empty : Table α β) empty :=
  .nil

theorem Related.values (h : Related R t t') : List.Forall₂ R t.values t'.values :=
  List.forall₂_map_left_iff.2 (List.forall₂_map_right_iff.2 (h.imp fun _ _ he => he.2))

variable [DecidableEq α]

theorem Related.get? (h : Related R t t') (a : α) : Option.Rel R (t.get? a) (t'.get? a) := by
  obtain ⟨es⟩ := t
  obtain ⟨es'⟩ := t'
  replace h : List.Forall₂ (fun e e' => e.1 = e'.1 ∧ R e.2 e'.2) es es' := h
  show Option.Rel R (es.lookup a) (es'.lookup a)
  induction h with
  | nil => exact .none
  | @cons e e' es es' he _ ih =>
    rw [lookup_cons_eq_ite, lookup_cons_eq_ite, ← he.1]
    split
    · exact .some he.2
    · exact ih

private theorem related_replace? {es : List (α × β)} {es' : List (α × γ)}
    (h : List.Forall₂ (fun e e' => e.1 = e'.1 ∧ R e.2 e'.2) es es') (a : α) {b : β} {c : γ} (hbc : R b c) :
    Option.Rel (List.Forall₂ fun e e' => e.1 = e'.1 ∧ R e.2 e'.2) (replace? a b es) (replace? a c es') := by
  induction h with
  | nil => exact .none
  | @cons e e' es es' he hes ih =>
    simp only [replace?]
    rw [← he.1]
    split
    · exact .some (.cons ⟨rfl, hbc⟩ hes)
    · generalize replace? a b es = found at ih
      generalize replace? a c es' = found' at ih
      cases ih with
      | none => exact .none
      | some ih => exact .some (.cons he ih)

theorem Related.put (h : Related R t t') (a : α) {b : β} {c : γ} (hbc : R b c) :
    Related R (t.put a b) (t'.put a c) := by
  have hreplace := related_replace? h a hbc
  unfold Related Table.put
  generalize replace? a b t.entries = found at hreplace
  generalize replace? a c t'.entries = found' at hreplace
  cases hreplace with
  | none => exact .cons ⟨rfl, hbc⟩ h
  | some hreplace => exact hreplace

theorem rel_get?_of_eq {u u' : Table α β} (h : u = u') (a : α) : Option.Rel (· = ·) (u.get? a) (u'.get? a) :=
  rel_of_eq (congrArg (·.get? a) h)

theorem Related.erase (h : Related R t t') (a : α) : Related R (t.erase a) (t'.erase a) :=
  rel_filter h fun _ _ he => by rw [he.1]

end Table
end PubSub
