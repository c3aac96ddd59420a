/-!
# Tables

Finite maps as lists of entries, the key that was put last in front. A new value for a key keeps its place.
-/

namespace PubSub

structure Table (α β : Type) where
  entries : List (α × β)

namespace Table

variable {α β : Type} [DecidableEq α]

def empty : Table α β :=
  ⟨[]⟩

def get? (t : Table α β) (a : α) : Option β :=
  t.entries.lookup a

def replace? (a : α) (b : β) : List (α × β) → Option (List (α × β))
  | [] => none
  | e :: es => if a = e.1 then some ((a, b) :: es) else (replace? a b es).map (e :: ·)

def put (t : Table α β) (a : α) (b : β) : Table α β :=
  ⟨(replace? a b t.entries).getD ((a, b) :: t.entries)⟩

def erase (t : Table α β) (a : α) : Table α β :=
  ⟨t.entries.filter fun e => a ≠ e.1⟩

def values (t : Table α β) : List β :=
  t.entries.map Prod.snd

@[simp]
theorem get?_empty (a : α) : (empty : Table α β).get? a = none :=
  rfl

theorem lookup_cons_eq_ite (c : α) (e : α × β) (es : List (α × β)) :
    (e :: es).lookup c = if c = e.1 then some e.2 else es.lookup c := by
  rw [List.lookup_cons]
  by_cases h : c = e.1
  · simp [h]
  · simp [h, beq_eq_false_iff_ne.2 h]

private theorem lookup_of_replace? {a : α} {b : β} {es r : List (α × β)} (h : replace? a b es = some r)
    (c : α) : r.lookup c = if c = a then some b else es.lookup c := by
  induction es generalizing r with
  | nil => simp [replace?] at h
  | cons e es ih =>
    by_cases ha : a = e.1
    · obtain rfl : (a, b) :: es = r := by simpa [replace?, ha] using h
      by_cases hc : c = a <;> simp_all [lookup_cons_eq_ite]
    · obtain ⟨r', hr, rfl⟩ : ∃ r', replace? a b es = some r' ∧ e :: r' = r := by simpa [replace?, ha] using h
      by_cases hc : c = a <;> simp_all [lookup_cons_eq_ite]

@[simp]
theorem get?_put (t : Table α β) (a c : α) (b : β) :
    (t.put a b).get? c = if c = a then some b else t.get? c := by
  unfold put get?
  cases h : replace? a b t.entries with
  | none => simp [lookup_cons_eq_ite]
  | some r => simpa using lookup_of_replace? h c

private theorem lookup_filter_ne (a c : α) (es : List (α × β)) :
    (es.filter fun e => a ≠ e.1).lookup c = if c = a then none else es.lookup c := by
  induction es with
  | nil => simp
  | cons e es ih =>
    by_cases h : a = e.1 <;> by_cases hc : c = a <;> simp_all [lookup_cons_eq_ite]

@[simp]
theorem get?_erase (t : Table α β) (a c : α) :
    (t.erase a).get? c = if c = a then none else t.get? c :=
  lookup_filter_ne a c t.entries

end Table
end PubSub
