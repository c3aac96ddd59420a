import PubSub.Behaviour
import PubSub.Table

/-!
# Registry

The live subscriptions, in rows by key. Ids count the registrations and are never used again. Registering a
callback that is already under the key gives the id that it has.
-/

namespace PubSub

/-- A listener with its identity. -/
structure Callback where
  /-- Tells objects apart; all callbacks of an object share it. -/
  identity : Nat
  target : String
  name : String
  /-- Calls may overlap. Otherwise they take turns. -/
  threadSafe : Bool
  lens : Lens
  /-- The object whose calls are counted. -/
  object : Nat
  listener : Listener

def Callback.isSame (a b : Callback) : Bool :=
  a.identity = b.identity && a.name = b.name

structure Subscription where
  id : Nat
  key : Key
  callback : Callback

structure Registry where
  rows : Table Key (List Subscription)
  /-- The number of registrations so far. -/
  issued : Nat

namespace Registry

def empty : Registry :=
  ⟨.empty, 0⟩

def row (r : Registry) (key : Key) : List Subscription :=
  (r.rows.get? key).getD []

def register (r : Registry) (key : Key) (callback : Callback) : Registry × Nat :=
  let id := r.issued + 1
  match (r.row key).find? (·.callback.isSame callback) with
  | some s => ({ r with issued := id }, s.id)
  | none => (⟨r.rows.put key (r.row key ++ [⟨id, key, callback⟩]), id⟩, id)

theorem issued_register (r : Registry) (key : Key) (callback : Callback) :
    (r.register key callback).1.issued = r.issued + 1 := by
  unfold register
  split <;> rfl

/-- A registration adds at most one subscription, at the end of the row of its key. -/
theorem row_register (r : Registry) (key k : Key) (callback : Callback) :
    (r.register key callback).1.row k =
      if k = key ∧ !(r.row key).any (·.callback.isSame callback)
      then r.row k ++ [⟨r.issued + 1, key, callback⟩] else r.row k := by
  unfold register
  cases h : (r.row key).find? (·.callback.isSame callback) with
  | some s =>
    have same : s.callback.isSame callback = true := by simpa using List.find?_some h
    have hs : (r.row key).any (·.callback.isSame callback) = true :=
      List.any_eq_true.2 ⟨s, List.mem_of_find?_eq_some h, same⟩
    have unchanged (ids : Nat) : ({ r with issued := ids } : Registry).row k = r.row k := rfl
    simp only [hs, unchanged, Bool.not_true, Bool.false_eq_true, and_false, if_false]
  | none =>
    have hn : (r.row key).any (·.callback.isSame callback) = false := by
      simpa [List.find?_eq_none] using h
    by_cases hk : k = key
    · subst hk
      simp only [hn, Bool.not_false, and_self, if_true]
      simp [row]
    · simp [hk, row]

/-- Registers all, in order, and gives the keys with their ids. -/
def registerAll (r : Registry) : List (Key × Callback) → Registry × List (Key × Nat)
  | [] => (r, [])
  | (key, callback) :: rest =>
    let (r, id) := r.register key callback
    let (r, entries) := r.registerAll rest
    (r, (key, id) :: entries)

def contains (r : Registry) (key : Key) (id : Nat) : Bool :=
  (r.row key).any (·.id = id)

/-- A row that becomes empty is dropped. -/
def unregister (r : Registry) (key : Key) (id : Nat) : Registry :=
  match (r.row key).filter (·.id ≠ id) with
  | [] => { r with rows := r.rows.erase key }
  | rest => { r with rows := r.rows.put key rest }

theorem row_unregister (r : Registry) (key k : Key) (id : Nat) :
    (r.unregister key id).row k = if k = key then (r.row k).filter (·.id ≠ id) else r.row k := by
  unfold unregister
  by_cases hk : k = key
  · subst hk
    cases h : (r.row k).filter (·.id ≠ id) <;> simp [row]
  · cases (r.row key).filter (·.id ≠ id) <;> simp [row, hk]

/-- The subscriptions under the keys, each with the view of its key. -/
def lookup (r : Registry) (resolution : Resolution) : List (Subscription × Option View) :=
  resolution.flatMap fun e => (r.row e.1).map fun s => (s, e.2)

def count (r : Registry) (key : Key) : Nat :=
  (r.row key).length

def size (r : Registry) : Nat :=
  r.rows.values.flatten.length

def clear (r : Registry) : Registry :=
  { r with rows := .empty }

@[simp]
theorem row_clear (r : Registry) (key : Key) : r.clear.row key = [] :=
  rfl

end Registry
end PubSub
