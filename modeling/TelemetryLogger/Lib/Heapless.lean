import Mathlib.Data.List.Basic
/-!
# Heapless — sequences of fixed capacity

A `Vec` and a `Deque` of capacity `n` hold at most `n` elements, by construction.  Adding to a full one fails and
changes nothing.
-/
namespace Heapless

theorem length_snoc_le {α : Type} {n : Nat} {xs : List α} (a : α) (h : xs.length < n) : (xs ++ [a]).length ≤ n := by
  rw [List.length_append]
  exact h

structure Vec (α : Type) (n : Nat) where
  toList : List α
  length_le : toList.length ≤ n
  deriving DecidableEq

namespace Vec

variable {α : Type} {n : Nat}

theorem ext {v w : Vec α n} (h : v.toList = w.toList) : v = w := by
  cases v; cases w; cases h; rfl

def new : Vec α n := ⟨[], Nat.zero_le n⟩

def len (v : Vec α n) : Nat := v.toList.length

def isEmpty (v : Vec α n) : Bool := v.toList.isEmpty

def extendFromSlice (v : Vec α n) (xs : List α) : Option (Vec α n) :=
  if h : (v.toList ++ xs).length ≤ n then some ⟨v.toList ++ xs, h⟩ else none

def push (v : Vec α n) (a : α) : Option (Vec α n) := v.extendFromSlice [a]

@[simp] theorem toList_new : (new : Vec α n).toList = [] := rfl

theorem extendFromSlice_of_le (v : Vec α n) (xs : List α) (h : (v.toList ++ xs).length ≤ n) :
    v.extendFromSlice xs = some ⟨v.toList ++ xs, h⟩ := dif_pos h

theorem extendFromSlice_new (xs : List α) (h : xs.length ≤ n) : new.extendFromSlice xs = some (⟨xs, h⟩ : Vec α n) :=
  extendFromSlice_of_le new xs h

theorem push_of_lt (v : Vec α n) (a : α) (h : v.toList.length < n) :
    v.push a = some ⟨v.toList ++ [a], length_snoc_le a h⟩ := dif_pos (length_snoc_le a h)

theorem push_of_full (v : Vec α n) (a : α) (h : v.toList.length = n) : v.push a = none :=
  dif_neg (by simp [h])

end Vec

structure Deque (α : Type) (n : Nat) where
  toList : List α
  length_le : toList.length ≤ n
  deriving DecidableEq

namespace Deque

variable {α : Type} {n : Nat}

theorem ext {v w : Deque α n} (h : v.toList = w.toList) : v = w := by
  cases v; cases w; cases h; rfl

def new : Deque α n := ⟨[], Nat.zero_le n⟩

def len (q : Deque α n) : Nat := q.toList.length

def isFull (q : Deque α n) : Bool := q.len == n

def pushBack (q : Deque α n) (a : α) : Option (Deque α n) :=
  if h : (q.toList ++ [a]).length ≤ n then some ⟨q.toList ++ [a], h⟩ else none

def popFront (q : Deque α n) : Option (α × Deque α n) :=
  match q with
  | ⟨[], _⟩ => none
  | ⟨a :: as, h⟩ => some (a, ⟨as, Nat.le_of_succ_le h⟩)

@[simp] theorem toList_new : (new : Deque α n).toList = [] := rfl

theorem isFull_iff (q : Deque α n) : q.isFull = true ↔ q.toList.length = n := by
  rw [isFull, beq_iff_eq, len]

theorem length_lt_of_not_full (q : Deque α n) (h : q.isFull = false) : q.toList.length < n := by
  have := q.length_le
  have : q.toList.length ≠ n := fun hc => by rw [(isFull_iff q).2 hc] at h; cases h
  omega

theorem pushBack_of_not_full (q : Deque α n) (a : α) (h : q.isFull = false) :
    q.pushBack a = some ⟨q.toList ++ [a], length_snoc_le a (length_lt_of_not_full q h)⟩ :=
  dif_pos (length_snoc_le a (length_lt_of_not_full q h))

end Deque

end Heapless
