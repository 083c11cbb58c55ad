import Mathlib.Data.List.Basic
/-!
# Access — indexing and slicing that fail out of range

An access is `none` where a program would stop: an index or a range outside the slice, a copy between slices of
different lengths, a difference below zero.  A buffer written from its front is `onto w buf`: the next write extends `w`
(`copyInto_onto`), and what is read inside `w` is read from `w` (`slice_onto`).
-/
namespace Access

variable {α : Type}

/-- `buf[i]`. -/
def index (buf : List α) (i : Nat) : Option α := buf[i]?

/-- `buf[i] = a`. -/
def store (buf : List α) (i : Nat) (a : α) : Option (List α) := if i < buf.length then some (buf.set i a) else none

/-- `&buf[i..j]`. -/
def slice (buf : List α) (i j : Nat) : Option (List α) :=
  if i ≤ j ∧ j ≤ buf.length then some ((buf.drop i).take (j - i)) else none

/-- `buf[i..j].copy_from_slice(src)`. -/
def copyInto (buf : List α) (i j : Nat) (src : List α) : Option (List α) :=
  if i ≤ j ∧ j ≤ buf.length ∧ src.length = j - i then some (buf.take i ++ src ++ buf.drop j) else none

/-- `m - n`, of lengths. -/
def sub (m n : Nat) : Option Nat := if n ≤ m then some (m - n) else none

theorem sub_of_le {m n : Nat} (h : n ≤ m) : sub m n = some (m - n) := if_pos h

/-! ## A buffer written from its front -/

/-- `buf` with `w` written at its front. -/
def onto (w buf : List α) : List α := w ++ buf.drop w.length

@[simp] theorem length_onto {w buf : List α} (h : w.length ≤ buf.length) : (onto w buf).length = buf.length := by
  rw [onto, List.length_append, List.length_drop]
  omega

/-- **The next write** extends what is written. -/
theorem copyInto_onto {w buf src : List α} {i j : Nat} (hi : i = w.length) (hj : j = i + src.length)
    (hle : j ≤ buf.length) : copyInto (onto w buf) i j src = some (onto (w ++ src) buf) := by
  subst hi hj
  have hlen : (onto w buf).length = buf.length := length_onto (Nat.le_trans (Nat.le_add_right _ _) hle)
  rw [copyInto, if_pos ⟨Nat.le_add_right _ _, hlen ▸ hle, (Nat.add_sub_cancel_left _ _).symm⟩]
  simp [onto, List.drop_append]

theorem store_onto {w buf : List α} {i : Nat} (a : α) (hi : i = w.length) (hlt : i < buf.length) :
    store (onto w buf) i a = some (onto (w ++ [a]) buf) := by
  subst hi
  rw [store, if_pos ((length_onto (Nat.le_of_lt hlt)).symm ▸ hlt), onto, List.set_append_right _ _ (Nat.le_refl _),
    Nat.sub_self, List.drop_eq_getElem_cons hlt, List.set_cons_zero]
  simp [onto]

theorem index_onto {w : List α} (buf : List α) {i : Nat} (h : i < w.length) (a : α) :
    index (onto w buf) i = some (w.getD i a) := by
  rw [index, onto, List.getElem?_append_left h]
  simp [h]

theorem slice_onto {w : List α} (buf : List α) {i j : Nat} (hij : i ≤ j) (hj : j ≤ w.length) :
    slice (onto w buf) i j = some ((w.drop i).take (j - i)) := by
  have hlen : j ≤ (onto w buf).length := by
    rw [onto, List.length_append]
    exact Nat.le_add_right_of_le hj
  rw [slice, if_pos ⟨hij, hlen⟩, onto, List.drop_append_of_le_length (Nat.le_trans hij hj),
    List.take_append_of_le_length (by rw [List.length_drop]; exact Nat.sub_le_sub_right hj i)]

/-- All that is written. -/
theorem slice_onto_all (w buf : List α) : slice (onto w buf) 0 w.length = some w := by
  rw [slice_onto buf (Nat.zero_le _) (Nat.le_refl _)]
  simp

/-- What is written over a front stays within it. -/
theorem onto_onto {v w : List α} (buf : List α) (h : v.length ≤ w.length) :
    onto (onto v w) buf = onto v (onto w buf) := by
  rw [onto, length_onto h, onto, onto, onto, List.drop_append_of_le_length h, List.append_assoc]

end Access
