import Mathlib.Data.List.Basic
/-!
# Split — the pieces between separators

A list is its closed pieces, each ended by a separator, then one open piece.  Both are read off `List.splitOn`; what
they are after one more element (`closed_snoc`, `closed_snoc_sep`) is what a machine reading them one at a
time needs.
-/
namespace Split

variable {α : Type} (sep : α)

/-- **Induction on the pieces**, from the front. -/
theorem pieces_induction {P : List α → Prop} (hopen : ∀ p, sep ∉ p → P p)
    (hcut : ∀ p xs, sep ∉ p → P xs → P (p ++ sep :: xs)) : ∀ xs, P xs := by
  have key : ∀ xs p : List α, sep ∉ p → P (p ++ xs) := by
    intro xs
    induction xs with
    | nil =>
      intro p hp
      rw [List.append_nil]
      exact hopen p hp
    | cons x xs ih =>
      intro p hp
      by_cases hx : x = sep
      · subst hx
        exact hcut p xs hp (ih [] List.not_mem_nil)
      · have hpx : sep ∉ p ++ [x] := by
          rw [List.mem_append, List.mem_singleton, not_or]
          exact ⟨hp, Ne.symm hx⟩
        have := ih (p ++ [x]) hpx
        rwa [List.append_assoc] at this
  intro xs
  exact key xs [] List.not_mem_nil

variable [BEq α]

/-- The pieces a separator ends. -/
def closed (xs : List α) : List (List α) := (xs.splitOn sep).dropLast

/-- What follows the last separator. -/
def opened (xs : List α) : List α := (xs.splitOn sep).getLast (List.splitOn_ne_nil sep xs)

variable [LawfulBEq α]

theorem closed_of_not_mem {p : List α} (hp : sep ∉ p) : closed sep p = [] := by
  rw [closed, List.splitOn_eq_singleton hp]
  rfl

theorem opened_of_not_mem {p : List α} (hp : sep ∉ p) : opened sep p = p := by
  simp only [opened, List.splitOn_eq_singleton hp, List.getLast_singleton]

theorem closed_cut {p : List α} (xs : List α) (hp : sep ∉ p) : closed sep (p ++ sep :: xs) = p :: closed sep xs := by
  rw [closed, List.splitOn_append_cons_self_of_not_mem hp, List.dropLast_cons_of_ne_nil (List.splitOn_ne_nil sep xs)]
  rfl

theorem opened_cut {p : List α} (xs : List α) (hp : sep ∉ p) : opened sep (p ++ sep :: xs) = opened sep xs := by
  simp only [opened, List.splitOn_append_cons_self_of_not_mem hp, List.getLast_cons (List.splitOn_ne_nil sep xs)]

@[simp] theorem closed_nil : closed sep ([] : List α) = [] := closed_of_not_mem sep List.not_mem_nil
@[simp] theorem opened_nil : opened sep ([] : List α) = [] := opened_of_not_mem sep List.not_mem_nil

/-- **A separator closes the open piece.** -/
theorem closed_append_sep (xs ys : List α) :
    closed sep (xs ++ sep :: ys) = closed sep xs ++ opened sep xs :: closed sep ys := by
  induction xs using pieces_induction sep with
  | hopen p hp =>
    rw [closed_cut sep ys hp, closed_of_not_mem sep hp, opened_of_not_mem sep hp]
    rfl
  | hcut p xs hp ih =>
    rw [List.append_assoc, List.cons_append, closed_cut sep _ hp, closed_cut sep xs hp, opened_cut sep xs hp, ih]
    rfl

theorem opened_append_sep (xs ys : List α) : opened sep (xs ++ sep :: ys) = opened sep ys := by
  induction xs using pieces_induction sep with
  | hopen p hp => exact opened_cut sep ys hp
  | hcut p xs hp ih => rw [List.append_assoc, List.cons_append, opened_cut sep _ hp, ih]

theorem closed_snoc_sep (xs : List α) : closed sep (xs ++ [sep]) = closed sep xs ++ [opened sep xs] := by
  rw [closed_append_sep, closed_nil]

theorem opened_snoc_sep (xs : List α) : opened sep (xs ++ [sep]) = [] := by
  rw [opened_append_sep, opened_nil]

/-- **A list without separators extends the open piece.** -/
theorem opened_append_of_not_mem (xs : List α) {q : List α} (hq : sep ∉ q) :
    opened sep (xs ++ q) = opened sep xs ++ q := by
  induction xs using pieces_induction sep with
  | hopen p hp =>
    have hpq : sep ∉ p ++ q := fun h => (List.mem_append.1 h).elim hp hq
    rw [opened_of_not_mem sep hpq, opened_of_not_mem sep hp]
  | hcut p xs hp ih => rw [List.append_assoc, List.cons_append, opened_cut sep _ hp, opened_cut sep xs hp, ih]

theorem closed_append_of_not_mem (xs : List α) {q : List α} (hq : sep ∉ q) : closed sep (xs ++ q) = closed sep xs := by
  induction xs using pieces_induction sep with
  | hopen p hp =>
    have hpq : sep ∉ p ++ q := fun h => (List.mem_append.1 h).elim hp hq
    rw [closed_of_not_mem sep hpq, closed_of_not_mem sep hp]
  | hcut p xs hp ih => rw [List.append_assoc, List.cons_append, closed_cut sep _ hp, closed_cut sep xs hp, ih]

theorem closed_snoc (xs : List α) {x : α} (hx : x ≠ sep) : closed sep (xs ++ [x]) = closed sep xs :=
  closed_append_of_not_mem sep xs (fun h => hx (List.mem_singleton.1 h).symm)

theorem opened_snoc (xs : List α) {x : α} (hx : x ≠ sep) : opened sep (xs ++ [x]) = opened sep xs ++ [x] :=
  opened_append_of_not_mem sep xs (fun h => hx (List.mem_singleton.1 h).symm)

/-- **A list that ends at a separator keeps its pieces apart from what follows.** -/
theorem closed_append {xs : List α} (h : opened sep xs = []) (ys : List α) :
    closed sep (xs ++ ys) = closed sep xs ++ closed sep ys := by
  induction xs using pieces_induction sep with
  | hopen p hp =>
    rw [opened_of_not_mem sep hp] at h
    rw [h, closed_nil]
    rfl
  | hcut p xs hp ih =>
    rw [opened_cut sep xs hp] at h
    rw [List.append_assoc, List.cons_append, closed_cut sep _ hp, closed_cut sep xs hp, ih h, List.cons_append]

/-- **What follows goes on from the open piece.** -/
theorem closed_append_opened (xs ys : List α) :
    closed sep (xs ++ ys) = closed sep xs ++ closed sep (opened sep xs ++ ys) := by
  induction xs using pieces_induction sep with
  | hopen p hp => rw [closed_of_not_mem sep hp, opened_of_not_mem sep hp, List.nil_append]
  | hcut p xs hp ih =>
    rw [List.append_assoc, List.cons_append, closed_cut sep _ hp, closed_cut sep xs hp, opened_cut sep xs hp, ih,
      List.cons_append]

theorem opened_append_opened (xs ys : List α) : opened sep (xs ++ ys) = opened sep (opened sep xs ++ ys) := by
  induction xs using pieces_induction sep with
  | hopen p hp => rw [opened_of_not_mem sep hp]
  | hcut p xs hp ih => rw [List.append_assoc, List.cons_append, opened_cut sep _ hp, opened_cut sep xs hp, ih]

/-- **Pieces written with a separator behind each are read back.** -/
theorem closed_terminated : ∀ ps : List (List α), (∀ p ∈ ps, sep ∉ p) → closed sep (ps.flatMap (· ++ [sep])) = ps
  | [], _ => closed_nil sep
  | p :: ps, h => by
    rw [List.flatMap_cons, List.append_assoc, List.singleton_append, closed_cut sep _ (h p List.mem_cons_self),
      closed_terminated ps (fun q hq => h q (List.mem_cons_of_mem p hq))]

theorem opened_terminated (ps : List (List α)) : opened sep (ps.flatMap (· ++ [sep])) = [] := by
  rcases List.eq_nil_or_concat ps with rfl | ⟨init, p, rfl⟩
  · exact opened_nil sep
  · rw [List.concat_eq_append, List.flatMap_append, List.flatMap_singleton, ← List.append_assoc, opened_snoc_sep]

theorem opened_eq_nil_iff (xs : List α) : opened sep xs = [] ↔ xs = [] ∨ xs.getLast? = some sep := by
  rcases List.eq_nil_or_concat xs with rfl | ⟨ys, y, rfl⟩
  · simp
  · rw [List.concat_eq_append, List.getLast?_concat]
    by_cases hy : y = sep
    · simp [hy, opened_snoc_sep]
    · simp [hy, opened_snoc sep ys hy]

end Split
