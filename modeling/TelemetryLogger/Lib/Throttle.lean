import Mathlib.Data.List.Chain
/-!
# Throttle — items shown now and then

Each item has a number, and is shown if its number is at least `k` above that of the item shown before it.  Then any two
items shown are `k` apart (`isChain_throttle`), and no item is `k` above the last one shown (`lt_shown_snoc`).
-/
namespace Throttle

variable {α : Type} (k : Nat) (f : α → Nat)

/-- The items shown, after one with the number `last`. -/
def throttle : Nat → List α → List α
  | _, [] => []
  | last, a :: as => if last + k ≤ f a then a :: throttle (f a) as else throttle last as

/-- The number of the last item shown, `last` if there is none. -/
def shown : Nat → List α → Nat
  | last, [] => last
  | last, a :: as => if last + k ≤ f a then shown (f a) as else shown last as

theorem throttle_sublist : ∀ (as : List α) (last : Nat), (throttle k f last as).Sublist as
  | [], _ => List.Sublist.slnil
  | a :: as, last => by
    rw [throttle]
    split
    · exact (throttle_sublist as (f a)).cons_cons a
    · exact (throttle_sublist as last).cons a

/-- **Items shown are apart.** -/
theorem isChain_throttle : ∀ (as : List α) (last : Nat),
    (last :: (throttle k f last as).map f).IsChain (fun m n => m + k ≤ n)
  | [], last => List.isChain_singleton last
  | a :: as, last => by
    rw [throttle]
    split
    · rename_i hle
      exact List.isChain_cons_cons.2 ⟨hle, isChain_throttle as (f a)⟩
    · exact isChain_throttle as last

theorem shown_eq : ∀ (as : List α) (last : Nat),
    shown k f last as = ((throttle k f last as).map f).getLast?.getD last
  | [], _ => rfl
  | a :: as, last => by
    rw [throttle, shown]
    split
    · rw [shown_eq as (f a), List.map_cons, List.getLast?_cons]
      rfl
    · exact shown_eq as last

theorem throttle_append : ∀ (as bs : List α) (last : Nat),
    throttle k f last (as ++ bs) = throttle k f last as ++ throttle k f (shown k f last as) bs
  | [], _, _ => rfl
  | a :: as, bs, last => by
    rw [List.cons_append, throttle, throttle, shown]
    split
    · rw [throttle_append as bs (f a), List.cons_append]
    · exact throttle_append as bs last

theorem shown_snoc (a : α) : ∀ (as : List α) (last : Nat), shown k f last (as ++ [a])
    = if shown k f last as + k ≤ f a then f a else shown k f last as
  | [], last => rfl
  | b :: as, last => by
    rw [List.cons_append, shown, shown]
    split
    · exact shown_snoc a as (f b)
    · exact shown_snoc a as last

/-- **No item is overdue.** -/
theorem lt_shown_snoc {k : Nat} (hk : 0 < k) (as : List α) (a : α) (last : Nat) :
    f a < shown k f last (as ++ [a]) + k := by
  rw [shown_snoc]
  split <;> omega

end Throttle
