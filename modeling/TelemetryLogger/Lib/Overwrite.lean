import Mathlib.Logic.Function.Basic
import Mathlib.Data.List.Basic
/-!
# Overwrite — writes to a map, of which the last at a key stays

`overwrite key value m ws` makes the writes `ws` to `m`, in order.  A key has what its lasting write put there, or what
it had if no write names it (`overwrite_iff`).
-/
namespace Overwrite

variable {α β γ : Type} [DecidableEq α] (key : γ → α) (value : γ → β)

def overwrite (m : α → β) (ws : List γ) : α → β := ws.foldl (fun m w => Function.update m (key w) (value w)) m

/-- The writes whose key no later one names. -/
def lasting : List γ → List γ
  | [] => []
  | w :: ws => if ∃ v ∈ ws, key v = key w then lasting ws else w :: lasting ws

theorem overwrite_append (m : α → β) (ws vs : List γ) :
    overwrite key value m (ws ++ vs) = overwrite key value (overwrite key value m ws) vs := List.foldl_append

theorem overwrite_concat (m : α → β) (ws : List γ) (w : γ) :
    overwrite key value m (ws ++ [w]) = Function.update (overwrite key value m ws) (key w) (value w) :=
  overwrite_append key value m ws [w]

variable {key value}

/-- A key that no write names keeps its value. -/
theorem overwrite_of_not_mem {a : α} : ∀ {ws : List γ} (m : α → β), (∀ w ∈ ws, key w ≠ a) →
    overwrite key value m ws a = m a
  | [], _, _ => rfl
  | w :: ws, m, h => by
    have ih := overwrite_of_not_mem (Function.update m (key w) (value w)) (fun v hv => h v (List.mem_cons_of_mem w hv))
    exact ih.trans (Function.update_of_ne (h w List.mem_cons_self).symm _ _)

/-- **The last write stays.** -/
theorem overwrite_last (m : α → β) (pre : List γ) (w : γ) {post : List γ} (h : ∀ v ∈ post, key v ≠ key w) :
    overwrite key value m (pre ++ w :: post) (key w) = value w := by
  rw [overwrite_append]
  exact (overwrite_of_not_mem _ h).trans (Function.update_self _ _ _)

theorem mem_of_mem_lasting : ∀ {ws : List γ} {w : γ}, w ∈ lasting key ws → w ∈ ws
  | v :: ws, w, h => by
    rw [lasting] at h
    split at h
    · exact List.mem_cons_of_mem v (mem_of_mem_lasting h)
    · exact (List.mem_cons.1 h).elim (fun hw => hw ▸ List.mem_cons_self)
        (fun hw => List.mem_cons_of_mem v (mem_of_mem_lasting hw))

/-- **What holds at a key holds of its lasting write**, or held there before. -/
theorem overwrite_iff {P : β → Prop} (a : α) : ∀ (ws : List γ) (m : α → β), P (overwrite key value m ws a) ↔
    (∃ w ∈ lasting key ws, key w = a ∧ P (value w)) ∨ (∀ w ∈ ws, key w ≠ a) ∧ P (m a)
  | [], m => by simp [overwrite, lasting]
  | w :: ws, m => by
    have ih := overwrite_iff (P := P) a ws (Function.update m (key w) (value w))
    refine Iff.trans ih ?_
    rw [lasting, List.forall_mem_cons]
    by_cases hw : key w = a
    · subst hw
      rw [Function.update_self]
      by_cases hlater : ∃ v ∈ ws, key v = key w
      · rw [if_pos hlater]
        have hnot : ¬ ∀ v ∈ ws, key v ≠ key w := fun h => hlater.elim (fun v hv => h v hv.1 hv.2)
        simp [hnot]
      · rw [if_neg hlater]
        have hnone : ∀ v ∈ ws, key v ≠ key w := fun v hv h => hlater ⟨v, hv, h⟩
        have hlast : ¬ ∃ v ∈ lasting key ws, key v = key w ∧ P (value v) :=
          fun ⟨v, hv, h⟩ => hnone v (mem_of_mem_lasting hv) h.1
        simpa [hlast] using fun _ => hnone
    · rw [Function.update_of_ne (Ne.symm hw)]
      by_cases hlater : ∃ v ∈ ws, key v = key w
      · simp [hlater, hw]
      · simp [hlater, hw]

end Overwrite
