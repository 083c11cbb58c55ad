import Mathlib.Data.List.Basic
/-!
# Machine — runs of a machine that answers every input

`run step s as` feeds `as` to a machine one at a time: the state it ends in and its answers, in order.  Two machines in
step answer alike (`run_sim`).
-/
namespace Machine

variable {σ τ α β : Type}

def run (step : σ → α → σ × β) : σ → List α → σ × List β
  | s, [] => (s, [])
  | s, a :: as => ((run step (step s a).1 as).1, (step s a).2 :: (run step (step s a).1 as).2)

variable (step : σ → α → σ × β)

theorem run_cons (s : σ) (a : α) (as : List α) :
    run step s (a :: as) = ((run step (step s a).1 as).1, (step s a).2 :: (run step (step s a).1 as).2) := rfl

/-- **A run is a run of its first part, then of the rest.** -/
theorem run_append : ∀ (as bs : List α) (s : σ),
    run step s (as ++ bs) = ((run step (run step s as).1 bs).1, (run step s as).2 ++ (run step (run step s as).1 bs).2)
  | [], bs, s => rfl
  | a :: as, bs, s => by
    rw [List.cons_append, run_cons, run_append as bs, run_cons]
    rfl

theorem run_append_fst (as bs : List α) (s : σ) :
    (run step s (as ++ bs)).1 = (run step (run step s as).1 bs).1 := by
  rw [run_append]

theorem run_append_snd (as bs : List α) (s : σ) :
    (run step s (as ++ bs)).2 = (run step s as).2 ++ (run step (run step s as).1 bs).2 := by
  rw [run_append]

theorem run_snoc_fst (as : List α) (a : α) (s : σ) : (run step s (as ++ [a])).1 = (step (run step s as).1 a).1 := by
  rw [run_append]
  rfl

theorem run_snoc_snd (as : List α) (a : α) (s : σ) :
    (run step s (as ++ [a])).2 = (run step s as).2 ++ [(step (run step s as).1 a).2] := by
  rw [run_append]
  rfl

/-- The answers that are there, with one input more. -/
theorem filterMap_run_snoc (step : σ → α → σ × Option β) (as : List α) (a : α) (s : σ) :
    (run step s (as ++ [a])).2.filterMap id
      = (run step s as).2.filterMap id ++ (step (run step s as).1 a).2.toList := by
  rw [run_snoc_snd, List.filterMap_append]
  cases (step (run step s as).1 a).2 <;> rfl

@[simp] theorem length_run : ∀ (as : List α) (s : σ), (run step s as).2.length = as.length
  | [], _ => rfl
  | a :: as, s => by rw [run_cons, List.length_cons, List.length_cons, length_run as]

theorem run_fst_eq_foldl : ∀ (as : List α) (s : σ), (run step s as).1 = as.foldl (fun s a => (step s a).1) s
  | [], _ => rfl
  | a :: as, s => by rw [run_cons, List.foldl_cons, run_fst_eq_foldl as]

/-- **An invariant of the step is an invariant of the run.** -/
theorem run_invariant {I : σ → Prop} (hstep : ∀ s a, I s → I (step s a).1) (as : List α) (s : σ) (hs : I s) :
    I (run step s as).1 := by
  rw [run_fst_eq_foldl]
  exact List.foldlRecOn as _ hs (fun s hs a _ => hstep s a hs)

/-- **Machines in step answer alike.** -/
theorem run_sim {step' : τ → α → τ × β} {R : σ → τ → Prop}
    (hstep : ∀ s t a, R s t → R (step s a).1 (step' t a).1 ∧ (step s a).2 = (step' t a).2) :
    ∀ (as : List α) (s : σ) (t : τ), R s t →
      R (run step s as).1 (run step' t as).1 ∧ (run step s as).2 = (run step' t as).2
  | [], _, _, h => ⟨h, rfl⟩
  | a :: as, s, t, h => by
    obtain ⟨h1, h2⟩ := hstep s t a h
    obtain ⟨h3, h4⟩ := run_sim hstep as _ _ h1
    rw [run_cons, run_cons]
    exact ⟨h3, by rw [h2, h4]⟩

end Machine
