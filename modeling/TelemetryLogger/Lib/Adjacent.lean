import Mathlib.Data.List.Chain
/-!
# Adjacent — what holds between neighbours in a list

`breaks R l` counts the neighbours of `l` that are not related by `R`, and `followers` leaves out the second of each.
Leaving elements out adds at most one break for each (`breaks_sublist`), and the elements that meet `p` follow one
another by `R` exactly when any two with none between them do (`isChain_filter_iff`).
-/
namespace Adjacent

variable {α : Type} (R : α → α → Prop)

section Breaks

variable [DecidableRel R]

def breaks : List α → Nat
  | [] => 0
  | [_] => 0
  | a :: b :: l => (if R a b then 0 else 1) + breaks (b :: l)

theorem breaks_le_cons (a : α) : ∀ l : List α, breaks R l ≤ breaks R (a :: l)
  | [] => Nat.le_refl 0
  | _ :: _ => Nat.le_add_left _ _

theorem breaks_cons_le (a : α) : ∀ l : List α, breaks R (a :: l) ≤ breaks R l + 1
  | [] => Nat.zero_le 1
  | b :: l => by
    rw [breaks]
    split <;> omega

/-- **One more element at the end** makes at most one more break. -/
theorem breaks_snoc (a : α) : ∀ l : List α,
    breaks R (l ++ [a]) = breaks R l + if ∀ b ∈ l.getLast?, R b a then 0 else 1
  | [] => by simp [breaks]
  | [b] => by simp [breaks]
  | b :: b' :: l => by
    have ih := breaks_snoc a (b' :: l)
    rw [List.cons_append] at ih
    rw [List.cons_append, List.cons_append, breaks, ih, breaks, List.getLast?_cons_cons, Nat.add_assoc]

theorem breaks_append_le (m : List α) : ∀ l : List α, breaks R l ≤ breaks R (l ++ m)
  | [] => Nat.zero_le _
  | [_] => Nat.zero_le _
  | _ :: b :: l => Nat.add_le_add_left (breaks_append_le m (b :: l)) _

/-- **Elements left out** make at most one break each. -/
theorem breaks_sublist : ∀ {l s : List α}, s.Sublist l → breaks R s + s.length ≤ breaks R l + l.length
  | [], _, h => by
    rw [List.sublist_nil.1 h]
  | a :: l, s, h => by
    cases h with
    | cons _ h =>
      have ih := breaks_sublist h
      have hmono := breaks_le_cons R a l
      rw [List.length_cons]
      omega
    | cons_cons _ h =>
      rename_i s
      rw [List.length_cons, List.length_cons]
      cases h with
      | slnil => exact Nat.le_refl _
      | cons b h =>
        rename_i l
        have ih := breaks_sublist h
        have hs := breaks_cons_le R a s
        have hl := breaks_le_cons R b l
        have hl' := breaks_le_cons R a (b :: l)
        rw [List.length_cons]
        omega
      | cons_cons b h =>
        have ih := breaks_sublist (h.cons_cons b)
        rw [breaks, breaks]
        omega

theorem breaks_eq_zero : ∀ {l : List α}, List.IsChain R l → breaks R l = 0
  | [], _ => rfl
  | [_], _ => rfl
  | _ :: _ :: _, h => by
    rw [List.isChain_cons_cons] at h
    rw [breaks, if_pos h.1, breaks_eq_zero h.2]

theorem breaks_map {β : Type} (g : β → α) : ∀ l : List β,
    breaks (fun a b => R (g a) (g b)) l = breaks R (l.map g)
  | [] => rfl
  | [_] => rfl
  | a :: b :: l => congrArg ((if R (g a) (g b) then 0 else 1) + ·) (breaks_map g (b :: l))

/-- **Copies of an element not related to itself** are breaks. -/
theorem breaks_replicate {a : α} (ha : ¬ R a a) (l : List α) : ∀ k : Nat,
    breaks R (List.replicate (k + 1) a ++ l) = k + breaks R (a :: l)
  | 0 => (Nat.zero_add _).symm
  | k + 1 => by
    rw [List.replicate_succ, List.replicate_succ, List.cons_append, List.cons_append, breaks, if_neg ha,
      ← List.cons_append, ← List.replicate_succ, breaks_replicate ha l k]
    omega

/-- The elements related to the one before them.  With none before it an element counts. -/
def followers : Option α → List α → List α
  | _, [] => []
  | prev, a :: l => if ∀ b ∈ prev, R b a then a :: followers (some a) l else followers (some a) l

theorem length_followers : ∀ (prev : Option α) (l : List α),
    (followers R prev l).length + breaks R (prev.toList ++ l) = l.length
  | none, [] => rfl
  | some _, [] => rfl
  | none, a :: l => by
    have ih := length_followers (some a) l
    rw [followers, if_pos (fun b hb => by cases hb), List.length_cons, List.length_cons, ← ih]
    exact Nat.succ_add _ _
  | some b, a :: l => by
    have ih := length_followers (some a) l
    have hiff : (∀ b' ∈ some b, R b' a) ↔ R b a := by simp
    rw [Option.toList_some, List.singleton_append] at ih ⊢
    rw [followers, breaks, List.length_cons, ← ih]
    by_cases h : R b a
    · rw [if_pos (hiff.2 h), if_pos h, List.length_cons]
      omega
    · rw [if_neg (mt hiff.1 h), if_neg h]
      omega

theorem followers_sublist : ∀ (prev : Option α) (l : List α), (followers R prev l).Sublist l
  | _, [] => by
    rw [followers]
  | _, a :: l => by
    have ih := followers_sublist (some a) l
    rw [followers]
    split
    · exact ih.cons_cons a
    · exact ih.cons a

end Breaks

/-- **A filtered list is a chain** exactly when its elements with nothing kept between them are related. -/
theorem isChain_filter_iff (p : α → Bool) : ∀ l : List α, List.IsChain R (l.filter p) ↔
    ∀ pre a mid b post, l = pre ++ a :: (mid ++ b :: post) → p a = true → p b = true → (∀ u ∈ mid, p u = false) → R a b
  | [] => by simp
  | x :: l => by
    have ih := isChain_filter_iff p l
    by_cases hx : p x = true
    · have hhead : (∀ y ∈ (l.filter p).head?, R x y) ↔
          ∀ mid b post, l = mid ++ b :: post → p b = true → (∀ u ∈ mid, p u = false) → R x b := by
        rw [List.head?_filter]
        constructor
        · intro h mid b post hl hb hmid
          apply h b
          rw [Option.mem_def, List.find?_eq_some_iff_append]
          exact ⟨hb, mid, post, hl, fun u hu => by simp [hmid u hu]⟩
        · intro h y hy
          rw [Option.mem_def, List.find?_eq_some_iff_append] at hy
          obtain ⟨hb, mid, post, hl, hmid⟩ := hy
          exact h mid y post hl hb (fun u hu => by simpa using hmid u hu)
      rw [List.filter_cons_of_pos hx, List.isChain_cons, hhead, ih]
      constructor
      · rintro ⟨hfirst, hrest⟩ pre a mid b post hl
        cases pre with
        | nil =>
          obtain ⟨rfl, htail⟩ := List.cons.inj hl
          exact fun _ hb hmid => hfirst mid b post htail hb hmid
        | cons _ pre => exact hrest pre a mid b post (List.cons.inj hl).2
      · intro h
        constructor
        · intro mid b post hl hb hmid
          exact h [] x mid b post (by rw [hl]; rfl) hx hb hmid
        · intro pre a mid b post hl
          exact h (x :: pre) a mid b post (by rw [hl]; rfl)
    · rw [List.filter_cons_of_neg hx, ih]
      constructor
      · intro h pre a mid b post hl ha
        cases pre with
        | nil =>
          obtain ⟨rfl, -⟩ := List.cons.inj hl
          exact absurd ha hx
        | cons _ pre => exact h pre a mid b post (List.cons.inj hl).2 ha
      · intro h pre a mid b post hl
        exact h (x :: pre) a mid b post (by rw [hl]; rfl)

end Adjacent
