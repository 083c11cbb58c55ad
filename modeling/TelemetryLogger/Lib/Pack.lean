import Mathlib.Algebra.GroupWithZero.Nat
import Mathlib.Data.List.Chain
import Mathlib.Data.List.Induction
import Mathlib.Algebra.Order.BigOperators.Group.List
/-!
# Pack — items packed in order, each into the last pack if it fits

`pack size M` starts a new pack when an item would push the last one past `M`.  The result is `Packed` (`packed_pack`),
and it is the only way to cut the items into a `Packed` list of packs (`pack_flatten_of_packed`).
-/
namespace Pack

variable {α : Type} (size : α → Nat) (M : Nat)

/-- What a pack weighs. -/
def load (p : List α) : Nat := (p.map size).sum

def place : List (List α) → α → List (List α)
  | [], a => [[a]]
  | [p], a => if M < load size p + size a then [p, [a]] else [p ++ [a]]
  | p :: q :: ps, a => p :: place (q :: ps) a

def pack (as : List α) : List (List α) := as.foldl (place size M) []

/-- **Packed**: no pack is empty or too heavy, one heavy item apart, and each was closed by an item that did not fit. -/
structure Packed (ps : List (List α)) : Prop where
  filled : ∀ p ∈ ps, p ≠ [] ∧ (load size p ≤ M ∨ ∃ a, p = [a] ∧ M < size a)
  closed : List.IsChain (fun p q => ∀ a ∈ q.head?, M < load size p + size a) ps

theorem load_snoc (p : List α) (a : α) : load size (p ++ [a]) = load size p + size a := by
  simp [load]

theorem load_append (p q : List α) : load size (p ++ q) = load size p + load size q := by
  simp [load]

theorem place_snoc (p : List α) (a : α) : ∀ ps : List (List α), place size M (ps ++ [p]) a
    = if M < load size p + size a then ps ++ [p] ++ [[a]] else ps ++ [p ++ [a]]
  | [] => rfl
  | [q] => by
    show q :: place size M [p] a = _
    rw [place]
    split <;> rfl
  | q :: q' :: ps => by
    have ih := place_snoc p a (q' :: ps)
    show q :: place size M (q' :: ps ++ [p]) a = _
    rw [ih]
    split <;> rfl

theorem pack_snoc (as : List α) (a : α) : pack size M (as ++ [a]) = place size M (pack size M as) a := by
  rw [pack, List.foldl_append]
  rfl

theorem pack_append (as bs : List α) : pack size M (as ++ bs) = bs.foldl (place size M) (pack size M as) :=
  List.foldl_append

/-- **One more item**: a new pack, or the last one with it. -/
theorem place_cases (ps : List (List α)) (a : α) :
    (place size M ps a = ps ++ [[a]] ∧ ∀ p ∈ ps.getLast?, M < load size p + size a) ∨
    ∃ init p, ps = init ++ [p] ∧ load size p + size a ≤ M ∧ place size M ps a = init ++ [p ++ [a]] := by
  rcases List.eq_nil_or_concat ps with rfl | ⟨init, p, rfl⟩
  · exact Or.inl ⟨rfl, fun p hp => (by cases hp)⟩
  · rw [List.concat_eq_append, place_snoc]
    by_cases h : M < load size p + size a
    · rw [if_pos h]
      refine Or.inl ⟨rfl, ?_⟩
      intro p' hp'
      rw [List.getLast?_concat, Option.mem_some_iff] at hp'
      exact hp' ▸ h
    · rw [if_neg h]
      exact Or.inr ⟨init, p, rfl, Nat.not_lt.1 h, rfl⟩

theorem flatten_place (ps : List (List α)) (a : α) : (place size M ps a).flatten = ps.flatten ++ [a] := by
  rcases place_cases size M ps a with ⟨h, -⟩ | ⟨init, p, rfl, -, h⟩
  · rw [h, List.flatten_append]
    rfl
  · rw [h, List.flatten_append, List.flatten_append, List.append_assoc]
    simp

/-- **Nothing is lost, repeated or moved.** -/
theorem flatten_pack (as : List α) : (pack size M as).flatten = as := by
  induction as using List.reverseRecOn with
  | nil => rfl
  | append_singleton as a ih => rw [pack_snoc, flatten_place, ih]

variable {size M}

/-- **Packing by weight commutes with a map** that keeps the weights. -/
theorem place_map {β : Type} (f : β → α) (a : β) : ∀ ps : List (List β),
    place size M (ps.map (List.map f)) (f a) = (place (size ∘ f) M ps a).map (List.map f)
  | [] => rfl
  | [p] => by
    have hload : load size (p.map f) = load (size ∘ f) p := by rw [load, load, List.map_map]
    show place size M [p.map f] (f a) = _
    rw [place, place, hload]
    show (if M < load (size ∘ f) p + size (f a) then _ else _)
      = List.map _ (if M < load (size ∘ f) p + size (f a) then _ else _)
    split
    · rfl
    · rw [List.map_singleton, List.map_append]
      rfl
  | p :: q :: ps => by
    have ih := place_map f a (q :: ps)
    show p.map f :: place size M ((q :: ps).map (List.map f)) (f a) = _
    rw [ih]
    rfl

theorem pack_map {β : Type} (f : β → α) (as : List β) :
    pack size M (as.map f) = (pack (size ∘ f) M as).map (List.map f) := by
  induction as using List.reverseRecOn with
  | nil => rfl
  | append_singleton as a ih =>
    rw [List.map_append, List.map_singleton, pack_snoc, pack_snoc, ih, place_map]

theorem length_le_place (ps : List (List α)) (a : α) : ps.length ≤ (place size M ps a).length := by
  rcases place_cases size M ps a with ⟨h, -⟩ | ⟨init, p, rfl, -, h⟩
  · rw [h, List.length_append]
    exact Nat.le_add_right _ _
  · rw [h, List.length_append, List.length_append]
    exact Nat.le_refl _

/-- **More items do not make fewer packs.** -/
theorem length_pack_le (as bs : List α) : (pack size M as).length ≤ (pack size M (as ++ bs)).length := by
  rw [pack_append]
  induction bs generalizing as with
  | nil => exact Nat.le_refl _
  | cons b bs ih =>
    have hstep := ih (as ++ [b])
    rw [pack_snoc] at hstep
    exact Nat.le_trans (length_le_place _ b) hstep

theorem Packed.place {ps : List (List α)} (h : Packed size M ps) (a : α) : Packed size M (place size M ps a) := by
  rcases place_cases size M ps a with ⟨hplace, hlast⟩ | ⟨init, p, rfl, hfit, hplace⟩
  · rw [hplace]
    constructor
    · intro p hp
      rcases List.mem_append.1 hp with hp | hp
      · exact h.filled p hp
      · obtain rfl := List.mem_singleton.1 hp
        refine ⟨List.cons_ne_nil a [], ?_⟩
        rcases Nat.lt_or_ge M (size a) with hM | hM
        · exact Or.inr ⟨a, rfl, hM⟩
        · exact Or.inl (by simpa [load] using hM)
    · rw [List.isChain_append]
      refine ⟨h.closed, List.isChain_singleton _, ?_⟩
      rintro p hp q ⟨⟩ b ⟨⟩
      exact hlast p hp
  · rw [hplace]
    obtain ⟨hinit, -, hjoin⟩ := List.isChain_append.1 h.closed
    have hp := (h.filled p (List.mem_append_right init (List.mem_singleton_self p))).1
    constructor
    · intro q hq
      rcases List.mem_append.1 hq with hq | hq
      · exact h.filled q (List.mem_append_left _ hq)
      · obtain rfl := List.mem_singleton.1 hq
        refine ⟨by simp, Or.inl ?_⟩
        rw [load_snoc]
        exact hfit
    · rw [List.isChain_append]
      refine ⟨hinit, List.isChain_singleton _, ?_⟩
      rintro q hq _ ⟨⟩ b hb
      refine hjoin q hq p rfl b ?_
      rwa [List.head?_append_of_ne_nil p hp] at hb

theorem packed_pack (as : List α) : Packed size M (pack size M as) := by
  induction as using List.reverseRecOn with
  | nil => exact ⟨fun p hp => absurd hp List.not_mem_nil, List.isChain_nil⟩
  | append_singleton as a ih =>
    rw [pack_snoc]
    exact ih.place a

/-- Items that all fit go into the last pack. -/
theorem foldl_place_of_fits (init : List (List α)) : ∀ (as p : List α), load size (p ++ as) ≤ M →
    as.foldl (place size M) (init ++ [p]) = init ++ [p ++ as]
  | [], p, _ => by rw [List.append_nil]; rfl
  | a :: as, p, h => by
    have hsplit : p ++ a :: as = p ++ [a] ++ as := by simp
    have hle : load size (p ++ [a]) ≤ load size (p ++ a :: as) := by
      rw [hsplit, load_append size (p ++ [a])]
      exact Nat.le_add_right _ _
    rw [load_snoc] at hle
    rw [List.foldl_cons, place_snoc, if_neg (by omega), foldl_place_of_fits init as (p ++ [a]) (hsplit ▸ h), hsplit]

/-- **Packs determine the packing.** -/
theorem pack_flatten_of_packed {ps : List (List α)} (h : Packed size M ps) : pack size M ps.flatten = ps := by
  induction ps using List.reverseRecOn with
  | nil => rfl
  | append_singleton init p ih =>
    obtain ⟨hinit, -, hjoin⟩ := List.isChain_append.1 h.closed
    have hfilled := h.filled p (List.mem_append_right init (List.mem_singleton_self p))
    rw [List.flatten_append, List.flatten_singleton, pack_append,
      ih ⟨fun q hq => h.filled q (List.mem_append_left _ hq), hinit⟩]
    obtain ⟨a, rest, rfl⟩ := List.exists_cons_of_ne_nil hfilled.1
    have hnew : place size M init a = init ++ [[a]] := by
      rcases place_cases size M init a with ⟨hplace, -⟩ | ⟨init', q, rfl, hfit, -⟩
      · exact hplace
      · exact absurd (hjoin q (by simp) (a :: rest) rfl a rfl) (Nat.not_lt.2 hfit)
    rw [List.foldl_cons, hnew]
    rcases hfilled.2 with hle | ⟨b, hb, -⟩
    · exact foldl_place_of_fits init rest [a] hle
    · obtain ⟨rfl, rfl⟩ := List.cons.inj hb
      rfl

/-- **Items that are too heavy are packed one by one.** -/
theorem pack_of_heavy {as : List α} (h : ∀ a ∈ as, M < size a) : pack size M as = as.map (fun a => [a]) := by
  have hpacked : Packed size M (as.map (fun a => [a])) := by
    constructor
    · intro p hp
      obtain ⟨a, ha, rfl⟩ := List.mem_map.1 hp
      exact ⟨List.cons_ne_nil a [], Or.inr ⟨a, rfl, h a ha⟩⟩
    · rw [List.isChain_map]
      apply List.Pairwise.isChain
      apply List.pairwise_of_forall_mem_list
      rintro a - b hb _ ⟨⟩
      exact Nat.lt_of_lt_of_le (h b hb) (Nat.le_add_left _ _)
  have hflatten : (as.map (fun a => [a])).flatten = as := by
    rw [← List.flatMap_def]
    exact List.flatMap_singleton' as
  have hpack := pack_flatten_of_packed hpacked
  rwa [hflatten] at hpack

end Pack
