import Mathlib.Algebra.Group.Nat.Defs
import Mathlib.Data.Char
import Mathlib.Data.List.Lex
import Mathlib.Tactic.Tauto
/-!
# Decimal — numbers in decimal, compared as text

Digits of one length compare as their numbers do (`lt_iff_value_lt`).  When the longer of two has a character below the
digits behind it, the shorter is first exactly if its number is at most the longer one's first digits (`stop_lt_iff`).
-/
namespace Decimal

def value (ds : List Char) : Nat := Nat.ofDigitChars 10 ds 0

def Digits (ds : List Char) : Prop := ∀ c ∈ ds, c.isDigit = true

/-- The number in decimal, with zeros in front of it up to `w` digits. -/
def pad (w n : Nat) : List Char := List.replicate (w - (Nat.toDigits 10 n).length) '0' ++ Nat.toDigits 10 n

def width (w n : Nat) : Nat := max w (Nat.toDigits 10 n).length

/-! ## Digits and values -/

theorem value_append (xs ys : List Char) : value (xs ++ ys) = 10 ^ ys.length * value xs + value ys := by
  rw [value, Nat.ofDigitChars_append, Nat.ofDigitChars_eq_ofDigitChars_zero]
  rfl

theorem value_cons (c : Char) (ds : List Char) : value (c :: ds) = 10 ^ ds.length * (c.toNat - 48) + value ds := by
  rw [value, Nat.ofDigitChars_cons, Nat.ofDigitChars_eq_ofDigitChars_zero]
  simp [value]

theorem digit_le {c : Char} (h : c.isDigit = true) : 48 ≤ c.toNat ∧ c.toNat ≤ 57 := Char.isDigit_iff_toNat.1 h

theorem Digits.cons {c : Char} {ds : List Char} (h : Digits (c :: ds)) : c.isDigit = true ∧ Digits ds :=
  ⟨h c List.mem_cons_self, fun d hd => h d (List.mem_cons_of_mem c hd)⟩

theorem value_lt : ∀ {ds : List Char}, Digits ds → value ds < 10 ^ ds.length
  | [], _ => Nat.one_pos
  | c :: ds, h => by
    obtain ⟨hc, hds⟩ := h.cons
    have ih := value_lt hds
    have hle := (digit_le hc).2
    have hmul : 10 ^ ds.length * (c.toNat - 48) ≤ 10 ^ ds.length * 9 := Nat.mul_le_mul_left _ (by omega)
    rw [value_cons, List.length_cons, Nat.pow_succ]
    omega

theorem char_lt_iff (c d : Char) : c < d ↔ c.toNat < d.toNat := UInt32.lt_iff_toNat_lt

/-- **Digits of one length compare as their numbers do.** -/
theorem lt_iff_value_lt : ∀ {xs ys : List Char}, Digits xs → Digits ys → xs.length = ys.length →
    (xs < ys ↔ value xs < value ys)
  | [], [], _, _, _ => by simp [value]
  | c :: xs, d :: ys, hx, hy, hlen => by
    obtain ⟨hc, hx⟩ := hx.cons
    obtain ⟨hd, hy⟩ := hy.cons
    have hlen := Nat.succ.inj hlen
    have ih := lt_iff_value_lt hx hy hlen
    have hvx := value_lt hx
    have hvy := value_lt hy
    have hc := digit_le hc
    have hd := digit_le hd
    rw [List.cons_lt_cons_iff, value_cons, value_cons, ih, char_lt_iff, ← hlen] at *
    rcases Nat.lt_trichotomy c.toNat d.toNat with h | h | h
    · have hmul : 10 ^ xs.length * (c.toNat - 48 + 1) ≤ 10 ^ xs.length * (d.toNat - 48) :=
        Nat.mul_le_mul_left _ (by omega)
      rw [Nat.mul_add, Nat.mul_one] at hmul
      exact iff_of_true (Or.inl h) (by omega)
    · simp [Char.toNat_inj.1 h]
    · have hmul : 10 ^ xs.length * (d.toNat - 48 + 1) ≤ 10 ^ xs.length * (c.toNat - 48) :=
        Nat.mul_le_mul_left _ (by omega)
      rw [Nat.mul_add, Nat.mul_one] at hmul
      apply iff_of_false
      · rintro (hlt | ⟨heq, -⟩)
        · omega
        · rw [heq] at h
          exact absurd h (Nat.lt_irrefl _)
      · omega

/-! ## Text that goes on -/

/-- The first texts decide, unless they are the same. -/
theorem append_lt_append_iff (s t : List Char) : ∀ {xs ys : List Char}, xs.length = ys.length →
    (xs ++ s < ys ++ t ↔ xs < ys ∨ xs = ys ∧ s < t)
  | [], [], _ => by simp
  | c :: xs, d :: ys, h => by
    have ih := append_lt_append_iff s t (Nat.succ.inj h)
    rw [List.cons_append, List.cons_append, List.cons_lt_cons_iff, List.cons_lt_cons_iff, ih, List.cons.injEq]
    tauto

theorem value_injective : ∀ {xs ys : List Char}, Digits xs → Digits ys → xs.length = ys.length →
    value xs = value ys → xs = ys := by
  intro xs ys hx hy hlen hvalue
  rcases lt_trichotomy xs ys with h | h | h
  · exact absurd hvalue (Nat.ne_of_lt ((lt_iff_value_lt hx hy hlen).1 h))
  · exact h
  · exact absurd hvalue.symm (Nat.ne_of_lt ((lt_iff_value_lt hy hx hlen.symm).1 h))

/-- **A shorter number is first exactly if it is at most the first digits of the longer**, when a character below the
digits follows. -/
theorem stop_lt_iff {stop : Char} (hstop : stop.toNat < 48) (t : List Char) {xs ys : List Char} (hx : Digits xs)
    (hy : Digits ys) (hlen : xs.length ≤ ys.length) (hne : value xs ≠ value ys) :
    xs ++ stop :: t < ys ++ stop :: t ↔ value xs ≤ value ys / 10 ^ (ys.length - xs.length) := by
  obtain ⟨as, bs, rfl, has⟩ : ∃ as bs, ys = as ++ bs ∧ xs.length = as.length :=
    ⟨ys.take xs.length, ys.drop xs.length, (List.take_append_drop _ _).symm, by simp [hlen]⟩
  have hda : Digits as := fun c hc => hy c (List.mem_append_left _ hc)
  have hdb : Digits bs := fun c hc => hy c (List.mem_append_right _ hc)
  have hdiv : value (as ++ bs) / 10 ^ ((as ++ bs).length - xs.length) = value as := by
    rw [List.length_append, has, Nat.add_sub_cancel_left, value_append,
      Nat.mul_add_div (Nat.pow_pos (by decide)), Nat.div_eq_of_lt (value_lt hdb), Nat.add_zero]
  rw [hdiv, List.append_assoc, append_lt_append_iff _ _ has, lt_iff_value_lt hx hda has]
  constructor
  · rintro (h | ⟨rfl, -⟩)
    · exact Nat.le_of_lt h
    · exact Nat.le_refl _
  · intro h
    rcases Nat.lt_or_eq_of_le h with h | h
    · exact Or.inl h
    · refine Or.inr ⟨value_injective hx hda has h, ?_⟩
      cases bs with
      | nil =>
        rw [List.append_nil] at hne
        exact absurd h hne
      | cons b bs =>
        rw [List.cons_append, List.cons_lt_cons_iff, char_lt_iff]
        exact Or.inl (Nat.lt_of_lt_of_le hstop (digit_le (hdb b List.mem_cons_self)).1)

/-! ## Padded numbers -/

theorem digits_pad (w n : Nat) : Digits (pad w n) := by
  intro c hc
  rcases List.mem_append.1 hc with hc | hc
  · rw [List.eq_of_mem_replicate hc]
    rfl
  · exact Nat.isDigit_of_mem_toDigits (by decide) (by decide) hc

theorem value_pad (w n : Nat) : value (pad w n) = n := by
  rw [pad, value_append, value, Nat.ofDigitChars_replicate_zero, value, Nat.ofDigitChars_ten_toDigits]
  simp

theorem length_pad (w n : Nat) : (pad w n).length = width w n := by
  rw [pad, List.length_append, List.length_replicate, width]
  omega

theorem width_of_lt {w n : Nat} (hw : 0 < w) (h : n < 10 ^ w) : width w n = w :=
  max_eq_left ((Nat.length_toDigits_le_iff (by decide) hw).2 h)

theorem width_mono (w : Nat) {m n : Nat} (h : m ≤ n) : width w m ≤ width w n := by
  have hlt := (Nat.length_toDigits_le_iff (by decide : 1 < 10) (Nat.length_toDigits_pos (b := 10) (n := n))).1
    (Nat.le_refl _)
  have hle : (Nat.toDigits 10 m).length ≤ (Nat.toDigits 10 n).length :=
    (Nat.length_toDigits_le_iff (by decide) Nat.length_toDigits_pos).2 (Nat.lt_of_le_of_lt h hlt)
  unfold width
  omega

/-- **Padded numbers as text**: `m` is before a greater `n` exactly if it is at most the first digits of `n`. -/
theorem pad_lt_iff {stop : Char} (hstop : stop.toNat < 48) (t : List Char) (w : Nat) {m n : Nat} (h : m < n) :
    pad w m ++ stop :: t < pad w n ++ stop :: t ↔ m ≤ n / 10 ^ (width w n - width w m) := by
  have hlen : (pad w m).length ≤ (pad w n).length := by
    rw [length_pad, length_pad]
    exact width_mono w (Nat.le_of_lt h)
  have hne : value (pad w m) ≠ value (pad w n) := by
    rw [value_pad, value_pad]
    exact Nat.ne_of_lt h
  rw [stop_lt_iff hstop t (digits_pad w m) (digits_pad w n) hlen hne, value_pad, value_pad, length_pad, length_pad]

end Decimal
