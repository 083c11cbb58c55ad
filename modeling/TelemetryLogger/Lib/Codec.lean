import TelemetryLogger.Lib.Heapless
import Mathlib.Algebra.Group.Nat.Defs
/-!
# Codec — self-delimiting byte formats

A `Format` writes a value as bytes and reads one back from the front of a byte string.  It carries its two laws: reading
undoes writing whatever follows, and what follows a value that was read does not change what was read.  So a format's
encodings are prefix-free (`de_eq_none_of_cut`), and a format is built from smaller ones (`pair`, `iso`, `variant`)
without proving the laws again.
-/
namespace Codec

structure Format (α : Type) where
  ser : α → List UInt8
  de : List UInt8 → Option (α × List UInt8)
  de_ser : ∀ (a : α) (rest : List UInt8), de (ser a ++ rest) = some (a, rest)
  de_append : ∀ (bs : List UInt8) (a : α) (rest more : List UInt8),
    de bs = some (a, rest) → de (bs ++ more) = some (a, rest ++ more)

namespace Format

variable {α β : Type}

def fromBytes (F : Format α) (bs : List UInt8) : Option α := (F.de bs).map Prod.fst

theorem de_ser_nil (F : Format α) (a : α) : F.de (F.ser a) = some (a, []) := by
  have := F.de_ser a []
  rwa [List.append_nil] at this

theorem fromBytes_ser (F : Format α) (a : α) : F.fromBytes (F.ser a) = some a := by
  rw [fromBytes, F.de_ser_nil]
  rfl

/-- **What follows an encoding is not looked at.** -/
theorem fromBytes_ser_append (F : Format α) (a : α) (more : List UInt8) : F.fromBytes (F.ser a ++ more) = some a := by
  rw [fromBytes, F.de_ser]
  rfl

/-- **A cut encoding is not read**: no encoding begins with another value's. -/
theorem de_eq_none_of_cut (F : Format α) {a : α} {p t : List UInt8} (ht : t ≠ []) (hpt : p ++ t = F.ser a) :
    F.de p = none := by
  cases hp : F.de p with
  | none => rfl
  | some r =>
    obtain ⟨a', rest⟩ := r
    have := F.de_append p a' rest t hp
    rw [hpt, F.de_ser_nil, Option.some.injEq, Prod.mk.injEq] at this
    exact absurd (List.append_eq_nil_iff.1 this.2.symm).2 ht

theorem fromBytes_eq_none_of_cut (F : Format α) {a : α} {p t : List UInt8} (ht : t ≠ []) (hpt : p ++ t = F.ser a) :
    F.fromBytes p = none := by
  rw [fromBytes, F.de_eq_none_of_cut ht hpt]
  rfl

/-! ## Combining formats -/

def pair (F : Format α) (G : Format β) : Format (α × β) where
  ser x := F.ser x.1 ++ G.ser x.2
  de bs := (F.de bs).bind (fun r => (G.de r.2).map (fun q => ((r.1, q.1), q.2)))
  de_ser x rest := by
    rw [List.append_assoc, F.de_ser, Option.bind_some, G.de_ser]
    rfl
  de_append bs x rest more h := by
    obtain ⟨⟨a, r⟩, hF, hG⟩ := Option.bind_eq_some_iff.1 h
    obtain ⟨⟨b, q⟩, hq, ⟨⟩⟩ := Option.map_eq_some_iff.1 hG
    rw [F.de_append bs a r more hF, Option.bind_some, G.de_append r b q more hq]
    rfl

def iso (F : Format α) (f : α → β) (g : β → α) (hfg : ∀ b, f (g b) = b) : Format β where
  ser b := F.ser (g b)
  de bs := (F.de bs).map (fun r => (f r.1, r.2))
  de_ser b rest := by
    rw [F.de_ser, Option.map_some, hfg]
  de_append bs b rest more h := by
    obtain ⟨⟨a, r⟩, hF, ⟨⟩⟩ := Option.map_eq_some_iff.1 h
    rw [F.de_append bs a r more hF]
    rfl

/-- A value after the tag `t`; any other tag is refused. -/
def variant {τ : Type} [DecidableEq τ] (T : Format τ) (t : τ) (F : Format α) : Format α where
  ser a := T.ser t ++ F.ser a
  de bs := (T.de bs).bind (fun r => if r.1 = t then F.de r.2 else none)
  de_ser a rest := by
    rw [List.append_assoc, T.de_ser, Option.bind_some, if_pos rfl, F.de_ser]
  de_append bs a rest more h := by
    obtain ⟨⟨t', r⟩, hT, hF⟩ := Option.bind_eq_some_iff.1 h
    rw [T.de_append bs t' r more hT, Option.bind_some]
    split at hF
    · rename_i ht
      rw [if_pos ht, F.de_append r a rest more hF]
    · cases hF

/-- **Another tag is refused**, whatever follows it. -/
theorem de_variant_of_ne {τ : Type} [DecidableEq τ] {T : Format τ} {t t' : τ} (F : Format α) {bs rest : List UInt8}
    (h : T.de bs = some (t', rest)) (ht : t' ≠ t) : (T.variant t F).de bs = none := by
  show (T.de bs).bind (fun r => if r.1 = t then F.de r.2 else none) = none
  rw [h, Option.bind_some, if_neg ht]

end Format

/-! ## Bytes and variable-length numbers -/

def u8 : Format UInt8 where
  ser b := [b]
  de | [] => none
     | b :: bs => some (b, bs)
  de_ser _ _ := rfl
  de_append bs a rest more h := by
    cases bs with
    | nil => cases h
    | cons b bs =>
      simp only [Option.some.injEq, Prod.mk.injEq] at h
      rw [← h.1, ← h.2]
      rfl

/-- Seven bits a byte, least significant first, the high bit set on every byte but the last; at most `k` bytes. -/
def varintSer : Nat → Nat → List UInt8
  | 0, _ => []
  | k + 1, n => if n < 128 then [UInt8.ofNat n] else UInt8.ofNat (n % 128 + 128) :: varintSer k (n / 128)

/-- At most `k` bytes, the last of a full-length one at most `top`. -/
def varintDe (top : Nat) : Nat → List UInt8 → Option (Nat × List UInt8)
  | 0, _ => none
  | _ + 1, [] => none
  | k + 1, b :: bs =>
    if b.toNat < 128 then (if k = 0 ∧ top < b.toNat then none else some (b.toNat, bs))
    else (varintDe top k bs).map (fun r => (b.toNat - 128 + 128 * r.1, r.2))

theorem varintDe_ser (top : Nat) (rest : List UInt8) : ∀ k n : Nat, n < 128 ^ k * (top + 1) → top < 128 →
    varintDe top (k + 1) (varintSer (k + 1) n ++ rest) = some (n, rest)
  | k, n, hn, htop => by
    rw [varintSer]
    by_cases h : n < 128
    · have hb : (UInt8.ofNat n).toNat = n := by rw [UInt8.toNat_ofNat']; omega
      rw [if_pos h, List.singleton_append, varintDe, hb, if_pos h, if_neg]
      rintro ⟨rfl, ht⟩
      simp at hn
      omega
    · have hb : (UInt8.ofNat (n % 128 + 128)).toNat = n % 128 + 128 := by rw [UInt8.toNat_ofNat']; omega
      rw [if_neg h, List.cons_append, varintDe, hb, if_neg (by omega)]
      cases k with
      | zero => simp at hn; omega
      | succ k =>
        have hdiv : n / 128 < 128 ^ k * (top + 1) := by
          rw [Nat.div_lt_iff_lt_mul (by decide)]
          rw [Nat.pow_succ] at hn
          calc n < 128 ^ k * 128 * (top + 1) := hn
            _ = 128 ^ k * (top + 1) * 128 := by rw [Nat.mul_right_comm]
        rw [varintDe_ser top rest k (n / 128) hdiv htop, Option.map_some]
        simp only [Option.some.injEq, Prod.mk.injEq, and_true]
        omega

theorem varintDe_append (top : Nat) (more : List UInt8) : ∀ (k : Nat) (bs : List UInt8) (n : Nat) (rest : List UInt8),
    varintDe top k bs = some (n, rest) → varintDe top k (bs ++ more) = some (n, rest ++ more)
  | 0, _, _, _, h => by cases h
  | _ + 1, [], _, _, h => by cases h
  | k + 1, b :: bs, n, rest, h => by
    rw [varintDe] at h
    rw [List.cons_append, varintDe]
    by_cases hb : b.toNat < 128
    · rw [if_pos hb] at h ⊢
      split at h
      · cases h
      · rename_i ht
        simp only [Option.some.injEq, Prod.mk.injEq] at h
        rw [if_neg ht, ← h.1, ← h.2]
    · rw [if_neg hb] at h ⊢
      obtain ⟨⟨m, r⟩, hr, ⟨⟩⟩ := Option.map_eq_some_iff.1 h
      rw [varintDe_append top more k bs m r hr]
      rfl

theorem length_varintSer_le : ∀ k n : Nat, (varintSer k n).length ≤ k
  | 0, _ => by simp [varintSer]
  | k + 1, n => by
    rw [varintSer]
    split
    · simp
    · have := length_varintSer_le k (n / 128)
      rw [List.length_cons]
      omega

theorem length_varintSer_lt : ∀ (j k n : Nat), n < 128 ^ j → 0 < j → (varintSer k n).length ≤ j
  | _, 0, _, _, _ => by simp [varintSer]
  | j, k + 1, n, hn, hj => by
    rw [varintSer]
    split
    · exact hj
    · rename_i h
      cases j with
      | zero => omega
      | succ j =>
        cases j with
        | zero => simp at hn; omega
        | succ j =>
          have := length_varintSer_lt (j + 1) k (n / 128)
            (by rw [Nat.div_lt_iff_lt_mul (by decide)]; rwa [Nat.pow_succ] at hn) (by omega)
          rw [List.length_cons]
          omega

/-- A 32-bit number: at most 5 bytes, the fifth at most 15. -/
def varintU32 : Format UInt32 where
  ser x := varintSer 5 x.toNat
  de bs := (varintDe 15 5 bs).map (fun r => (UInt32.ofNat r.1, r.2))
  de_ser x rest := by
    rw [varintDe_ser 15 rest 4 x.toNat (by have := x.toNat_lt; omega) (by decide), Option.map_some, UInt32.ofNat_toNat]
  de_append bs x rest more h := by
    obtain ⟨⟨n, r⟩, hn, ⟨⟩⟩ := Option.map_eq_some_iff.1 h
    rw [varintDe_append 15 more 5 bs n r hn]
    rfl

/-- A 64-bit number: at most 10 bytes, the tenth at most 1. -/
def varintU64 : Format UInt64 where
  ser x := varintSer 10 x.toNat
  de bs := (varintDe 1 10 bs).map (fun r => (UInt64.ofNat r.1, r.2))
  de_ser x rest := by
    rw [varintDe_ser 1 rest 9 x.toNat (by have := x.toNat_lt; omega) (by decide), Option.map_some, UInt64.ofNat_toNat]
  de_append bs x rest more h := by
    obtain ⟨⟨n, r⟩, hn, ⟨⟩⟩ := Option.map_eq_some_iff.1 h
    rw [varintDe_append 1 more 10 bs n r hn]
    rfl

/-- A length, then that many bytes; a length above the capacity `n` is refused. -/
def bytes (n : Nat) (hn : n < 2 ^ 64) : Format (Heapless.Vec UInt8 n) where
  ser v := varintSer 10 v.toList.length ++ v.toList
  de bs := (varintDe 1 10 bs).bind (fun r =>
    if h : r.1 ≤ n ∧ r.1 ≤ r.2.length then
      some (⟨r.2.take r.1, Nat.le_trans (List.length_take_le r.1 r.2) h.1⟩, r.2.drop r.1)
    else none)
  de_ser v rest := by
    have hv := v.length_le
    rw [List.append_assoc, varintDe_ser 1 _ 9 v.toList.length (by omega) (by decide), Option.bind_some,
      dif_pos ⟨hv, by simp⟩, Option.some.injEq, Prod.mk.injEq]
    exact ⟨Heapless.Vec.ext List.take_left, List.drop_left⟩
  de_append bs v rest more h := by
    obtain ⟨⟨m, r⟩, hm, hr⟩ := Option.bind_eq_some_iff.1 h
    split at hr
    · rename_i hle
      cases hr
      have hlen : m ≤ (r ++ more).length := by
        rw [List.length_append]
        exact Nat.le_add_right_of_le hle.2
      rw [varintDe_append 1 more 10 bs m r hm, Option.bind_some, dif_pos ⟨hle.1, hlen⟩,
        Option.some.injEq, Prod.mk.injEq]
      exact ⟨Heapless.Vec.ext (List.take_append_of_le_length hle.2), List.drop_append_of_le_length hle.2⟩
    · cases hr

end Codec
