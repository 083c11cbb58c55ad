import Mathlib.Algebra.Group.Nat.Defs
import Mathlib.Data.List.Basic
/-!
# Bytes — fixed-width numbers, least significant byte first
-/
namespace Bytes

/-- The `k` low bytes of `n`, least significant first. -/
def le : Nat → Nat → List UInt8
  | 0, _ => []
  | k + 1, n => UInt8.ofNat n :: le k (n / 256)

/-- The number whose bytes these are, least significant first. -/
def ofLe : List UInt8 → Nat
  | [] => 0
  | b :: bs => b.toNat + 256 * ofLe bs

@[simp] theorem length_le : ∀ k n : Nat, (le k n).length = k
  | 0, _ => rfl
  | k + 1, n => by rw [le, List.length_cons, length_le k]

theorem ofLe_le : ∀ k n : Nat, ofLe (le k n) = n % 256 ^ k
  | 0, n => by simp [le, ofLe, Nat.mod_one]
  | k + 1, n => by
    rw [le, ofLe, ofLe_le k, UInt8.toNat_ofNat', Nat.pow_succ' (n := k), Nat.mod_mul (a := 256)]

theorem le_ofLe : ∀ bs : List UInt8, le bs.length (ofLe bs) = bs
  | [] => rfl
  | b :: bs => by
    have hb := b.toNat_lt
    rw [List.length_cons, le, ofLe]
    have hdiv : (b.toNat + 256 * ofLe bs) / 256 = ofLe bs := by omega
    have hhead : UInt8.ofNat (b.toNat + 256 * ofLe bs) = b := by
      apply UInt8.toNat_inj.1
      rw [UInt8.toNat_ofNat']
      omega
    rw [hdiv, hhead, le_ofLe bs]

theorem ofLe_lt : ∀ bs : List UInt8, ofLe bs < 256 ^ bs.length
  | [] => by simp [ofLe]
  | b :: bs => by
    have hb := b.toNat_lt
    have ih := ofLe_lt bs
    rw [ofLe, List.length_cons, Nat.pow_succ']
    omega

/-! ## The two widths of the wire -/

def u16ToLe (x : UInt16) : List UInt8 := le 2 x.toNat
def u16OfLe (bs : List UInt8) : UInt16 := UInt16.ofNat (ofLe bs)
def u32ToLe (x : UInt32) : List UInt8 := le 4 x.toNat
def u32OfLe (bs : List UInt8) : UInt32 := UInt32.ofNat (ofLe bs)

@[simp] theorem length_u16ToLe (x : UInt16) : (u16ToLe x).length = 2 := length_le 2 _
@[simp] theorem length_u32ToLe (x : UInt32) : (u32ToLe x).length = 4 := length_le 4 _

@[simp] theorem u16OfLe_u16ToLe (x : UInt16) : u16OfLe (u16ToLe x) = x := by
  rw [u16OfLe, u16ToLe, ofLe_le, Nat.mod_eq_of_lt (by simpa using x.toNat_lt)]
  exact UInt16.ofNat_toNat

@[simp] theorem u32OfLe_u32ToLe (x : UInt32) : u32OfLe (u32ToLe x) = x := by
  rw [u32OfLe, u32ToLe, ofLe_le, Nat.mod_eq_of_lt (by simpa using x.toNat_lt)]
  exact UInt32.ofNat_toNat

theorem u16ToLe_u16OfLe {bs : List UInt8} (h : bs.length = 2) : u16ToLe (u16OfLe bs) = bs := by
  have hlt := ofLe_lt bs
  rw [h] at hlt
  rw [u16ToLe, u16OfLe, UInt16.toNat_ofNat', Nat.mod_eq_of_lt (show ofLe bs < 2 ^ 16 from hlt), ← h, le_ofLe]

/-- The last bytes of a string are those of the number they make. -/
theorem take_append_u16ToLe {bs : List UInt8} (h : 2 ≤ bs.length) :
    bs.take (bs.length - 2) ++ u16ToLe (u16OfLe (bs.drop (bs.length - 2))) = bs := by
  rw [u16ToLe_u16OfLe (by rw [List.length_drop, Nat.sub_sub_self h]), List.take_append_drop]

theorem u32ToLe_u32OfLe {bs : List UInt8} (h : bs.length = 4) : u32ToLe (u32OfLe bs) = bs := by
  have hlt := ofLe_lt bs
  rw [h] at hlt
  rw [u32ToLe, u32OfLe, UInt32.toNat_ofNat', Nat.mod_eq_of_lt (show ofLe bs < 2 ^ 32 from hlt), ← h, le_ofLe]

theorem take_append_u32ToLe {bs : List UInt8} (h : 4 ≤ bs.length) :
    bs.take (bs.length - 4) ++ u32ToLe (u32OfLe (bs.drop (bs.length - 4))) = bs := by
  rw [u32ToLe_u32OfLe (by rw [List.length_drop, Nat.sub_sub_self h]), List.take_append_drop]

end Bytes
