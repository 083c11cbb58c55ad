import Mathlib.Data.Char
/-!
# Hex — bytes as pairs of digits

Each byte is written as two hexadecimal digits, and pairs of digits are read back as the bytes (`decode_encode`).
-/
namespace Hex

/-- The two digits of a byte. -/
def pair (b : UInt8) : List Char := [Nat.digitChar (b.toNat / 16), Nat.digitChar (b.toNat % 16)]

def encode (bs : List UInt8) : List Char := bs.flatMap pair

def digit (c : Char) : Option Nat :=
  if 48 ≤ c.toNat ∧ c.toNat ≤ 57 then some (c.toNat - 48)
  else if 97 ≤ c.toNat ∧ c.toNat ≤ 102 then some (c.toNat - 87)
  else none

def decode : List Char → Option (List UInt8)
  | [] => some []
  | [_] => none
  | c :: d :: cs => do
    let hi ← digit c
    let lo ← digit d
    let bs ← decode cs
    return UInt8.ofNat (16 * hi + lo) :: bs

theorem digit_digitChar : ∀ n < 16, digit (Nat.digitChar n) = some n := by decide

theorem halves (b : UInt8) : b.toNat / 16 < 16 ∧ b.toNat % 16 < 16 ∧ 16 * (b.toNat / 16) + b.toNat % 16 = b.toNat := by
  have := b.toNat_lt
  omega

/-- **What is written is read back.** -/
theorem decode_encode : ∀ bs : List UInt8, decode (encode bs) = some bs
  | [] => rfl
  | b :: bs => by
    obtain ⟨hhi, hlo, hsum⟩ := halves b
    have ih := decode_encode bs
    rw [encode, List.flatMap_cons, ← encode, pair, List.cons_append, List.cons_append, List.nil_append, decode,
      digit_digitChar _ hhi, digit_digitChar _ hlo, ih]
    show some (UInt8.ofNat (16 * (b.toNat / 16) + b.toNat % 16) :: bs) = _
    rw [hsum, UInt8.ofNat_toNat]

theorem encode_injective {bs bs' : List UInt8} (h : encode bs = encode bs') : bs = bs' :=
  Option.some.inj ((decode_encode bs).symm.trans (h ▸ decode_encode bs'))

theorem exists_of_mem_encode {bs : List UInt8} {c : Char} (h : c ∈ encode bs) : ∃ n < 16, c = Nat.digitChar n := by
  obtain ⟨b, -, hc⟩ := List.mem_flatMap.1 h
  obtain ⟨hhi, hlo, -⟩ := halves b
  rcases List.mem_cons.1 hc with rfl | hc
  · exact ⟨_, hhi, rfl⟩
  · exact ⟨_, hlo, List.mem_singleton.1 hc⟩

end Hex
