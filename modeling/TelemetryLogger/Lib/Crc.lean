import Mathlib.Data.Bool.Basic
import Mathlib.Data.List.Basic
import TelemetryLogger.Lib.Bytes
/-!
# Crc — reflected cyclic redundancy checks

A reflected CRC of width `w` shifts its register right, one bit of the message at a time, the least significant bit of
each byte first.  `poly` is the generator with its bits reversed, so its top bit is the constant term and is set.  The
register is linear in itself and the bits (`run_xor`), and no step loses information (`run_injective`): a burst of at
most `w` bits is always detected (`checksum_ne_of_burst`), and the checksum over a message and its trailer says how far
the trailer is off (`checksum_append_eq_iff`).
-/
namespace Crc

structure Algorithm (w : Nat) where
  poly : BitVec w
  init : BitVec w
  xorOut : BitVec w

variable {w : Nat}

def bitStep (A : Algorithm w) (s : BitVec w) (b : Bool) : BitVec w :=
  if s.getLsbD 0 ^^ b then s >>> 1 ^^^ A.poly else s >>> 1

/-- The bits of a byte, least significant first. -/
def bits (b : UInt8) : List Bool := (List.range 8).map b.toNat.testBit

def update (A : Algorithm w) (s : BitVec w) (bs : List UInt8) : BitVec w := (bs.flatMap bits).foldl (bitStep A) s

def checksum (A : Algorithm w) (bs : List UInt8) : BitVec w := update A A.init bs ^^^ A.xorOut

/-- CRC-16/IBM-SDLC: generator `0x1021`. -/
def ibmSdlc : Algorithm 16 := ⟨0x8408, 0xFFFF, 0xFFFF⟩

/-- CRC-32/ISO-HDLC: generator `0x04C11DB7`. -/
def isoHdlc : Algorithm 32 := ⟨0xEDB88320, 0xFFFFFFFF, 0xFFFFFFFF⟩

-- the check values of the catalogue: the checksum of the nine bytes "123456789"
example : checksum ibmSdlc [0x31, 0x32, 0x33, 0x34, 0x35, 0x36, 0x37, 0x38, 0x39] = 0x906E := by decide +kernel
example : checksum isoHdlc [0x31, 0x32, 0x33, 0x34, 0x35, 0x36, 0x37, 0x38, 0x39] = 0xCBF43926 := by decide +kernel

/-! ## The register over bits -/

/-- The register after the bits `u`, from `s`. -/
def run (A : Algorithm w) (s : BitVec w) (u : List Bool) : BitVec w := u.foldl (bitStep A) s

theorem run_append (A : Algorithm w) (s : BitVec w) (u v : List Bool) : run A s (u ++ v) = run A (run A s u) v :=
  List.foldl_append

theorem xor_cancel (a b p : BitVec w) : a ^^^ p ^^^ (b ^^^ p) = a ^^^ b := by
  rw [BitVec.xor_assoc, BitVec.xor_comm b p, ← BitVec.xor_assoc p p b, BitVec.xor_self, BitVec.zero_xor]

/-- **One bit is linear**, in the register and in the bit together. -/
theorem bitStep_xor (A : Algorithm w) (s t : BitVec w) (a b : Bool) :
    bitStep A (s ^^^ t) (a ^^ b) = bitStep A s a ^^^ bitStep A t b := by
  have hbit : ((s ^^^ t).getLsbD 0 ^^ (a ^^ b)) = ((s.getLsbD 0 ^^ a) ^^ (t.getLsbD 0 ^^ b)) := by
    rw [BitVec.getLsbD_xor]
    cases s.getLsbD 0 <;> cases t.getLsbD 0 <;> cases a <;> cases b <;> rfl
  unfold bitStep
  rw [hbit, BitVec.ushiftRight_xor_distrib]
  cases s.getLsbD 0 ^^ a <;> cases t.getLsbD 0 ^^ b
  · rfl
  · exact BitVec.xor_assoc _ _ _
  · simp only [Bool.xor_false, if_true, Bool.false_eq_true, if_false]
    ac_rfl
  · exact (xor_cancel _ _ _).symm

theorem run_xor (A : Algorithm w) : ∀ (u v : List Bool) (s t : BitVec w), u.length = v.length →
    run A (s ^^^ t) (List.zipWith (· ^^ ·) u v) = run A s u ^^^ run A t v
  | [], [], _, _, _ => rfl
  | a :: u, b :: v, s, t, h => by
    simp only [run, List.zipWith_cons_cons, List.foldl_cons, bitStep_xor]
    exact run_xor A u v _ _ (Nat.succ.inj h)

theorem bitStep_eq_zero {A : Algorithm w} (hA : A.poly.msb = true) {s : BitVec w} (h : bitStep A s false = 0) :
    s = 0 := by
  unfold bitStep at h
  rw [Bool.xor_false] at h
  cases hlow : s.getLsbD 0 with
  | true =>
    -- the register would be the generator shifted down, but the generator's top bit is set
    rw [hlow, if_pos rfl] at h
    have hpoly : s >>> 1 = A.poly := BitVec.xor_eq_zero_iff.1 h
    rw [← hpoly, BitVec.msb_ushiftRight] at hA
    simp at hA
  | false =>
    rw [hlow, if_neg Bool.false_ne_true] at h
    apply BitVec.eq_of_getLsbD_eq
    intro i _
    cases i with
    | zero => rw [hlow]; simp
    | succ i =>
      have hi := congrArg (fun x => x.getLsbD i) h
      simp only [BitVec.getLsbD_ushiftRight] at hi
      rw [Nat.add_comm, hi]
      simp

theorem bitStep_injective {A : Algorithm w} (hA : A.poly.msb = true) {s t : BitVec w} {b : Bool}
    (h : bitStep A s b = bitStep A t b) : s = t := by
  have hzero : bitStep A (s ^^^ t) false = 0 := by
    rw [← Bool.xor_self b, bitStep_xor, h, BitVec.xor_self]
    rfl
  exact BitVec.xor_eq_zero_iff.1 (bitStep_eq_zero hA hzero)

/-- **The same bits keep two registers apart.** -/
theorem run_injective {A : Algorithm w} (hA : A.poly.msb = true) : ∀ (u : List Bool) {s t : BitVec w},
    run A s u = run A t u → s = t
  | [], _, _, h => h
  | _ :: u, _, _, h => bitStep_injective hA (run_injective hA u h)

/-! ## Feeding a register its own bits -/

/-- The bits of a register, the one that leaves first in front. -/
def bitsOf (c : BitVec w) : List Bool := (List.range w).map c.getLsbD

@[simp] theorem length_bitsOf (c : BitVec w) : (bitsOf c).length = w := by simp [bitsOf]

theorem exists_bitsOf {u : List Bool} (h : u.length = w) : ∃ c : BitVec w, bitsOf c = u := by
  subst h
  refine ⟨BitVec.ofBoolListLE u, ?_⟩
  apply List.ext_getElem (length_bitsOf _)
  intro i h1 h2
  simp [bitsOf, List.getElem?_eq_getElem h2]

theorem run_own_bits (A : Algorithm w) (s : BitVec w) :
    ∀ k, run A s ((List.range k).map s.getLsbD) = s >>> k
  | 0 => (BitVec.ushiftRight_zero s).symm
  | k + 1 => by
    have hlow : ((s >>> k).getLsbD 0 ^^ s.getLsbD k) = false := by
      rw [BitVec.getLsbD_ushiftRight, Nat.add_zero, Bool.xor_self]
    rw [List.range_succ, List.map_append, run_append, run_own_bits A s k, BitVec.shiftRight_add]
    show bitStep A (s >>> k) (s.getLsbD k) = _
    rw [bitStep, hlow, if_neg Bool.false_ne_true]

theorem run_bitsOf_self (A : Algorithm w) (c : BitVec w) : run A c (bitsOf c) = 0 := by
  rw [bitsOf, run_own_bits]
  exact BitVec.ushiftRight_eq_zero (Nat.le_refl w)

/-- **The bits of a whole register only add to it**: what follows is `w` zero bits. -/
theorem run_bitsOf (A : Algorithm w) (s c : BitVec w) :
    run A s (bitsOf c) = run A (s ^^^ c) (List.replicate w false) := by
  have hzip : List.zipWith (· ^^ ·) (List.replicate w false) (bitsOf c) = bitsOf c := by
    apply List.ext_getElem (by simp)
    intro i _ _
    simp
  have hlen : (List.replicate w false).length = (bitsOf c).length := by simp
  have hxor := run_xor A (List.replicate w false) (bitsOf c) (s ^^^ c) c hlen
  rw [hzip, BitVec.xor_assoc, BitVec.xor_self, BitVec.xor_zero, run_bitsOf_self] at hxor
  rw [hxor]
  exact BitVec.xor_zero

/-- **At most `w` bits are told apart**, from any register. -/
theorem run_window_injective {A : Algorithm w} (hA : A.poly.msb = true) {s : BitVec w} {x y : List Bool}
    (hlen : x.length = y.length) (hw : x.length ≤ w) (h : run A s x = run A s y) : x = y := by
  have hpad : ∀ v : List Bool, v.length = x.length → ∃ c : BitVec w,
      bitsOf c = v ++ List.replicate (w - x.length) false := by
    intro v hv
    apply exists_bitsOf
    rw [List.length_append, List.length_replicate, hv]
    omega
  obtain ⟨X, hX⟩ := hpad x rfl
  obtain ⟨Y, hY⟩ := hpad y hlen.symm
  have hrun : run A s (bitsOf X) = run A s (bitsOf Y) := by
    rw [hX, hY]
    simp only [run_append]
    rw [h]
  rw [run_bitsOf, run_bitsOf] at hrun
  have hXY : X = Y := (BitVec.xor_right_inj s).1 (run_injective hA _ hrun)
  rw [hXY, hY] at hX
  exact (List.append_inj_left' hX rfl).symm

/-- Two bit strings differ, if at all, within `k` consecutive positions. -/
def Confined (k : Nat) (u v : List Bool) : Prop := ∃ i, ∀ j, u[j]? ≠ v[j]? → i ≤ j ∧ j < i + k

theorem confined_of_lt {k i : Nat} {u v : List Bool} (hlen : u.length = v.length)
    (h : ∀ j < u.length, u[j]? ≠ v[j]? → i ≤ j ∧ j < i + k) : Confined k u v := by
  refine ⟨i, fun j hj => ?_⟩
  by_cases hju : j < u.length
  · exact h j hju hj
  · rw [List.getElem?_eq_none (by omega), List.getElem?_eq_none (by omega)] at hj
    exact absurd rfl hj

/-- **A burst of at most `w` bits changes the register.** -/
theorem run_ne_of_burst {A : Algorithm w} (hA : A.poly.msb = true) {s : BitVec w} {u v : List Bool}
    (hlen : u.length = v.length) (hne : u ≠ v) (hb : Confined w u v) : run A s u ≠ run A s v := by
  intro h
  obtain ⟨i, hi⟩ := hb
  have hagree : ∀ j, ¬ (i ≤ j ∧ j < i + w) → u[j]? = v[j]? := fun j hj => by
    by_contra hd
    exact hj (hi j hd)
  have hsplit : ∀ l : List Bool, l = l.take i ++ ((l.drop i).take w ++ l.drop (i + w)) := fun l => by
    rw [← List.drop_drop, List.take_append_drop, List.take_append_drop]
  have hpre : u.take i = v.take i := by
    apply List.ext_getElem?
    intro j
    rw [List.getElem?_take, List.getElem?_take]
    split
    · exact hagree j (by omega)
    · rfl
  have hpost : u.drop (i + w) = v.drop (i + w) := by
    apply List.ext_getElem?
    intro j
    rw [List.getElem?_drop, List.getElem?_drop]
    exact hagree _ (by omega)
  have hmid : (u.drop i).take w = (v.drop i).take w := by
    rw [hsplit u, hsplit v, hpre, hpost] at h
    simp only [run_append] at h
    have hwin := run_injective hA _ h
    exact run_window_injective hA (by simp [hlen]) (List.length_take_le _ _) hwin
  exact hne (by rw [hsplit u, hsplit v, hpre, hmid, hpost])


/-! ## A checksum behind its message -/

theorem bits_ofNat (n : Nat) : bits (UInt8.ofNat n) = (List.range 8).map n.testBit := by
  apply List.map_congr_left
  intro i hi
  rw [UInt8.toNat_ofNat', show (2 : Nat) ^ 8 = 2 ^ 8 from rfl, Nat.testBit_mod_two_pow]
  simp [List.mem_range.1 hi]

theorem flatMap_bits_le : ∀ k n : Nat, (Bytes.le k n).flatMap bits = (List.range (8 * k)).map n.testBit
  | 0, _ => rfl
  | k + 1, n => by
    have hshift : ∀ i, (n / 256).testBit i = n.testBit (8 + i) := fun i => by
      rw [Nat.add_comm, ← Nat.testBit_div_two_pow]
    rw [Bytes.le, List.flatMap_cons, bits_ofNat, flatMap_bits_le k, Nat.mul_succ, Nat.add_comm, List.range_add,
      List.map_append, List.map_map]
    exact congrArg _ (List.map_congr_left fun i _ => hshift i)

/-- The bytes of a register are its bits. -/
theorem flatMap_bits_toNat {k : Nat} (hk : w = 8 * k) (c : BitVec w) :
    (Bytes.le k c.toNat).flatMap bits = bitsOf c := by
  rw [flatMap_bits_le, ← hk]
  rfl

theorem update_eq_run (A : Algorithm w) (s : BitVec w) (bs : List UInt8) :
    update A s bs = run A s (bs.flatMap bits) := rfl

/-- The checksum of a message and a trailer that differs from the message's own checksum by `x`. -/
def trailed (A : Algorithm w) (x : BitVec w) : BitVec w := run A (x ^^^ A.xorOut) (List.replicate w false) ^^^ A.xorOut

theorem checksum_append (A : Algorithm w) {k : Nat} (hk : w = 8 * k) (m : List UInt8) (c : BitVec w) :
    checksum A (m ++ Bytes.le k c.toNat) = trailed A (checksum A m ^^^ c) := by
  have hc : checksum A m ^^^ c ^^^ A.xorOut = update A A.init m ^^^ c := by
    rw [checksum, BitVec.xor_assoc, BitVec.xor_assoc, BitVec.xor_comm c, ← BitVec.xor_assoc A.xorOut,
      BitVec.xor_self, BitVec.zero_xor]
  rw [trailed, hc, ← run_bitsOf, ← flatMap_bits_toNat hk, checksum, update_eq_run, List.flatMap_append, run_append,
    ← update_eq_run A A.init]

theorem trailed_injective {A : Algorithm w} (hA : A.poly.msb = true) {x y : BitVec w}
    (h : trailed A x = trailed A y) : x = y :=
  (BitVec.xor_left_inj A.xorOut).1 (run_injective hA _ ((BitVec.xor_left_inj A.xorOut).1 h))

/-- **The checksum over a message and its trailer tells how far the trailer is off.** -/
theorem checksum_append_eq_iff {A : Algorithm w} (hA : A.poly.msb = true) {k : Nat} (hk : w = 8 * k) (m : List UInt8)
    (c x : BitVec w) : checksum A (m ++ Bytes.le k c.toNat) = trailed A x ↔ c = checksum A m ^^^ x := by
  rw [checksum_append A hk]
  constructor
  · intro h
    rw [← trailed_injective hA h, ← BitVec.xor_assoc, BitVec.xor_self, BitVec.zero_xor]
  · rintro rfl
    rw [← BitVec.xor_assoc, BitVec.xor_self, BitVec.zero_xor]

theorem bits_injective {a b : UInt8} (h : bits a = bits b) : a = b := by
  apply UInt8.toNat_inj.1
  apply Nat.eq_of_testBit_eq
  intro i
  by_cases hi : i < 8
  · have hget := congrArg (fun l => l[i]?) h
    simpa [bits, hi] using hget
  · have hpow : 2 ^ 8 ≤ 2 ^ i := Nat.pow_le_pow_right (by omega) (by omega)
    rw [Nat.testBit_lt_two_pow (Nat.lt_of_lt_of_le a.toNat_lt hpow),
      Nat.testBit_lt_two_pow (Nat.lt_of_lt_of_le b.toNat_lt hpow)]

@[simp] theorem length_bits (b : UInt8) : (bits b).length = 8 := by simp [bits]

@[simp] theorem length_flatMap_bits (bs : List UInt8) : (bs.flatMap bits).length = 8 * bs.length := by
  induction bs with
  | nil => rfl
  | cons b bs ih => rw [List.flatMap_cons, List.length_append, length_bits, ih, List.length_cons, Nat.mul_succ,
      Nat.add_comm]

theorem flatMap_bits_injective : ∀ {bs ds : List UInt8}, bs.flatMap bits = ds.flatMap bits → bs = ds
  | [], [], _ => rfl
  | [], d :: ds, h => by
    have hlen := congrArg List.length h
    rw [length_flatMap_bits, length_flatMap_bits, List.length_nil, List.length_cons] at hlen
    omega
  | b :: bs, [], h => by
    have hlen := congrArg List.length h
    rw [length_flatMap_bits, length_flatMap_bits, List.length_nil, List.length_cons] at hlen
    omega
  | b :: bs, d :: ds, h => by
    rw [List.flatMap_cons, List.flatMap_cons] at h
    obtain ⟨hb, ht⟩ := List.append_inj h (by rw [length_bits, length_bits])
    rw [bits_injective hb, flatMap_bits_injective ht]

/-- A change between the same bits is confined to its place. -/
theorem confined_append {k : Nat} (p : List Bool) {u v : List Bool} (s : List Bool) (hlen : u.length = v.length)
    (hk : u.length ≤ k) : Confined k (p ++ (u ++ s)) (p ++ (v ++ s)) := by
  refine ⟨p.length, fun j hj => ?_⟩
  by_contra hout
  refine hj ?_
  by_cases hjp : j < p.length
  · rw [List.getElem?_append_left hjp, List.getElem?_append_left hjp]
  · have hju : u.length ≤ j - p.length := by omega
    rw [List.getElem?_append_right (Nat.not_lt.1 hjp), List.getElem?_append_right (Nat.not_lt.1 hjp),
      List.getElem?_append_right hju, List.getElem?_append_right (hlen ▸ hju), hlen]

/-- **One byte changed is a burst of at most eight bits.** -/
theorem confined_modify {k : Nat} (hk : 8 ≤ k) {bs : List UInt8} {i : Nat} (hi : i < bs.length) (f : UInt8 → UInt8) :
    Confined k (bs.flatMap bits) ((bs.modify i f).flatMap bits) := by
  obtain ⟨p, b, s, rfl, -, hmodify⟩ := List.exists_of_modify f hi
  rw [hmodify, List.flatMap_append, List.flatMap_append, List.flatMap_cons, List.flatMap_cons]
  exact confined_append _ _ (by rw [length_bits, length_bits]) (Nat.le_trans (Nat.le_of_eq (length_bits b)) hk)

/-- **A burst of at most `w` bits in a message and its checksum is detected**, wherever it falls. -/
theorem checksum_ne_of_burst {A : Algorithm w} (hA : A.poly.msb = true) {k : Nat} (hk : w = 8 * k)
    {m m' : List UInt8} {c' : BitVec w} (hlen : m.length = m'.length)
    (hne : m ++ Bytes.le k (checksum A m).toNat ≠ m' ++ Bytes.le k c'.toNat)
    (hb : Confined w ((m ++ Bytes.le k (checksum A m).toNat).flatMap bits)
      ((m' ++ Bytes.le k c'.toNat).flatMap bits)) : checksum A m' ≠ c' := by
  rintro rfl
  refine run_ne_of_burst hA (s := A.init) ?_ (fun h => hne (flatMap_bits_injective h)) hb ?_
  · simp [hlen]
  · have hsame : checksum A (m ++ Bytes.le k (checksum A m).toNat) =
        checksum A (m' ++ Bytes.le k (checksum A m').toNat) := by
      rw [checksum_append A hk, checksum_append A hk, BitVec.xor_self, BitVec.xor_self]
    exact (BitVec.xor_left_inj A.xorOut).1 hsame

end Crc
