import Mathlib.Data.List.Basic
/-!
# Cobs — consistent overhead byte stuffing

A message is cut into blocks of at most 254 non-zero bytes.  A block is its code, one more than its length, then its
bytes; every block but the last stands for its bytes and one zero, except a full block (code 255), which stands for
its bytes alone.  A message ending in a full block has no empty block after it.

Decoding undoes encoding (`decode_encode`), an encoding has no zero byte (`zero_not_mem_encode`) and at most one byte
of overhead in 254 (`length_encode_le`), and a cut encoding never decodes to the whole message (`decode_cut`).  A short
encoding with one byte changed, so that no code stays in reach, decodes to the message with one byte changed, if at all
(`decode_modify`).
-/
namespace Cobs

def block (run : List UInt8) : List UInt8 := UInt8.ofNat (run.length + 1) :: run

/-- Encode `xs` after the bytes `run` of a block still open. -/
def encodeFrom : List UInt8 → List UInt8 → List UInt8
  | run, [] => block run
  | run, x :: xs =>
    if x = 0 then block run ++ encodeFrom [] xs
    else if run.length = 253 then block (run ++ [x]) ++ (if xs.isEmpty then [] else encodeFrom [] xs)
    else encodeFrom (run ++ [x]) xs

def encode (xs : List UInt8) : List UInt8 := encodeFrom [] xs

/-- The zero a block leaves pending, if it leaves one. -/
def pending (z : Bool) : List UInt8 := if z then [0] else []

/-- Decode with `k` bytes of the open block to come, and a zero pending before the next block when `z`. -/
def decodeFrom : Nat → Bool → List UInt8 → Option (List UInt8)
  | 0, _, [] => some []
  | _ + 1, _, [] => none
  | 0, z, c :: bs => if c = 0 then none else (decodeFrom (c.toNat - 1) (c != 255) bs).map (pending z ++ ·)
  | k + 1, z, b :: bs => (decodeFrom k z bs).map (b :: ·)

def decode (bs : List UInt8) : Option (List UInt8) := decodeFrom 0 false bs

@[simp] theorem pending_false : pending false = [] := rfl
@[simp] theorem pending_true : pending true = [0] := rfl

@[simp] theorem length_block (run : List UInt8) : (block run).length = run.length + 1 := rfl

theorem code_toNat {n : Nat} (h : n ≤ 254) : (UInt8.ofNat (n + 1)).toNat = n + 1 := by
  rw [UInt8.toNat_ofNat']; omega

theorem code_ne_zero {n : Nat} (h : n ≤ 254) : UInt8.ofNat (n + 1) ≠ 0 := fun hc => by
  have := congrArg UInt8.toNat hc
  rw [code_toNat h] at this
  simp at this

theorem code_bne_full {n : Nat} (h : n ≤ 254) : (UInt8.ofNat (n + 1) != 255) = decide (n ≠ 254) := by
  by_cases hn : n = 254
  · subst hn; rfl
  · have : UInt8.ofNat (n + 1) ≠ 255 := fun hc => by
      have := congrArg UInt8.toNat hc
      rw [code_toNat h] at this
      simp at this
      omega
    rw [bne, beq_eq_false_iff_ne.2 this, decide_eq_true hn]
    rfl

/-! ## Decoding one block -/

theorem decodeFrom_run (z : Bool) (rest : List UInt8) : ∀ run : List UInt8,
    decodeFrom run.length z (run ++ rest) = (decodeFrom 0 z rest).map (run ++ ·)
  | [] => by simp
  | x :: run => by
    rw [List.length_cons, List.cons_append, decodeFrom, decodeFrom_run z rest run, Option.map_map]
    rfl

/-- Decoding never lengthens. -/
theorem length_decodeFrom_le : ∀ (k : Nat) (z : Bool) (bs : List UInt8) {d : List UInt8}, decodeFrom k z bs = some d →
    d.length ≤ bs.length
  | 0, z, [], d, h => by
    obtain rfl := Option.some.inj h
    exact Nat.le_refl _
  | 0, z, c :: bs, d, h => by
    rw [decodeFrom] at h
    split at h
    · cases h
    · obtain ⟨e, he, rfl⟩ := Option.map_eq_some_iff.1 h
      have ih := length_decodeFrom_le _ _ bs he
      cases z <;> simp <;> omega
  | k + 1, z, b :: bs, d, h => by
    obtain ⟨e, he, rfl⟩ := Option.map_eq_some_iff.1 h
    exact Nat.succ_le_succ (length_decodeFrom_le k z bs he)

theorem decodeFrom_short (z : Bool) : ∀ (bs : List UInt8) (k : Nat), bs.length < k → decodeFrom k z bs = none
  | [], k + 1, _ => rfl
  | b :: bs, k + 1, h => by
    rw [decodeFrom, decodeFrom_short z bs k (by simpa using h)]
    rfl

theorem decodeFrom_block (z : Bool) (run rest : List UInt8) (h : run.length ≤ 254) :
    decodeFrom 0 z (block run ++ rest)
      = (decodeFrom 0 (decide (run.length ≠ 254)) rest).map (fun d => pending z ++ (run ++ d)) := by
  rw [block, List.cons_append, decodeFrom, if_neg (code_ne_zero h), code_toNat h, code_bne_full h, Nat.add_sub_cancel,
    decodeFrom_run, Option.map_map]
  rfl

theorem decodeFrom_block_cut (z : Bool) (run p q : List UInt8) (h : run.length ≤ 254) (hp : p ≠ []) (hq : q ≠ [])
    (hpq : p ++ q = block run) : decodeFrom 0 z p = none := by
  cases p with
  | nil => exact absurd rfl hp
  | cons c r =>
    rw [block, List.cons_append, List.cons.injEq] at hpq
    obtain ⟨rfl, hr⟩ := hpq
    have hlen : r.length < run.length := by
      have := congrArg List.length hr
      have := List.length_pos_iff.2 hq
      rw [List.length_append] at *
      omega
    rw [decodeFrom, if_neg (code_ne_zero h), code_toNat h, Nat.add_sub_cancel, decodeFrom_short _ _ _ hlen]
    rfl

/-! ## Encoding -/

theorem encodeFrom_zero (run xs : List UInt8) : encodeFrom run (0 :: xs) = block run ++ encodeFrom [] xs := by
  simp [encodeFrom]

theorem encodeFrom_full {run : List UInt8} {x : UInt8} (xs : List UInt8) (hx : x ≠ 0) (h : run.length = 253) :
    encodeFrom run (x :: xs) = block (run ++ [x]) ++ (if xs.isEmpty then [] else encodeFrom [] xs) := by
  rw [encodeFrom, if_neg hx, if_pos h]

theorem encodeFrom_push {run : List UInt8} {x : UInt8} (xs : List UInt8) (hx : x ≠ 0) (h : run.length ≠ 253) :
    encodeFrom run (x :: xs) = encodeFrom (run ++ [x]) xs := by
  rw [encodeFrom, if_neg hx, if_neg h]

/-- **Decoding undoes encoding**, from a block still open, and goes on with what follows. -/
theorem decodeFrom_encodeFrom_append (rest : List UInt8) : ∀ (xs run : List UInt8) (z : Bool), run.length ≤ 253 →
    ∃ z', decodeFrom 0 z (encodeFrom run xs ++ rest)
      = (decodeFrom 0 z' rest).map (fun d => pending z ++ (run ++ (xs ++ d)))
  | [], run, z, h => ⟨_, by rw [encodeFrom, decodeFrom_block z run rest (by omega)]; rfl⟩
  | x :: xs, run, z, h => by
    by_cases hx : x = 0
    · subst hx
      obtain ⟨z', ih⟩ := decodeFrom_encodeFrom_append rest xs [] true (by simp)
      have hrun : run.length ≠ 254 := by omega
      refine ⟨z', ?_⟩
      rw [encodeFrom_zero, List.append_assoc, decodeFrom_block z run _ (by omega), decide_eq_true hrun, ih,
        Option.map_map]
      rfl
    · by_cases hr : run.length = 253
      · have hfull : (run ++ [x]).length = 254 := by simp [hr]
        have hz : decide ((run ++ [x]).length ≠ 254) = false := decide_eq_false (fun h => h hfull)
        rw [encodeFrom_full xs hx hr, List.append_assoc, decodeFrom_block z (run ++ [x]) _ (Nat.le_of_eq hfull), hz]
        cases xs with
        | nil => exact ⟨false, by simp⟩
        | cons y ys =>
          obtain ⟨z', ih⟩ := decodeFrom_encodeFrom_append rest (y :: ys) [] false (by simp)
          refine ⟨z', ?_⟩
          simp only [List.isEmpty_cons, Bool.false_eq_true, if_false]
          rw [ih, Option.map_map]
          simp [Function.comp_def]
      · obtain ⟨z', ih⟩ := decodeFrom_encodeFrom_append rest xs (run ++ [x]) z (by simp; omega)
        exact ⟨z', by rw [encodeFrom_push xs hx hr, ih]; simp⟩

theorem decodeFrom_encode_append (z : Bool) (xs rest : List UInt8) :
    ∃ z', decodeFrom 0 z (encode xs ++ rest) = (decodeFrom 0 z' rest).map (fun d => pending z ++ (xs ++ d)) :=
  decodeFrom_encodeFrom_append rest xs [] z (Nat.zero_le _)

/-- **Decoding undoes encoding.** -/
theorem decode_encode (xs : List UInt8) : decode (encode xs) = some xs := by
  obtain ⟨z', h⟩ := decodeFrom_encode_append false xs []
  rw [List.append_nil] at h
  rw [decode, h, decodeFrom]
  simp

theorem zero_not_mem_block {run : List UInt8} (h : run.length ≤ 254) (h0 : 0 ∉ run) : 0 ∉ block run := by
  rw [block, List.mem_cons, not_or]
  exact ⟨fun hc => code_ne_zero h hc.symm, h0⟩

theorem zero_not_mem_encodeFrom : ∀ (xs run : List UInt8), run.length ≤ 253 → 0 ∉ run → 0 ∉ encodeFrom run xs
  | [], run, h, h0 => by
    rw [encodeFrom]
    exact zero_not_mem_block (by omega) h0
  | x :: xs, run, h, h0 => by
    by_cases hx : x = 0
    · subst hx
      rw [encodeFrom_zero, List.mem_append, not_or]
      exact ⟨zero_not_mem_block (by omega) h0, zero_not_mem_encodeFrom xs [] (by simp) (by simp)⟩
    · have h0' : 0 ∉ run ++ [x] := by simp [h0, Ne.symm hx]
      by_cases hr : run.length = 253
      · rw [encodeFrom_full xs hx hr, List.mem_append, not_or]
        refine ⟨zero_not_mem_block (by simp [hr]) h0', ?_⟩
        split
        · simp
        · exact zero_not_mem_encodeFrom xs [] (by simp) (by simp)
      · rw [encodeFrom_push xs hx hr]
        exact zero_not_mem_encodeFrom xs (run ++ [x]) (by simp; omega) h0'

/-- **An encoding has no zero byte.** -/
theorem zero_not_mem_encode (xs : List UInt8) : 0 ∉ encode xs :=
  zero_not_mem_encodeFrom xs [] (by simp) (by simp)

theorem encodeFrom_ne_nil : ∀ (xs run : List UInt8), encodeFrom run xs ≠ []
  | [], run => by simp [encodeFrom, block]
  | x :: xs, run => by
    by_cases hx : x = 0
    · subst hx; simp [encodeFrom_zero, block]
    · by_cases hr : run.length = 253
      · rw [encodeFrom_full xs hx hr]; simp [block]
      · rw [encodeFrom_push xs hx hr]; exact encodeFrom_ne_nil xs _

theorem encode_ne_nil (xs : List UInt8) : encode xs ≠ [] := encodeFrom_ne_nil xs []

/-- One byte of overhead in 254, rounded up. -/
def maxLength (n : Nat) : Nat := n + (n + 253) / 254

theorem length_encodeFrom_le : ∀ (xs run : List UInt8), run.length ≤ 253 →
    (encodeFrom run xs).length ≤ max 1 (maxLength (run.length + xs.length))
  | [], run, h => by
    rw [encodeFrom, length_block, maxLength, List.length_nil]
    omega
  | x :: xs, run, h => by
    rw [List.length_cons]
    by_cases hx : x = 0
    · subst hx
      have ih := length_encodeFrom_le xs [] (by simp)
      rw [encodeFrom_zero, List.length_append, length_block]
      simp only [maxLength, List.length_nil] at ih ⊢
      omega
    · by_cases hr : run.length = 253
      · have ih := length_encodeFrom_le xs [] (by simp)
        rw [encodeFrom_full xs hx hr, List.length_append, length_block, List.length_append]
        cases xs with
        | nil => simp [maxLength]; omega
        | cons y ys =>
          simp only [List.isEmpty_cons, Bool.false_eq_true, if_false, maxLength, List.length_nil,
            List.length_cons] at ih ⊢
          omega
      · have ih := length_encodeFrom_le xs (run ++ [x]) (by simp; omega)
        rw [encodeFrom_push xs hx hr]
        simp only [maxLength, List.length_append, List.length_singleton] at ih ⊢
        omega

/-- **The overhead of a non-empty message is at most one byte in 254.** -/
theorem length_encode_le {xs : List UInt8} (h : xs ≠ []) : (encode xs).length ≤ maxLength xs.length := by
  have := length_encodeFrom_le xs [] (by simp)
  have := List.length_pos_iff.2 h
  simp only [encode, maxLength, List.length_nil] at *
  omega

/-! ## Cut encodings -/

theorem prefix_block_append {p q b e : List UInt8} (h : p ++ q = b ++ e) :
    (∃ q', q' ≠ [] ∧ p ++ q' = b) ∨ (p = b ∧ q = e) ∨ (∃ p', p' ≠ [] ∧ p = b ++ p' ∧ p' ++ q = e) := by
  rcases List.append_eq_append_iff.1 h with ⟨a, hb, hq⟩ | ⟨a, hp, he⟩
  · by_cases ha : a = []
    · subst ha
      exact Or.inr (Or.inl ⟨by simpa using hb.symm, by simpa using hq⟩)
    · exact Or.inl ⟨a, ha, hb.symm⟩
  · by_cases ha : a = []
    · subst ha
      exact Or.inr (Or.inl ⟨by simpa using hp, by simpa using he.symm⟩)
    · exact Or.inr (Or.inr ⟨a, ha, hp, he.symm⟩)

theorem decodeFrom_block_nil (z : Bool) (run : List UInt8) (h : run.length ≤ 254) :
    decodeFrom 0 z (block run) = some (pending z ++ run) := by
  have := decodeFrom_block z run [] h
  rw [List.append_nil] at this
  rw [this, decodeFrom]
  simp

/-- **A cut encoding decodes, if at all, to a strict prefix of the message**, from a block still open. -/
theorem decodeFrom_cut : ∀ (xs run : List UInt8) (z : Bool) (p q d : List UInt8), run.length ≤ 253 → p ≠ [] → q ≠ [] →
    p ++ q = encodeFrom run xs → decodeFrom 0 z p = some d → ∃ t, t ≠ [] ∧ d ++ t = pending z ++ (run ++ xs)
  | [], run, z, p, q, d, h, hp, hq, hpq, hd => by
    rw [decodeFrom_block_cut z run p q (by omega) hp hq hpq] at hd
    cases hd
  | x :: xs, run, z, p, q, d, h, hp, hq, hpq, hd => by
    by_cases hx : x = 0
    · subst hx
      rw [encodeFrom_zero] at hpq
      rcases prefix_block_append hpq with ⟨q', hq', hb⟩ | ⟨rfl, -⟩ | ⟨p', hp', rfl, he⟩
      · rw [decodeFrom_block_cut z run p q' (by omega) hp hq' hb] at hd
        cases hd
      · rw [decodeFrom_block_nil z run (by omega), Option.some.injEq] at hd
        exact ⟨0 :: xs, by simp, by rw [← hd, List.append_assoc]⟩
      · rw [decodeFrom_block z run p' (by omega)] at hd
        obtain ⟨d', hd', rfl⟩ := Option.map_eq_some_iff.1 hd
        obtain ⟨t, ht, hdt⟩ := decodeFrom_cut xs [] _ p' q d' (by simp) hp' hq he hd'
        have hr : run.length ≠ 254 := by omega
        simp only [hr, ne_eq, not_false_eq_true, decide_true, pending_true, List.nil_append, List.cons_append] at hdt
        exact ⟨t, ht, by rw [← hdt]; simp⟩
    · by_cases hr : run.length = 253
      · have hfull : (run ++ [x]).length ≤ 254 := by simp [hr]
        rw [encodeFrom_full xs hx hr] at hpq
        rcases prefix_block_append hpq with ⟨q', hq', hb⟩ | ⟨rfl, he⟩ | ⟨p', hp', rfl, he⟩
        · rw [decodeFrom_block_cut z (run ++ [x]) p q' hfull hp hq' hb] at hd
          cases hd
        · rw [decodeFrom_block_nil z (run ++ [x]) hfull, Option.some.injEq] at hd
          -- nothing follows a full last block, so the cut is elsewhere
          have hxs : xs ≠ [] := fun hnil => hq (by rw [he, hnil]; rfl)
          exact ⟨xs, hxs, by rw [← hd]; simp⟩
        · rw [decodeFrom_block z (run ++ [x]) p' hfull] at hd
          obtain ⟨d', hd', rfl⟩ := Option.map_eq_some_iff.1 hd
          split at he
          · exact absurd (List.append_eq_nil_iff.1 he).1 hp'
          · obtain ⟨t, ht, hdt⟩ := decodeFrom_cut xs [] _ p' q d' (by simp) hp' hq he hd'
            simp only [List.length_append, hr, List.length_singleton, ne_eq, not_true_eq_false, decide_false,
              pending_false, List.nil_append] at hdt
            exact ⟨t, ht, by rw [← hdt]; simp⟩
      · rw [encodeFrom_push xs hx hr] at hpq
        obtain ⟨t, ht, hdt⟩ := decodeFrom_cut xs (run ++ [x]) z p q d (by simp; omega) hp hq hpq hd
        exact ⟨t, ht, by rw [hdt]; simp⟩

/-- **A cut encoding decodes, if at all, to a strict prefix of the message.** -/
theorem decode_cut {xs p q d : List UInt8} (hp : p ≠ []) (hq : q ≠ []) (hpq : p ++ q = encode xs)
    (hd : decode p = some d) : ∃ t, t ≠ [] ∧ d ++ t = xs := by
  simpa using decodeFrom_cut xs [] false p q d (by simp) hp hq hpq hd

/-! ## Encodings run together -/

/-- **Encodings one behind the other always decode**, to at least the bytes of their messages. -/
theorem decodeFrom_flatMap_encode : ∀ (xss : List (List UInt8)) (z : Bool),
    ∃ d, decodeFrom 0 z (xss.flatMap encode) = some d ∧ xss.flatten.length ≤ d.length
  | [], _ => ⟨[], rfl, Nat.le_refl _⟩
  | xs :: xss, z => by
    obtain ⟨z', h⟩ := decodeFrom_encode_append z xs (xss.flatMap encode)
    obtain ⟨d, hd, hlen⟩ := decodeFrom_flatMap_encode xss z'
    refine ⟨pending z ++ (xs ++ d), by rw [List.flatMap_cons, h, hd]; rfl, ?_⟩
    simp only [List.flatten_cons, List.length_append]
    omega

/-- **The first message comes out whole**, and the others behind it. -/
theorem decode_flatMap_encode (xs : List UInt8) (xss : List (List UInt8)) :
    ∃ d, decode (encode xs ++ xss.flatMap encode) = some (xs ++ d) ∧ xss.flatten.length ≤ d.length := by
  obtain ⟨z', h⟩ := decodeFrom_encode_append false xs (xss.flatMap encode)
  obtain ⟨d, hd, hlen⟩ := decodeFrom_flatMap_encode xss z'
  refine ⟨d, ?_, hlen⟩
  rw [decode, h, hd]
  rfl

/-! ## A changed byte -/

theorem pending_append_modify (z : Bool) (d : List UInt8) (j : Nat) (f : UInt8 → UInt8) :
    pending z ++ d.modify j f = (pending z ++ d).modify ((pending z).length + j) f := by
  cases z with
  | false => rw [pending_false, List.length_nil, Nat.zero_add, List.nil_append, List.nil_append]
  | true =>
    rw [pending_true, List.length_singleton, Nat.add_comm]
    exact (List.modify_succ_cons f 0 d j).symm

/-- A code does not reach behind the end. -/
theorem code_le {z : Bool} {c : UInt8} {bs d : List UInt8} (h : decodeFrom 0 z (c :: bs) = some d) :
    c.toNat ≤ bs.length + 1 := by
  rw [decodeFrom] at h
  split at h
  · cases h
  obtain ⟨e, he, -⟩ := Option.map_eq_some_iff.1 h
  by_contra hlong
  rw [decodeFrom_short _ _ _ (by omega)] at he
  cases he

/-- The first byte of an encoding is a code of its length at most. -/
theorem head_encode_le {xs : List UInt8} {b : UInt8} (h : (encode xs).head? = some b) :
    b.toNat ≤ (encode xs).length := by
  have hdec := decode_encode xs
  cases henc : encode xs with
  | nil => exact absurd henc (encode_ne_nil xs)
  | cons b' bs =>
    rw [henc] at h hdec
    obtain rfl := Option.some.inj h
    exact code_le hdec

/-- **One byte of at most `n` changed by a map that sends every code out of reach**: the decoding fails, or one byte of
the message is changed. -/
theorem decodeFrom_modify {f : UInt8 → UInt8} {n : Nat} (hf : ∀ c : UInt8, c.toNat ≤ n → n < (f c).toNat) :
    ∀ (k : Nat) (z : Bool) (bs : List UInt8) (i : Nat) {d : List UInt8}, bs.length ≤ n → i < bs.length →
      decodeFrom k z bs = some d → decodeFrom k z (bs.modify i f) = none ∨
        ∃ j, j < d.length ∧ decodeFrom k z (bs.modify i f) = some (d.modify j f)
  | 0, z, c :: bs, 0, d, hn, _, hd => by
    -- the code: it now reaches behind the end
    left
    have hreach := code_le hd
    rw [List.length_cons] at hn
    have hfar := hf c (by omega)
    have hne : f c ≠ 0 := fun h => by
      rw [h] at hfar
      exact absurd hfar (Nat.not_lt_zero n)
    rw [List.modify_zero_cons, decodeFrom, if_neg hne, decodeFrom_short _ _ _ (by omega)]
    rfl
  | 0, z, c :: bs, i + 1, d, hn, hi, hd => by
    rw [decodeFrom] at hd
    split at hd
    · cases hd
    rename_i hc
    obtain ⟨e, he, rfl⟩ := Option.map_eq_some_iff.1 hd
    rw [List.modify_succ_cons, decodeFrom, if_neg hc]
    have ih := decodeFrom_modify hf _ _ bs i (Nat.le_of_succ_le hn) (Nat.lt_of_succ_lt_succ hi) he
    rcases ih with hnone | ⟨j, hj, hsome⟩
    · left
      rw [hnone]
      rfl
    · right
      refine ⟨(pending z).length + j, by rw [List.length_append]; omega, ?_⟩
      rw [hsome, Option.map_some, pending_append_modify]
  | k + 1, z, b :: bs, 0, d, _, _, hd => by
    obtain ⟨e, he, rfl⟩ := Option.map_eq_some_iff.1 hd
    right
    refine ⟨0, Nat.succ_pos _, ?_⟩
    rw [List.modify_zero_cons, List.modify_zero_cons, decodeFrom, he]
    rfl
  | k + 1, z, b :: bs, i + 1, d, hn, hi, hd => by
    obtain ⟨e, he, rfl⟩ := Option.map_eq_some_iff.1 hd
    rw [List.modify_succ_cons, decodeFrom]
    have ih := decodeFrom_modify hf k z bs i (Nat.le_of_succ_le hn) (Nat.lt_of_succ_lt_succ hi) he
    rcases ih with hnone | ⟨j, hj, hsome⟩
    · left
      rw [hnone]
      rfl
    · right
      refine ⟨j + 1, Nat.succ_lt_succ hj, ?_⟩
      rw [hsome, Option.map_some, List.modify_succ_cons]

/-- **A byte of an encoding of at most `n` bytes changed by such a map.** -/
theorem decode_modify {f : UInt8 → UInt8} {n : Nat} (hf : ∀ c : UInt8, c.toNat ≤ n → n < (f c).toNat) {xs : List UInt8}
    (hn : (encode xs).length ≤ n) {i : Nat} (hi : i < (encode xs).length) :
    decode ((encode xs).modify i f) = none ∨
      ∃ j, j < xs.length ∧ decode ((encode xs).modify i f) = some (xs.modify j f) :=
  decodeFrom_modify hf 0 false (encode xs) i hn hi (decode_encode xs)

end Cobs
