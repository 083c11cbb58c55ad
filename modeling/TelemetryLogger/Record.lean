import TelemetryLogger.Crates
import TelemetryLogger.Lib.Bytes
/-!
# Record — the on-disk record (`record.rs`)

A stored record is `COBS(postcard ++ CRC-32)` and a delimiter.  A whole record decodes to itself, with or without the
delimiter; a cut one does not decode, whatever the checksum of the cut says (`decode_cut`).
-/
namespace Telemetry

open Bytes (u32ToLe u32OfLe)

def maxStoredRecordBytes : Nat := 512

namespace Record

/-- What `record::encode` leaves at the front of a buffer of `bufLen` bytes. -/
def encode (c : Crates) (record : StoredRecord) (bufLen : Nat) : Except Error (List UInt8) :=
  let postcard := c.postcardSer record
  if maxStoredRecordBytes < postcard.length then .error .codec
  else
    let crcBytes := u32ToLe (c.crc32 postcard)
    let preCobsEnd := postcard.length + 4
    if preCobsEnd > maxStoredRecordBytes then .error .codec
    else
      let maxCobs := c.maxEncodingLength preCobsEnd
      if bufLen < maxCobs + 1 then .error .codec else .ok (c.cobsEncode (postcard ++ crcBytes) ++ [0x00])

def decode (c : Crates) (buf : List UInt8) : Except Error StoredRecord :=
  let cobsBytes := if buf.getLast? = some 0x00 then buf.dropLast else buf
  if cobsBytes.isEmpty then .error .codec
  else if cobsBytes.length > maxStoredRecordBytes then .error .codec
  else
    match c.cobsDecode cobsBytes with
    | none => .error .codec
    | some decoded =>
      if decoded.length < 4 then .error .codec
      else
        let postcardEnd := decoded.length - 4
        let storedCrc := u32OfLe (decoded.drop postcardEnd)
        let computedCrc := c.crc32 (decoded.take postcardEnd)
        if computedCrc ≠ storedCrc then .error .codec
        else
          match c.postcardDe (decoded.take postcardEnd) with
          | none => .error .codec
          | some record => .ok record

/-! ## The bytes of a record -/

/-- The record and its checksum, before `COBS`. -/
def blob (c : Crates) (r : StoredRecord) : List UInt8 := c.postcardSer r ++ u32ToLe (c.crc32 (c.postcardSer r))

def body (c : Crates) (r : StoredRecord) : List UInt8 := c.cobsEncode (blob c r)

def image (c : Crates) (r : StoredRecord) : List UInt8 := body c r ++ [0x00]

theorem length_image (c : Crates) (r : StoredRecord) : (image c r).length = (body c r).length + 1 := List.length_append

theorem length_blob (c : Crates) (r : StoredRecord) : (blob c r).length = (c.postcardSer r).length + 4 := by
  rw [blob, List.length_append, Bytes.length_u32ToLe]

theorem append_crc_ne_nil (c : Crates) (b : List UInt8) : b ++ u32ToLe (c.crc32 b) ≠ [] := by
  intro h
  have := congrArg List.length h
  rw [List.length_append, Bytes.length_u32ToLe, List.length_nil] at this
  omega

theorem blob_ne_nil (c : Crates) (r : StoredRecord) : blob c r ≠ [] := append_crc_ne_nil c _

/-- Any bytes as a chunk of a segment: their checksum behind them, then `COBS`. -/
def wrap (c : Crates) (b : List UInt8) : List UInt8 := c.cobsEncode (b ++ u32ToLe (c.crc32 b))

variable {c : Crates} (hc : c.Standard)
include hc

theorem length_postcardSer_le (r : StoredRecord) : (c.postcardSer r).length ≤ 500 := by
  rw [hc.postcardSer]
  exact (length_storedRecordFormat_ser_le r).2

theorem length_blob_le (r : StoredRecord) : (blob c r).length ≤ 504 := by
  rw [length_blob]
  exact Nat.add_le_add_right (length_postcardSer_le hc r) 4

theorem maxLength_blob_le (r : StoredRecord) : Cobs.maxLength (blob c r).length ≤ 506 := by
  have := length_blob_le hc r
  unfold Cobs.maxLength
  omega

theorem length_body_le (r : StoredRecord) : (body c r).length ≤ 506 :=
  Nat.le_trans (hc.length_encode_le (blob_ne_nil c r)) (maxLength_blob_le hc r)

theorem zero_not_mem_body (r : StoredRecord) : 0 ∉ body c r := hc.zero_not_mem_encode (blob_ne_nil c r)

theorem body_ne_nil (r : StoredRecord) : body c r ≠ [] := hc.encode_ne_nil (blob_ne_nil c r)

/-- **A buffer of 507 bytes holds every record**, so encoding succeeds. -/
theorem encode_eq_ok (r : StoredRecord) {bufLen : Nat} (hbuf : 507 ≤ bufLen) :
    encode c r bufLen = .ok (image c r) := by
  have hlen := length_postcardSer_le hc r
  have hmax := maxLength_blob_le hc r
  rw [length_blob] at hmax
  unfold encode
  simp only [hc.maxEncodingLength]
  rw [if_neg, if_neg, if_neg]
  · rfl
  · omega
  · unfold maxStoredRecordBytes
    omega
  · unfold maxStoredRecordBytes
    omega

/-! ## Decoding -/

omit hc in
theorem decode_snoc_zero {p : List UInt8} (hp : 0 ∉ p) : decode c (p ++ [0x00]) = decode c p := by
  have hlast : p.getLast? ≠ some 0 := fun h => hp (List.mem_of_getLast? h)
  unfold decode
  rw [if_pos List.getLast?_concat, List.dropLast_concat, if_neg hlast]

omit hc in
theorem decode_of_not_mem {p : List UInt8} (hp : 0 ∉ p) : decode c p =
    if p = [] ∨ maxStoredRecordBytes < p.length then .error .codec
    else
      match c.cobsDecode p with
      | none => .error .codec
      | some d =>
        if d.length < 4 ∨ c.crc32 (d.take (d.length - 4)) ≠ u32OfLe (d.drop (d.length - 4)) then .error .codec
        else
          match c.postcardDe (d.take (d.length - 4)) with
          | none => .error .codec
          | some r => .ok r := by
  have hlast : p.getLast? ≠ some 0 := fun h => hp (List.mem_of_getLast? h)
  unfold decode
  simp only [if_neg hlast, List.isEmpty_iff]
  by_cases hnil : p = []
  · rw [if_pos hnil, if_pos (Or.inl hnil)]
  by_cases hlong : maxStoredRecordBytes < p.length
  · rw [if_neg hnil, if_pos hlong, if_pos (Or.inr hlong)]
  rw [if_neg hnil, if_neg hlong, if_neg (not_or.2 ⟨hnil, hlong⟩)]
  cases c.cobsDecode p with
  | none => rfl
  | some d =>
    simp only
    by_cases hshort : d.length < 4
    · rw [if_pos hshort, if_pos (Or.inl hshort)]
    by_cases hcrc : c.crc32 (d.take (d.length - 4)) ≠ u32OfLe (d.drop (d.length - 4))
    · rw [if_neg hshort, if_pos hcrc, if_pos (Or.inr hcrc)]
    rw [if_neg hshort, if_neg hcrc, if_neg (not_or.2 ⟨hshort, hcrc⟩)]

theorem zero_not_mem_wrap (b : List UInt8) : 0 ∉ wrap c b := hc.zero_not_mem_encode (append_crc_ne_nil c b)

theorem wrap_ne_nil (b : List UInt8) : wrap c b ≠ [] := hc.encode_ne_nil (append_crc_ne_nil c b)

/-- **A wrapped chunk of at most 512 bytes decodes to what `postcard` reads in it.** -/
theorem decode_wrap {b : List UInt8} (h : (wrap c b).length ≤ maxStoredRecordBytes) :
    decode c (wrap c b) = match c.postcardDe b with
      | none => .error .codec
      | some r => .ok r := by
  have hlen : (b ++ u32ToLe (c.crc32 b)).length = b.length + 4 := by
    rw [List.length_append, Bytes.length_u32ToLe]
  have hend : (b ++ u32ToLe (c.crc32 b)).length - 4 = b.length := by
    rw [hlen]
    exact Nat.add_sub_cancel _ 4
  rw [decode_of_not_mem (zero_not_mem_wrap hc b), if_neg (not_or.2 ⟨wrap_ne_nil hc b, Nat.not_lt.2 h⟩), wrap,
    hc.decode_encode (append_crc_ne_nil c b)]
  simp only [hend]
  rw [List.take_left, List.drop_left, Bytes.u32OfLe_u32ToLe, hlen, if_neg]
  rintro (h | h)
  · exact Nat.not_lt.2 (Nat.le_add_left 4 _) h
  · exact h rfl

/-- **A whole record decodes to itself.** -/
theorem decode_body (r : StoredRecord) : decode c (body c r) = .ok r := by
  have hlen : (wrap c (c.postcardSer r)).length ≤ maxStoredRecordBytes :=
    Nat.le_trans (length_body_le hc r) (by decide)
  have hdec := decode_wrap hc hlen
  rw [hc.postcardDe_ser] at hdec
  exact hdec

theorem decode_image (r : StoredRecord) : decode c (image c r) = .ok r := by
  rw [image, decode_snoc_zero (zero_not_mem_body hc r), decode_body hc]

theorem image_injective : Function.Injective (image c) := by
  intro r r' h
  have hr := decode_image hc r
  rw [h, decode_image hc r'] at hr
  exact (Except.ok.inj hr).symm

theorem postcardDe_cut {r : StoredRecord} {d t : List UInt8} (ht : t ≠ []) (hdt : d ++ t = blob c r)
    (hd : 4 ≤ d.length) : c.postcardDe (d.take (d.length - 4)) = none := by
  have htlen := List.length_pos_iff.2 ht
  have hlen := congrArg List.length hdt
  rw [List.length_append, length_blob] at hlen
  have hpre : d.take (d.length - 4) <+: c.postcardSer r := by
    refine List.prefix_of_prefix_length_le ((List.take_prefix _ d).trans (hdt ▸ List.prefix_append d t))
      (List.prefix_append _ _) ?_
    rw [List.length_take]
    omega
  obtain ⟨q, hq⟩ := hpre
  have hqne : q ≠ [] := by
    rintro rfl
    have := congrArg List.length hq
    rw [List.append_nil, List.length_take] at this
    omega
  rw [hc.postcardSer] at hq
  rw [hc.postcardDe, Codec.Format.fromBytes_eq_none_of_cut _ hqne hq]

/-- **A cut record does not decode**, even where the checksum of the cut matches. -/
theorem decode_cut {r : StoredRecord} {p q : List UInt8} (hq : q ≠ []) (hpq : p ++ q = body c r) :
    decode c p = .error .codec := by
  have hmem : 0 ∉ p := fun h => zero_not_mem_body hc r (hpq ▸ List.mem_append_left q h)
  rw [decode_of_not_mem hmem]
  by_cases hp : p = []
  · rw [if_pos (Or.inl hp)]
  split
  · rfl
  rw [hc.cobsDecode p hmem]
  cases hd : Cobs.decode p with
  | none => rfl
  | some d =>
    rw [body, hc.cobsEncode _ (blob_ne_nil c r)] at hpq
    obtain ⟨t, ht, hdt⟩ := Cobs.decode_cut hp hq hpq hd
    simp only
    split
    · rfl
    · rename_i hgood
      have hshort := Nat.not_lt.1 (not_or.1 hgood).1
      rw [postcardDe_cut hc ht hdt hshort]

end Record

end Telemetry
