import TelemetryLogger.Lib.Codec
import TelemetryLogger.Lib.Cobs
import TelemetryLogger.Lib.Crc
import TelemetryLogger.Protocol
/-!
# Crates — the third-party code under the core

The core calls `cobs` 0.3, `crc` 3 and `postcard` 1.1, which are not in the repository.  They are a parameter
`c : Crates` of every definition that reaches them, and `c.Standard` says they do what they document: standard COBS with
no empty block after a full last one, the two catalogue CRCs, and the postcard wire format (a varint discriminant,
varint integers, a varint length before a sequence).
-/
namespace Telemetry

structure RecordV1 where
  timestampUs : UInt64
  sequence : UInt32
  packetType : UInt8
  severity : UInt8
  payload : Heapless.Vec UInt8 maxPayload
  deriving DecidableEq

inductive StoredRecord
  | v1 (r : RecordV1)
  deriving DecidableEq

structure Crates where
  /-- `cobs::max_encoding_length`. -/
  maxEncodingLength : Nat → Nat
  /-- `cobs::encode`: the bytes it writes at the front of a long enough destination. -/
  cobsEncode : List UInt8 → List UInt8
  /-- `cobs::decode_in_place`: the decoded bytes it leaves at the front of the slice. -/
  cobsDecode : List UInt8 → Option (List UInt8)
  /-- The digest of `CRC_16_IBM_SDLC` over all the bytes it was fed. -/
  crc16 : List UInt8 → UInt16
  /-- The checksum of `CRC_32_ISO_HDLC`. -/
  crc32 : List UInt8 → UInt32
  /-- `postcard::to_slice`: the bytes it writes into a long enough buffer. -/
  postcardSer : StoredRecord → List UInt8
  /-- `postcard::from_bytes::<StoredRecord>`. -/
  postcardDe : List UInt8 → Option StoredRecord

def recordV1Format : Codec.Format RecordV1 :=
  (Codec.varintU64.pair (Codec.varintU32.pair (Codec.u8.pair (Codec.u8.pair (Codec.bytes maxPayload (by decide)))))).iso
    (fun x => ⟨x.1, x.2.1, x.2.2.1, x.2.2.2.1, x.2.2.2.2⟩)
    (fun r => (r.timestampUs, r.sequence, r.packetType, r.severity, r.payload))
    (fun _ => rfl)

def storedRecordFormat : Codec.Format StoredRecord :=
  (Codec.varintU32.variant 0 recordV1Format).iso .v1 (fun | .v1 r => r) (fun | .v1 _ => rfl)

/-- **The crates do what they document.** -/
structure Crates.Standard (c : Crates) : Prop where
  maxEncodingLength : ∀ n, c.maxEncodingLength n = Cobs.maxLength n
  cobsEncode : ∀ xs, xs ≠ [] → c.cobsEncode xs = Cobs.encode xs
  cobsDecode : ∀ bs, 0 ∉ bs → c.cobsDecode bs = Cobs.decode bs
  crc16 : ∀ bs, c.crc16 bs = UInt16.ofBitVec (Crc.checksum Crc.ibmSdlc bs)
  crc32 : ∀ bs, c.crc32 bs = UInt32.ofBitVec (Crc.checksum Crc.isoHdlc bs)
  postcardSer : ∀ r, c.postcardSer r = storedRecordFormat.ser r
  postcardDe : ∀ bs, c.postcardDe bs = storedRecordFormat.fromBytes bs

def Crates.documented : Crates where
  maxEncodingLength := Cobs.maxLength
  cobsEncode := Cobs.encode
  cobsDecode := Cobs.decode
  crc16 bs := UInt16.ofBitVec (Crc.checksum Crc.ibmSdlc bs)
  crc32 bs := UInt32.ofBitVec (Crc.checksum Crc.isoHdlc bs)
  postcardSer := storedRecordFormat.ser
  postcardDe := storedRecordFormat.fromBytes

theorem Crates.documented_standard : Crates.documented.Standard :=
  ⟨fun _ => rfl, fun _ _ => rfl, fun _ _ => rfl, fun _ => rfl, fun _ => rfl, fun _ => rfl, fun _ => rfl⟩

namespace Crates.Standard

variable {c : Crates} (hc : c.Standard)
include hc

/-- **An encoded message decodes to itself.** -/
theorem decode_encode {xs : List UInt8} (h : xs ≠ []) : c.cobsDecode (c.cobsEncode xs) = some xs := by
  rw [hc.cobsEncode xs h, hc.cobsDecode _ (Cobs.zero_not_mem_encode xs), Cobs.decode_encode]

theorem zero_not_mem_encode {xs : List UInt8} (h : xs ≠ []) : 0 ∉ c.cobsEncode xs := by
  rw [hc.cobsEncode xs h]
  exact Cobs.zero_not_mem_encode xs

theorem encode_ne_nil {xs : List UInt8} (h : xs ≠ []) : c.cobsEncode xs ≠ [] := by
  rw [hc.cobsEncode xs h]
  exact Cobs.encode_ne_nil xs

theorem length_encode_le {xs : List UInt8} (h : xs ≠ []) : (c.cobsEncode xs).length ≤ Cobs.maxLength xs.length := by
  rw [hc.cobsEncode xs h]
  exact Cobs.length_encode_le h

theorem postcardDe_ser (r : StoredRecord) : c.postcardDe (c.postcardSer r) = some r := by
  rw [hc.postcardSer, hc.postcardDe, Codec.Format.fromBytes_ser]

end Crates.Standard

/-- **A record takes at most 500 postcard bytes**: the discriminant, two varints, two bytes, the length, the
payload. -/
theorem length_storedRecordFormat_ser_le (r : StoredRecord) :
    1 ≤ (storedRecordFormat.ser r).length ∧ (storedRecordFormat.ser r).length ≤ 500 := by
  obtain ⟨r⟩ := r
  have hts := Codec.length_varintSer_le 10 r.timestampUs.toNat
  have hseq := Codec.length_varintSer_le 5 r.sequence.toNat
  have hpay := r.payload.length_le
  have hlt : r.payload.toList.length < 128 ^ 2 := Nat.lt_of_le_of_lt hpay (by decide)
  have hlen := Codec.length_varintSer_lt 2 10 r.payload.toList.length hlt (by decide)
  have hser : storedRecordFormat.ser (.v1 r) = Codec.varintSer 5 0 ++ (Codec.varintSer 10 r.timestampUs.toNat ++
      (Codec.varintSer 5 r.sequence.toNat ++ ([r.packetType] ++ ([r.severity] ++
        (Codec.varintSer 10 r.payload.toList.length ++ r.payload.toList))))) := rfl
  have htag : Codec.varintSer 5 0 = [0] := rfl
  rw [hser, htag]
  simp only [List.length_append, List.length_singleton, maxPayload] at *
  omega

end Telemetry
