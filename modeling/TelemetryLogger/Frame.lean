import TelemetryLogger.Crates
/-!
# Frame — the wire frame and its encoder (`frame.rs`)

A destination buffer is known by its length; an encoder returns the bytes it wrote at its front, or `none` when it is
too short.  `encodeCobs_eq_some` says when encoding succeeds and what it writes.
-/
namespace Telemetry

open Bytes (u16ToLe u32ToLe u16OfLe u32OfLe)

def maxCobsFrameBytes : Nat := 494

structure Header where
  version : UInt8
  packetType : UInt8
  severity : UInt8
  sequence : UInt32
  payloadLen : UInt16
  deriving DecidableEq

structure Frame where
  header : Header
  payload : Heapless.Vec UInt8 maxPayload
  crcBytes : UInt8 × UInt8
  deriving DecidableEq

theorem Frame.ext_of {f g : Frame} (hh : f.header = g.header) (hp : f.payload.toList = g.payload.toList)
    (hc : f.crcBytes = g.crcBytes) : f = g := by
  obtain ⟨fh, fp, fc⟩ := f
  obtain ⟨gh, gp, gc⟩ := g
  obtain rfl : fp = gp := Heapless.Vec.ext hp
  obtain rfl : fh = gh := hh
  obtain rfl : fc = gc := hc
  rfl

/-- `u16::to_le_bytes` as the pair of bytes it is. -/
def leBytes (x : UInt16) : UInt8 × UInt8 := (UInt8.ofNat x.toNat, UInt8.ofNat (x.toNat / 256))

/-- `u16::from_le_bytes` of such a pair. -/
def ofLeBytes (b : UInt8 × UInt8) : UInt16 := u16OfLe [b.1, b.2]

theorem ofLeBytes_leBytes (x : UInt16) : ofLeBytes (leBytes x) = x := Bytes.u16OfLe_u16ToLe x

namespace Frame

/-- `u16::try_from`. -/
def u16TryFrom (n : Nat) : Option UInt16 := if n < 65536 then some (UInt16.ofNat n) else none

def new (packetType severity : UInt8) (sequence : UInt32) (payload : List UInt8) : Option Frame :=
  if payload.length > maxPayload then none
  else
    (Heapless.Vec.new.extendFromSlice payload).bind fun p =>
      (u16TryFrom payload.length).bind fun payloadLen =>
        some ⟨⟨protocolVersion, packetType, severity, sequence, payloadLen⟩, p, (0, 0)⟩

def rawLen (f : Frame) : Nat := minFrameLen + f.payload.len

def computeCrc (c : Crates) (f : Frame) : UInt8 × UInt8 :=
  leBytes (c.crc16 ([f.header.version, f.header.packetType, f.header.severity] ++ u32ToLe f.header.sequence
    ++ u16ToLe f.header.payloadLen ++ f.payload.toList))

def encodeRaw (c : Crates) (f : Frame) (bufLen : Nat) : Option (List UInt8) :=
  if bufLen < f.rawLen then none
  else
    let crc := f.computeCrc c
    some (f.header.version :: f.header.packetType :: f.header.severity :: (u32ToLe f.header.sequence
      ++ (u16ToLe f.header.payloadLen ++ (f.payload.toList ++ [crc.1, crc.2]))))

def encodeCobs (c : Crates) (f : Frame) (bufLen : Nat) : Option (List UInt8) :=
  (f.encodeRaw c (minFrameLen + maxPayload)).bind fun raw =>
    if bufLen < c.maxEncodingLength raw.length + 1 then none else some (c.cobsEncode raw ++ [0x00])

/-! ## The bytes of a frame -/

/-- The header and the payload, in wire order: what the CRC covers. -/
def covered (f : Frame) : List UInt8 :=
  f.header.version :: f.header.packetType :: f.header.severity :: (u32ToLe f.header.sequence
    ++ (u16ToLe f.header.payloadLen ++ f.payload.toList))

/-- The frame before `COBS`, with these CRC bytes. -/
def raw (f : Frame) (crc : UInt8 × UInt8) : List UInt8 := f.covered ++ [crc.1, crc.2]

theorem encodeRaw_eq (c : Crates) (f : Frame) (bufLen : Nat) :
    f.encodeRaw c bufLen = if bufLen < f.rawLen then none else some (f.raw (f.computeCrc c)) := by
  simp only [encodeRaw, raw, covered, List.cons_append, List.append_assoc]

@[simp] theorem length_covered (f : Frame) : f.covered.length = headerLen + f.payload.toList.length := by
  simp only [covered, List.length_cons, List.length_append, Bytes.length_u32ToLe, Bytes.length_u16ToLe, headerLen]
  omega

@[simp] theorem length_raw (f : Frame) (crc : UInt8 × UInt8) :
    (f.raw crc).length = minFrameLen + f.payload.toList.length := by
  rw [raw, List.length_append, length_covered, minFrameLen, crc16Len]
  exact Nat.add_right_comm _ _ _

theorem raw_ne_nil (f : Frame) (crc : UInt8 × UInt8) : f.raw crc ≠ [] := fun h => by
  have := length_raw f crc
  rw [h, minFrameLen, headerLen, crc16Len, List.length_nil] at this
  omega

theorem rawLen_le (f : Frame) : f.rawLen ≤ minFrameLen + maxPayload :=
  Nat.add_le_add_left f.payload.length_le minFrameLen

theorem encodeRaw_self (c : Crates) (f : Frame) :
    f.encodeRaw c (minFrameLen + maxPayload) = some (f.raw (f.computeCrc c)) := by
  rw [encodeRaw_eq, if_neg (Nat.not_lt.2 f.rawLen_le)]

def body (c : Crates) (f : Frame) : List UInt8 := c.cobsEncode (f.raw (f.computeCrc c))

/-- **Encoding succeeds exactly when the buffer holds the worst case of this length**, and writes the body and a
delimiter. -/
theorem encodeCobs_eq (c : Crates) (f : Frame) (bufLen : Nat) :
    f.encodeCobs c bufLen
      = if bufLen < c.maxEncodingLength f.rawLen + 1 then none else some (f.body c ++ [0x00]) := by
  rw [encodeCobs, encodeRaw_self, Option.bind_some, length_raw]
  rfl

theorem maxLength_rawLen_le (f : Frame) : Cobs.maxLength f.rawLen ≤ 493 := by
  have := f.rawLen_le
  simp only [Cobs.maxLength, minFrameLen, headerLen, crc16Len, maxPayload] at *
  omega

/-- **A buffer of `maxCobsFrameBytes` is always long enough.** -/
theorem encodeCobs_eq_some {c : Crates} (hc : c.Standard) (f : Frame) {bufLen : Nat}
    (hbuf : maxCobsFrameBytes ≤ bufLen) :
    f.encodeCobs c bufLen = some (f.body c ++ [0x00]) := by
  have := f.maxLength_rawLen_le
  rw [encodeCobs_eq, if_neg]
  rw [hc.maxEncodingLength]
  unfold maxCobsFrameBytes at hbuf
  omega

theorem length_body_le {c : Crates} (hc : c.Standard) (f : Frame) : (f.body c).length ≤ 493 := by
  have h := hc.length_encode_le (f.raw_ne_nil (f.computeCrc c))
  rw [length_raw] at h
  exact Nat.le_trans h f.maxLength_rawLen_le

theorem zero_not_mem_body {c : Crates} (hc : c.Standard) (f : Frame) : 0 ∉ f.body c :=
  hc.zero_not_mem_encode (f.raw_ne_nil _)

theorem body_ne_nil {c : Crates} (hc : c.Standard) (f : Frame) : f.body c ≠ [] := hc.encode_ne_nil (f.raw_ne_nil _)

/-- **What `new` builds**: the fields given, the protocol version and the payload's length. -/
theorem new_eq_some {packetType severity : UInt8} {sequence : UInt32} {payload : List UInt8} {f : Frame}
    (h : new packetType severity sequence payload = some f) :
    f.payload.toList = payload ∧
      f.header = ⟨protocolVersion, packetType, severity, sequence, UInt16.ofNat payload.length⟩ ∧
      f.header.payloadLen.toNat = f.payload.toList.length := by
  unfold new at h
  split at h
  · cases h
  · rename_i hlen
    have hle : payload.length ≤ maxPayload := Nat.not_lt.1 hlen
    have h16 : payload.length < 65536 := by unfold maxPayload at hle; omega
    rw [Heapless.Vec.extendFromSlice_new payload hle, Option.bind_some, u16TryFrom, if_pos h16, Option.bind_some,
      Option.some.injEq] at h
    subst h
    refine ⟨rfl, rfl, ?_⟩
    rw [UInt16.toNat_ofNat']
    exact Nat.mod_eq_of_lt h16

theorem new_isSome (packetType severity : UInt8) (sequence : UInt32) (payload : List UInt8) :
    (new packetType severity sequence payload).isSome = true ↔ payload.length ≤ maxPayload := by
  unfold new
  split
  · rename_i h
    simp only [Option.isSome_none, Bool.false_eq_true, false_iff]
    exact Nat.not_le.2 h
  · rename_i h
    have hle : payload.length ≤ maxPayload := Nat.not_lt.1 h
    have h16 : payload.length < 65536 := by unfold maxPayload at hle; omega
    rw [Heapless.Vec.extendFromSlice_new payload hle, Option.bind_some, u16TryFrom, if_pos h16]
    exact ⟨fun _ => hle, fun _ => rfl⟩

end Frame

end Telemetry
