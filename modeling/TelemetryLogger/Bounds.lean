import TelemetryLogger.Framer
import TelemetryLogger.Record
import TelemetryLogger.Lib.Access
/-!
# Bounds — every access in range (`framer.rs`, `frame.rs`, `record.rs`)

The functions that index and slice are embedded once more, on whole buffers and with accesses that fail out of range:
`none` is a panic.  None of them fails, and they do what the functions of the model do (`accesses_in_range`).  Of the
crates only the lengths matter.
-/
namespace Telemetry

open Access (copyInto index onto slice store sub)
open Bytes (u16ToLe u32ToLe u16OfLe u32OfLe)

namespace Crates

/-- **What is assumed of `cobs`**: it writes no more than it announces, and decodes to no more than it reads. -/
structure Bounded (c : Crates) : Prop where
  cobsEncode : ∀ xs, xs ≠ [] → (c.cobsEncode xs).length ≤ c.maxEncodingLength xs.length
  cobsDecode : ∀ bs d, c.cobsDecode bs = some d → d.length ≤ bs.length

/-- `cobs::encode`: it panics when the destination is too short. -/
def encodeInto (c : Crates) (src dest : List UInt8) : Option (List UInt8 × Nat) :=
  if (c.cobsEncode src).length ≤ dest.length then some (onto (c.cobsEncode src) dest, (c.cobsEncode src).length)
  else none

/-- `cobs::decode_in_place`: the slice, with the decoded bytes at its front, and how many they are. -/
def decodeInPlace (c : Crates) (buf : List UInt8) : Option (List UInt8 × Nat) :=
  (c.cobsDecode buf).map (fun d => ((onto d buf).take buf.length, d.length))

end Crates

/-! ## The framer -/

/-- The places where `feed` and `process` return. -/
inductive Exit
  | incomplete
  | overflow
  | cobsError
  | tooShort
  | payloadTooLong
  | wrongLength
  /-- The copy of the payload failed: "this should not happen". -/
  | copyFailed
  | complete (frame : Frame)
  deriving DecidableEq

def Exit.output : Exit → FrameOutput
  | .incomplete => .incomplete
  | .overflow => .overflow
  | .cobsError => .cobsError
  | .tooShort | .payloadTooLong | .wrongLength | .copyFailed => .parseError
  | .complete frame => .complete frame

/-- `process`, behind the decoding in place: `buf` is the whole buffer. -/
def parseIn (buf : List UInt8) (decodedLen : Nat) : Option Exit :=
  if decodedLen < minFrameLen then some .tooShort
  else do
    let payloadLenU16 := u16OfLe [← index buf 7, ← index buf 8]
    let payloadLen := payloadLenU16.toNat
    if payloadLen > maxPayload then some .payloadTooLong
    else if decodedLen ≠ headerLen + payloadLen + crc16Len then some .wrongLength
    else do
      let sequence := u32OfLe [← index buf 3, ← index buf 4, ← index buf 5, ← index buf 6]
      let header : Header := ⟨← index buf 0, ← index buf 1, ← index buf 2, sequence, payloadLenU16⟩
      match Heapless.Vec.new.extendFromSlice (← slice buf headerLen (headerLen + payloadLen)) with
      | none => some .copyFailed
      | some payload => do
        let crcStart := headerLen + payloadLen
        some (.complete ⟨header, payload, (← index buf crcStart, ← index buf (crcStart + 1))⟩)

namespace Framer

variable {N : Nat}

/-- `feed` clears the buffer after `process`, so what is left in it is not kept here. -/
def processIn (c : Crates) (fr : Framer N) : Option (Framer N × Exit) :=
  match c.decodeInPlace fr.buf.toList with
  | none => some ({ fr with resyncCount := saturatingSucc fr.resyncCount }, .cobsError)
  | some (buf, decodedLen) => (parseIn buf decodedLen).map (fr, ·)

def feedIn (c : Crates) (fr : Framer N) (byte : UInt8) : Option (Framer N × Exit) :=
  match fr.state with
  | .discarding =>
    if byte = 0x00 then some ({ fr with buf := Heapless.Vec.new, state := .collecting }, .incomplete)
    else some (fr, .incomplete)
  | .collecting =>
    if byte ≠ 0x00 then
      match fr.buf.push byte with
      | none => some (⟨Heapless.Vec.new, .discarding, saturatingSucc fr.resyncCount⟩, .overflow)
      | some buf => some ({ fr with buf := buf }, .incomplete)
    else if fr.buf.isEmpty then some (fr, .incomplete)
    else (fr.processIn c).map (fun result => ({ result.1 with buf := Heapless.Vec.new }, result.2))

def feedAllIn (c : Crates) : Framer N → List UInt8 → Option (Framer N × List Exit)
  | fr, [] => some (fr, [])
  | fr, byte :: bytes => do
    let (fr, exit) ← fr.feedIn c byte
    let (fr, exits) ← feedAllIn c fr bytes
    some (fr, exit :: exits)

end Framer

/-- **No access of `process` fails** on a buffer with the decoded bytes at its front, nor does the copy. -/
theorem parseIn_onto (d buf : List UInt8) :
    ∃ exit, parseIn (onto d buf) d.length = some exit ∧ exit ≠ .copyFailed ∧ exit.output = parseDecoded d := by
  unfold parseIn parseDecoded
  by_cases hmin : d.length < minFrameLen
  · rw [if_pos hmin, if_pos hmin]
    exact ⟨.tooShort, rfl, by decide, rfl⟩
  have hindex : ∀ i, i < minFrameLen → index (onto d buf) i = some (d.getD i 0) :=
    fun i hi => Access.index_onto buf (Nat.lt_of_lt_of_le hi (Nat.not_lt.1 hmin)) 0
  rw [if_neg hmin, if_neg hmin, hindex 7 (by decide), hindex 8 (by decide)]
  simp only [Option.bind_eq_bind, Option.bind_some]
  by_cases hmax : (u16OfLe [d.getD 7 0, d.getD 8 0]).toNat > maxPayload
  · rw [if_pos hmax, if_pos hmax]
    exact ⟨.payloadTooLong, rfl, by decide, rfl⟩
  rw [if_neg hmax, if_neg hmax]
  generalize hlen : (u16OfLe [d.getD 7 0, d.getD 8 0]).toNat = payloadLen at *
  by_cases hwhole : d.length ≠ headerLen + payloadLen + crc16Len
  · rw [if_pos hwhole, if_pos hwhole]
    exact ⟨.wrongLength, rfl, by decide, rfl⟩
  have hd : d.length = headerLen + payloadLen + crc16Len := Decidable.not_not.1 hwhole
  have hslice : slice (onto d buf) headerLen (headerLen + payloadLen) = some ((d.drop headerLen).take payloadLen) := by
    rw [Access.slice_onto buf (Nat.le_add_right _ _) (by rw [hd]; exact Nat.le_add_right _ _), Nat.add_sub_cancel_left]
  have hcopy : ((d.drop headerLen).take payloadLen).length ≤ maxPayload :=
    Nat.le_trans (List.length_take_le _ _) (Nat.not_lt.1 hmax)
  rw [if_neg hwhole, if_neg hwhole, hindex 3 (by decide), hindex 4 (by decide), hindex 5 (by decide),
    hindex 6 (by decide), hindex 0 (by decide), hindex 1 (by decide), hindex 2 (by decide), hslice]
  simp only [Option.bind_some]
  rw [Heapless.Vec.extendFromSlice_new _ hcopy]
  simp only
  rw [Access.index_onto buf (by rw [hd]; exact Nat.lt_add_of_pos_right (by decide)) 0,
    Access.index_onto buf (by rw [hd]; exact Nat.lt_succ_self _) 0]
  exact ⟨_, rfl, (fun h => by cases h), rfl⟩

section

variable {c : Crates} (hc : c.Bounded)
include hc

theorem Crates.Bounded.decodeInPlace_eq (buf : List UInt8) :
    c.decodeInPlace buf = (c.cobsDecode buf).map (fun d => (onto d buf, d.length)) := by
  unfold Crates.decodeInPlace
  cases hd : c.cobsDecode buf with
  | none => rfl
  | some d =>
    have hlen := Access.length_onto (hc.cobsDecode buf d hd)
    rw [Option.map_some, Option.map_some, List.take_of_length_le (Nat.le_of_eq hlen)]

namespace Framer

variable {N : Nat}

theorem processIn_eq (fr : Framer N) : ∃ exit, fr.processIn c = some ((fr.process c).1, exit) ∧
    exit ≠ .copyFailed ∧ exit.output = (fr.process c).2 := by
  unfold processIn process
  rw [hc.decodeInPlace_eq]
  cases c.cobsDecode fr.buf.toList with
  | none => exact ⟨.cobsError, rfl, by decide, rfl⟩
  | some d =>
    obtain ⟨exit, hparse, hcopy, houtput⟩ := parseIn_onto d fr.buf.toList
    refine ⟨exit, ?_, hcopy, houtput⟩
    simp [hparse]

theorem feedIn_eq (fr : Framer N) (byte : UInt8) : ∃ exit, fr.feedIn c byte = some ((fr.feed c byte).1, exit) ∧
    exit ≠ .copyFailed ∧ exit.output = (fr.feed c byte).2 := by
  unfold feedIn feed
  cases fr.state with
  | discarding =>
    by_cases hbyte : byte = 0x00
    · simp only [if_pos hbyte]
      exact ⟨.incomplete, rfl, by decide, rfl⟩
    · simp only [if_neg hbyte]
      exact ⟨.incomplete, rfl, by decide, rfl⟩
  | collecting =>
    by_cases hbyte : byte ≠ 0x00
    · simp only [if_pos hbyte]
      cases fr.buf.push byte with
      | none => exact ⟨.overflow, rfl, by decide, rfl⟩
      | some buf => exact ⟨.incomplete, rfl, by decide, rfl⟩
    · simp only [if_neg hbyte]
      cases fr.buf.isEmpty with
      | true => exact ⟨.incomplete, rfl, by decide, rfl⟩
      | false =>
        obtain ⟨exit, hprocess, hcopy, houtput⟩ := processIn_eq hc fr
        refine ⟨exit, ?_, hcopy, houtput⟩
        rw [hprocess]
        rfl

/-- **The framer never fails on a stream**, whatever its capacity. -/
theorem feedAllIn_eq : ∀ (bytes : List UInt8) (fr : Framer N), ∃ exits,
    fr.feedAllIn c bytes = some ((fr.feedAll c bytes).1, exits) ∧ .copyFailed ∉ exits ∧
      exits.map Exit.output = (fr.feedAll c bytes).2
  | [], fr => ⟨[], rfl, List.not_mem_nil, rfl⟩
  | byte :: bytes, fr => by
    obtain ⟨exit, hfeed, hcopy, houtput⟩ := feedIn_eq hc fr byte
    obtain ⟨exits, hrest, hcopies, houtputs⟩ := feedAllIn_eq bytes (fr.feed c byte).1
    refine ⟨exit :: exits, ?_, ?_, ?_⟩
    · rw [feedAllIn, hfeed]
      simp only [Option.bind_eq_bind, Option.bind_some]
      rw [hrest]
      rfl
    · exact List.not_mem_cons_of_ne_of_not_mem hcopy.symm hcopies
    · rw [List.map_cons, houtput, houtputs]
      rfl

end Framer

end

/-! ## The encoders and the decoder -/

def Frame.encodeRawIn (c : Crates) (f : Frame) (buf : List UInt8) : Option (List UInt8 × Option Nat) :=
  let n := f.rawLen
  if buf.length < n then some (buf, none)
  else do
    let buf ← store buf 0 f.header.version
    let buf ← store buf 1 f.header.packetType
    let buf ← store buf 2 f.header.severity
    let buf ← copyInto buf 3 7 (u32ToLe f.header.sequence)
    let buf ← copyInto buf 7 9 (u16ToLe f.header.payloadLen)
    let payloadEnd := headerLen + f.payload.len
    let buf ← copyInto buf headerLen payloadEnd f.payload.toList
    let crc := f.computeCrc c
    let buf ← copyInto buf payloadEnd (payloadEnd + crc16Len) [crc.1, crc.2]
    some (buf, some n)

def Frame.encodeCobsIn (c : Crates) (f : Frame) (buf : List UInt8) : Option (List UInt8 × Option Nat) := do
  let (raw, res) ← f.encodeRawIn c (List.replicate (minFrameLen + maxPayload) 0)
  match res with
  | none => some (buf, none)
  | some rawLen =>
    let maxCobs := c.maxEncodingLength rawLen
    if buf.length < maxCobs + 1 then some (buf, none)
    else do
      let (buf, written) ← c.encodeInto (← slice raw 0 rawLen) buf
      let buf ← store buf written 0x00
      some (buf, some (written + 1))

namespace Record

def encodeIn (c : Crates) (record : StoredRecord) (buf : List UInt8) : Option (List UInt8 × Except Error Nat) :=
  let preCobs := List.replicate maxStoredRecordBytes 0
  let postcard := c.postcardSer record
  if maxStoredRecordBytes < postcard.length then some (buf, .error .codec)
  else do
    let preCobs := onto postcard preCobs
    let postcardLen := postcard.length
    let crcBytes := u32ToLe (c.crc32 (← slice preCobs 0 postcardLen))
    let preCobsEnd := postcardLen + 4
    if preCobsEnd > preCobs.length then some (buf, .error .codec)
    else do
      let preCobs ← copyInto preCobs postcardLen preCobsEnd crcBytes
      let maxCobs := c.maxEncodingLength preCobsEnd
      if buf.length < maxCobs + 1 then some (buf, .error .codec)
      else do
        let (buf, cobsLen) ← c.encodeInto (← slice preCobs 0 preCobsEnd) buf
        let buf ← store buf cobsLen 0x00
        some (buf, .ok (cobsLen + 1))

/-- The bytes without the delimiter, if there is one. -/
def cobsBytesIn (buf : List UInt8) : Option (List UInt8) :=
  if buf.getLast? = some 0x00 then do slice buf 0 (← sub buf.length 1) else some buf

def decodeIn (c : Crates) (buf : List UInt8) : Option (Except Error StoredRecord) := do
  let cobsBytes ← cobsBytesIn buf
  if cobsBytes.isEmpty then some (.error .codec)
  else
    let decodeBuf := List.replicate maxStoredRecordBytes 0
    if cobsBytes.length > decodeBuf.length then some (.error .codec)
    else do
      let decodeBuf ← copyInto decodeBuf 0 cobsBytes.length cobsBytes
      match c.decodeInPlace (← slice decodeBuf 0 cobsBytes.length) with
      | none => some (.error .codec)
      | some (decoded, decodedLen) => do
        -- the slice is a part of the buffer
        let decodeBuf ← copyInto decodeBuf 0 cobsBytes.length decoded
        if decodedLen < 4 then some (.error .codec)
        else do
          let postcardEnd ← sub decodedLen 4
          let crcSlice ← slice decodeBuf postcardEnd decodedLen
          if crcSlice.length ≠ 4 then some (.error .codec)
          else do
            let storedCrc := u32OfLe crcSlice
            let computedCrc := c.crc32 (← slice decodeBuf 0 postcardEnd)
            if computedCrc ≠ storedCrc then some (.error .codec)
            else
              match c.postcardDe (← slice decodeBuf 0 postcardEnd) with
              | none => some (.error .codec)
              | some record => some (.ok record)

end Record

/-! ## What the encoders leave -/

/-- The destination, with the encoded bytes at its front, or as it was. -/
def Frame.left (buf : List UInt8) : Option (List UInt8) → List UInt8 × Option Nat
  | none => (buf, none)
  | some bytes => (onto bytes buf, some bytes.length)

def Record.left (buf : List UInt8) : Except Error (List UInt8) → List UInt8 × Except Error Nat
  | .error e => (buf, .error e)
  | .ok bytes => (onto bytes buf, .ok bytes.length)

/-- The header, in wire order. -/
def Frame.headerBytes (f : Frame) : List UInt8 :=
  [f.header.version, f.header.packetType, f.header.severity] ++ u32ToLe f.header.sequence ++ u16ToLe f.header.payloadLen

theorem Frame.length_headerBytes (f : Frame) : f.headerBytes.length = headerLen := by
  simp [headerBytes, headerLen]

theorem Frame.headerBytes_append (f : Frame) : f.headerBytes ++ f.payload.toList = f.covered := by
  simp [headerBytes, covered]

/-- The five writes of the header, before the rest of `encode_raw`. -/
theorem Frame.headerIn_eq {α : Type} (f : Frame) {buf : List UInt8} (hroom : headerLen ≤ buf.length)
    (rest : List UInt8 → Option α) :
    ((store buf 0 f.header.version).bind fun buf => (store buf 1 f.header.packetType).bind fun buf =>
      (store buf 2 f.header.severity).bind fun buf => (copyInto buf 3 7 (u32ToLe f.header.sequence)).bind fun buf =>
        (copyInto buf 7 9 (u16ToLe f.header.payloadLen)).bind rest) = rest (onto f.headerBytes buf) := by
  rw [headerLen] at hroom
  have hversion : store buf 0 f.header.version = some (onto [f.header.version] buf) :=
    Access.store_onto (w := []) _ rfl (by omega)
  have htype : store (onto [f.header.version] buf) 1 f.header.packetType
      = some (onto [f.header.version, f.header.packetType] buf) := Access.store_onto _ rfl (by omega)
  have hseverity : store (onto [f.header.version, f.header.packetType] buf) 2 f.header.severity
      = some (onto [f.header.version, f.header.packetType, f.header.severity] buf) :=
    Access.store_onto _ rfl (by omega)
  have hsequence : copyInto (onto [f.header.version, f.header.packetType, f.header.severity] buf) 3 7
      (u32ToLe f.header.sequence) = some (onto ([f.header.version, f.header.packetType, f.header.severity]
        ++ u32ToLe f.header.sequence) buf) :=
    Access.copyInto_onto rfl (by rw [Bytes.length_u32ToLe]) (by omega)
  have hpayloadLen : copyInto (onto ([f.header.version, f.header.packetType, f.header.severity]
      ++ u32ToLe f.header.sequence) buf) 7 9 (u16ToLe f.header.payloadLen) = some (onto f.headerBytes buf) :=
    Access.copyInto_onto (by rw [List.length_append, Bytes.length_u32ToLe]; rfl) (by rw [Bytes.length_u16ToLe]) hroom
  rw [hversion, Option.bind_some, htype, Option.bind_some, hseverity, Option.bind_some, hsequence, Option.bind_some,
    hpayloadLen, Option.bind_some]

theorem Frame.rawLen_eq (f : Frame) : f.rawLen = 11 + f.payload.toList.length := rfl

/-- **No write of `encode_raw` fails.** -/
theorem Frame.encodeRawIn_eq (c : Crates) (f : Frame) (buf : List UInt8) :
    f.encodeRawIn c buf = some (left buf (f.encodeRaw c buf.length)) := by
  unfold encodeRawIn
  rw [encodeRaw_eq]
  by_cases hshort : buf.length < f.rawLen
  · simp only [if_pos hshort]
    rfl
  have hroom := Nat.not_lt.1 hshort
  rw [rawLen_eq] at hroom
  have hheader : headerLen ≤ buf.length := by
    rw [headerLen]
    omega
  have hpayload : copyInto (onto f.headerBytes buf) headerLen (headerLen + f.payload.len) f.payload.toList
      = some (onto f.covered buf) := by
    rw [← f.headerBytes_append]
    exact Access.copyInto_onto f.length_headerBytes.symm rfl (by rw [headerLen, Heapless.Vec.len]; omega)
  have hcrc : copyInto (onto f.covered buf) (headerLen + f.payload.len) (headerLen + f.payload.len + crc16Len)
      [(f.computeCrc c).1, (f.computeCrc c).2] = some (onto (f.raw (f.computeCrc c)) buf) :=
    Access.copyInto_onto f.length_covered.symm rfl (by rw [headerLen, crc16Len, Heapless.Vec.len]; omega)
  simp only [if_neg hshort, Option.bind_eq_bind]
  rw [f.headerIn_eq hheader, hpayload, Option.bind_some, hcrc, Option.bind_some, left, length_raw]
  rfl

/-- **Where `encode` has the room it announces**, it and the delimiter behind it are in range. -/
theorem Crates.Bounded.encodeInto_eq {c : Crates} (hc : c.Bounded) {src buf : List UInt8} (hne : src ≠ [])
    (hroom : c.maxEncodingLength src.length + 1 ≤ buf.length) :
    c.encodeInto src buf = some (onto (c.cobsEncode src) buf, (c.cobsEncode src).length) ∧
    store (onto (c.cobsEncode src) buf) (c.cobsEncode src).length 0x00
      = some (onto (c.cobsEncode src ++ [0x00]) buf) := by
  have hlt : (c.cobsEncode src).length < buf.length :=
    Nat.lt_of_le_of_lt (hc.cobsEncode src hne) hroom
  exact ⟨if_pos (Nat.le_of_lt hlt), Access.store_onto 0x00 rfl hlt⟩

/-- **No access of `encode_cobs` fails.** -/
theorem Frame.encodeCobsIn_eq {c : Crates} (hc : c.Bounded) (f : Frame) (buf : List UInt8) :
    f.encodeCobsIn c buf = some (left buf (f.encodeCobs c buf.length)) := by
  have hlen : (f.raw (f.computeCrc c)).length = f.rawLen := f.length_raw (f.computeCrc c)
  have hraw : f.encodeRawIn c (List.replicate (minFrameLen + maxPayload) 0)
      = some (onto (f.raw (f.computeCrc c)) (List.replicate (minFrameLen + maxPayload) 0), some f.rawLen) := by
    rw [encodeRawIn_eq, List.length_replicate, encodeRaw_self, left, hlen]
  have hslice := Access.slice_onto_all (f.raw (f.computeCrc c)) (List.replicate (minFrameLen + maxPayload) 0)
  rw [hlen] at hslice
  unfold encodeCobsIn
  rw [encodeCobs_eq, hraw]
  simp only [Option.bind_eq_bind, Option.bind_some]
  by_cases hshort : buf.length < c.maxEncodingLength f.rawLen + 1
  · rw [if_pos hshort, if_pos hshort]
    rfl
  · have hroom : c.maxEncodingLength (f.raw (f.computeCrc c)).length + 1 ≤ buf.length := by
      rw [hlen]
      exact Nat.not_lt.1 hshort
    obtain ⟨hencode, hstore⟩ := hc.encodeInto_eq (f.raw_ne_nil (f.computeCrc c)) hroom
    rw [if_neg hshort, if_neg hshort, hslice, Option.bind_some, hencode, Option.bind_some, hstore, left, body,
      List.length_append]
    rfl

/-- **No access of `record::encode` fails.** -/
theorem Record.encodeIn_eq {c : Crates} (hc : c.Bounded) (record : StoredRecord) (buf : List UInt8) :
    encodeIn c record buf = some (left buf (encode c record buf.length)) := by
  unfold encodeIn encode
  simp only
  by_cases hser : maxStoredRecordBytes < (c.postcardSer record).length
  · rw [if_pos hser, if_pos hser]
    rfl
  have hover : (onto (c.postcardSer record) (List.replicate maxStoredRecordBytes (0 : UInt8))).length
      = maxStoredRecordBytes := by
    rw [Access.length_onto (by rw [List.length_replicate]; exact Nat.not_lt.1 hser), List.length_replicate]
  rw [if_neg hser, if_neg hser, Access.slice_onto_all]
  simp only [Option.bind_eq_bind, Option.bind_some]
  rw [hover]
  by_cases hend : (c.postcardSer record).length + 4 > maxStoredRecordBytes
  · rw [if_pos hend, if_pos hend]
    rfl
  have hblob := length_blob c record
  have hcopy : copyInto (onto (c.postcardSer record) (List.replicate maxStoredRecordBytes 0))
      (c.postcardSer record).length ((c.postcardSer record).length + 4) (u32ToLe (c.crc32 (c.postcardSer record)))
      = some (onto (blob c record) (List.replicate maxStoredRecordBytes 0)) :=
    Access.copyInto_onto rfl (by rw [Bytes.length_u32ToLe]) (by rw [List.length_replicate]; exact Nat.not_lt.1 hend)
  have hslice := Access.slice_onto_all (blob c record) (List.replicate maxStoredRecordBytes 0)
  rw [hblob] at hslice
  rw [if_neg hend, if_neg hend, hcopy, Option.bind_some]
  by_cases hshort : buf.length < c.maxEncodingLength ((c.postcardSer record).length + 4) + 1
  · rw [if_pos hshort, if_pos hshort]
    rfl
  · have hroom : c.maxEncodingLength (blob c record).length + 1 ≤ buf.length := by
      rw [hblob]
      exact Nat.not_lt.1 hshort
    obtain ⟨hencode, hstore⟩ := hc.encodeInto_eq (blob_ne_nil c record) hroom
    rw [if_neg hshort, if_neg hshort, hslice, Option.bind_some, hencode, Option.bind_some, hstore, ← blob, left,
      List.length_append]
    rfl

/-! ## The decoder -/

theorem Record.cobsBytesIn_eq (buf : List UInt8) :
    cobsBytesIn buf = some (if buf.getLast? = some 0x00 then buf.dropLast else buf) := by
  unfold cobsBytesIn
  split
  · rename_i hlast
    obtain ⟨init, rfl⟩ := List.getLast?_eq_some_iff.1 hlast
    simp [sub, slice]
  · rfl

/-- **No access of `record::decode` fails.** -/
theorem Record.decodeIn_eq {c : Crates} (hc : c.Bounded) (buf : List UInt8) : decodeIn c buf = some (decode c buf) := by
  unfold decodeIn decode
  rw [cobsBytesIn_eq]
  simp only [Option.bind_eq_bind, Option.bind_some, List.length_replicate]
  generalize (if buf.getLast? = some 0x00 then buf.dropLast else buf) = p
  by_cases hempty : p.isEmpty = true
  · rw [if_pos hempty, if_pos hempty]
  by_cases hlong : p.length > maxStoredRecordBytes
  · rw [if_neg hempty, if_pos hlong, if_neg hempty, if_pos hlong]
  rw [if_neg hempty, if_neg hlong, if_neg hempty, if_neg hlong]
  have hroom : p.length ≤ (List.replicate maxStoredRecordBytes (0 : UInt8)).length := by
    rw [List.length_replicate]
    exact Nat.not_lt.1 hlong
  generalize List.replicate maxStoredRecordBytes (0 : UInt8) = zeros at hroom
  have hcopy : copyInto zeros 0 p.length p = some (onto p zeros) :=
    Access.copyInto_onto (w := []) rfl (Nat.zero_add _).symm hroom
  rw [hcopy, Option.bind_some, Access.slice_onto_all, Option.bind_some, hc.decodeInPlace_eq]
  cases hdecode : c.cobsDecode p with
  | none => rfl
  | some d =>
    have hlen := Access.length_onto (hc.cobsDecode p d hdecode)
    have hback : copyInto (onto p zeros) 0 p.length (onto d p) = some (onto d (onto p (onto p zeros))) := by
      have hfull : p.length ≤ (onto p zeros).length := by rwa [Access.length_onto hroom]
      rw [← Access.onto_onto _ (hc.cobsDecode p d hdecode)]
      exact Access.copyInto_onto (w := []) rfl (hlen ▸ (Nat.zero_add _).symm) hfull
    simp only [Option.map_some]
    rw [hback, Option.bind_some]
    by_cases hfour : d.length < 4
    · rw [if_pos hfour, if_pos hfour]
    have hle : 4 ≤ d.length := Nat.not_lt.1 hfour
    have hcrc : slice (onto d (onto p (onto p zeros))) (d.length - 4) d.length = some (d.drop (d.length - 4)) := by
      rw [Access.slice_onto _ (Nat.sub_le _ _) (Nat.le_refl _), List.take_of_length_le (Nat.le_of_eq List.length_drop)]
    have hfront : slice (onto d (onto p (onto p zeros))) 0 (d.length - 4) = some (d.take (d.length - 4)) :=
      Access.slice_onto _ (Nat.zero_le _) (Nat.sub_le _ _)
    have hfit : ¬ (d.drop (d.length - 4)).length ≠ 4 := by
      rw [List.length_drop]
      omega
    rw [if_neg hfour, if_neg hfour, Access.sub_of_le hle, Option.bind_some, hcrc, Option.bind_some, if_neg hfit, hfront,
      Option.bind_some, Option.bind_some]
    split
    · rfl
    · cases c.postcardDe (d.take (d.length - 4)) <;> rfl

/-! ## Nothing is out of range -/

theorem Frame.length_encodeRaw_le {c : Crates} {f : Frame} {bufLen : Nat} :
    ∀ bytes ∈ f.encodeRaw c bufLen, bytes.length ≤ bufLen := by
  intro bytes h
  rw [encodeRaw_eq] at h
  split at h
  · cases h
  · rename_i hroom
    obtain rfl := Option.some.inj h
    exact Nat.le_trans (Nat.le_of_eq (f.length_raw _)) (Nat.not_lt.1 hroom)

theorem Frame.length_encodeCobs_le {c : Crates} (hc : c.Bounded) {f : Frame} {bufLen : Nat} :
    ∀ bytes ∈ f.encodeCobs c bufLen, bytes.length ≤ bufLen := by
  intro bytes h
  rw [encodeCobs_eq] at h
  split at h
  · cases h
  · rename_i hroom
    obtain rfl := Option.some.inj h
    have hbody : (f.body c).length ≤ c.maxEncodingLength f.rawLen := by
      have hle := hc.cobsEncode _ (f.raw_ne_nil (f.computeCrc c))
      rwa [length_raw] at hle
    rw [List.length_append]
    exact Nat.le_trans (Nat.succ_le_succ hbody) (Nat.not_lt.1 hroom)

/-- **A destination is kept or written within.** -/
theorem Frame.left_spec {buf : List UInt8} {res : Option (List UInt8)} (h : ∀ bytes ∈ res, bytes.length ≤ buf.length) :
    (left buf res).2 = res.map List.length ∧ (left buf res).1.length = buf.length ∧
      ((left buf res).2 = none → (left buf res).1 = buf) := by
  cases res with
  | none => exact ⟨rfl, rfl, fun _ => rfl⟩
  | some bytes => exact ⟨rfl, Access.length_onto (h bytes rfl), fun hnone => by cases hnone⟩

theorem Record.encode_cases {c : Crates} (hc : c.Bounded) (record : StoredRecord) (bufLen : Nat) :
    encode c record bufLen = .error .codec ∨
      ∃ bytes, encode c record bufLen = .ok bytes ∧ bytes.length ≤ bufLen := by
  unfold encode
  simp only
  split
  · exact Or.inl rfl
  split
  · exact Or.inl rfl
  split
  · exact Or.inl rfl
  · rename_i hroom
    refine Or.inr ⟨_, rfl, ?_⟩
    have hle := hc.cobsEncode _ (blob_ne_nil c record)
    rw [length_blob] at hle
    rw [List.length_append]
    exact Nat.le_trans (Nat.succ_le_succ hle) (Nat.not_lt.1 hroom)

/-- **No access is out of range.**  If `cobs::encode` writes at most `max_encoding_length` bytes and `decode_in_place`
returns at most the length of its input: a framer of any capacity fails on no stream, and the copy of the payload does
not fail; the encoders write inside their destination, which is as it was if they return `None` or an error; and
`record::decode` fails on no slice. -/
theorem accesses_in_range {c : Crates} (hc : c.Bounded) :
    (∀ (N : Nat) (fr : Framer N) (bytes : List UInt8), ∃ exits,
      fr.feedAllIn c bytes = some ((fr.feedAll c bytes).1, exits) ∧ .copyFailed ∉ exits ∧
        exits.map Exit.output = (fr.feedAll c bytes).2) ∧
    (∀ (f : Frame) (buf : List UInt8), ∃ buf' n, f.encodeRawIn c buf = some (buf', n) ∧
      n = (f.encodeRaw c buf.length).map List.length ∧ buf'.length = buf.length ∧ (n = none → buf' = buf)) ∧
    (∀ (f : Frame) (buf : List UInt8), ∃ buf' n, f.encodeCobsIn c buf = some (buf', n) ∧
      n = (f.encodeCobs c buf.length).map List.length ∧ buf'.length = buf.length ∧ (n = none → buf' = buf)) ∧
    (∀ (record : StoredRecord) (buf : List UInt8), ∃ buf' res, Record.encodeIn c record buf = some (buf', res) ∧
      res = (Record.encode c record buf.length).map List.length ∧ buf'.length = buf.length ∧
        ∀ e, res = .error e → e = .codec ∧ buf' = buf) ∧
    ∀ buf : List UInt8, Record.decodeIn c buf = some (Record.decode c buf) := by
  refine ⟨fun N fr bytes => fr.feedAllIn_eq hc bytes, ?_, ?_, ?_, Record.decodeIn_eq hc⟩
  · intro f buf
    exact ⟨_, _, f.encodeRawIn_eq c buf, Frame.left_spec Frame.length_encodeRaw_le⟩
  · intro f buf
    exact ⟨_, _, f.encodeCobsIn_eq hc buf, Frame.left_spec (Frame.length_encodeCobs_le hc)⟩
  · intro record buf
    refine ⟨_, _, Record.encodeIn_eq hc record buf, ?_⟩
    rcases Record.encode_cases hc record buf.length with herror | ⟨bytes, hok, hle⟩
    · rw [herror]
      exact ⟨rfl, rfl, fun e h => ⟨(Except.error.inj h).symm, rfl⟩⟩
    · rw [hok]
      exact ⟨rfl, Access.length_onto hle, fun e h => by cases h⟩

theorem Crates.documented_bounded : Crates.documented.Bounded where
  cobsEncode _ hne := Cobs.length_encode_le hne
  cobsDecode bs _ h := Cobs.length_decodeFrom_le 0 false bs h

/-- A framer whose capacity is smaller than a header: a segment that is too short, then one that does not fit.  The
encoders, where the bytes just fit and where they do not; and the decoder, on a slice that is no record. -/
theorem accesses_in_range_small :
    let bytes : List UInt8 := [2, 7, 0, 1, 1, 1, 1, 1, 0]
    let f : Frame := ⟨⟨1, 1, 0, 7, 0⟩, Heapless.Vec.new, (0, 0)⟩
    let record : StoredRecord := .v1 ⟨5, 7, 1, 0, Heapless.Vec.new⟩
    (∃ exits, (Framer.new : Framer 4).feedAllIn Crates.documented bytes
        = some (((Framer.new : Framer 4).feedAll Crates.documented bytes).1, exits) ∧ .copyFailed ∉ exits ∧
      exits.map Exit.output = ((Framer.new : Framer 4).feedAll Crates.documented bytes).2) ∧
    ((∃ buf', f.encodeRawIn Crates.documented (List.replicate 11 0xFF) = some (buf', some 11) ∧ buf'.length = 11) ∧
      f.encodeRawIn Crates.documented (List.replicate 10 0xFF) = some (List.replicate 10 0xFF, none)) ∧
    ((∃ buf', f.encodeCobsIn Crates.documented (List.replicate 13 0xFF) = some (buf', some 13) ∧ buf'.length = 13) ∧
      f.encodeCobsIn Crates.documented (List.replicate 12 0xFF) = some (List.replicate 12 0xFF, none)) ∧
    ((∃ buf', Record.encodeIn Crates.documented record (List.replicate 12 0xFF) = some (buf', .ok 12) ∧
        buf'.length = 12) ∧
      Record.encodeIn Crates.documented record (List.replicate 11 0xFF)
        = some (List.replicate 11 0xFF, .error .codec)) ∧
    Record.decodeIn Crates.documented [3, 9, 9] = some (.error .codec) := by
  intro bytes f record
  obtain ⟨hfeed, hraw, hcobs, hencode, hdecode⟩ := accesses_in_range Crates.documented_bounded
  refine ⟨hfeed 4 Framer.new bytes, ⟨?_, ?_⟩, ⟨?_, ?_⟩, ⟨?_, ?_⟩, ?_⟩
  · obtain ⟨buf', n, hrun, hn, hlen, -⟩ := hraw f (List.replicate 11 0xFF)
    rw [show n = some 11 from hn.trans (by decide +kernel)] at hrun
    exact ⟨buf', hrun, hlen⟩
  · obtain ⟨buf', n, hrun, hn, -, hkeep⟩ := hraw f (List.replicate 10 0xFF)
    have hnone : n = none := hn.trans (by decide +kernel)
    rw [hrun, hkeep hnone, hnone]
  · obtain ⟨buf', n, hrun, hn, hlen, -⟩ := hcobs f (List.replicate 13 0xFF)
    rw [show n = some 13 from hn.trans (by decide +kernel)] at hrun
    exact ⟨buf', hrun, hlen⟩
  · obtain ⟨buf', n, hrun, hn, -, hkeep⟩ := hcobs f (List.replicate 12 0xFF)
    have hnone : n = none := hn.trans (by decide +kernel)
    rw [hrun, hkeep hnone, hnone]
  · obtain ⟨buf', res, hrun, hres, hlen, -⟩ := hencode record (List.replicate 12 0xFF)
    rw [show res = .ok 12 from hres.trans (by decide +kernel)] at hrun
    exact ⟨buf', hrun, hlen⟩
  · obtain ⟨buf', res, hrun, hres, -, hkeep⟩ := hencode record (List.replicate 11 0xFF)
    have herror : res = .error .codec := hres.trans (by decide +kernel)
    rw [hrun, (hkeep _ herror).2, herror]
  · rw [hdecode]
    decide +kernel

end Telemetry
