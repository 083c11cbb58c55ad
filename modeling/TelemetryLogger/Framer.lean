import TelemetryLogger.Frame
import TelemetryLogger.Lib.Machine
/-!
# Framer — the byte-at-a-time framer (`framer.rs`)

`decode_in_place` leaves the decoded bytes at the front of the buffer, and the framer reads only those, so `process`
reads the decoded bytes `d` (`decoded_len` is `d.length`).  `parseDecoded_eq_complete` says which bytes are a frame and
which frame they are; `parseDecoded_raw` says an encoder's own bytes parse back.
-/
namespace Telemetry

open Bytes (u16ToLe u32ToLe u16OfLe u32OfLe)

inductive FramerState
  | collecting
  | discarding
  deriving DecidableEq

inductive FrameOutput
  | incomplete
  | complete (frame : Frame)
  | overflow
  | cobsError
  | parseError
  deriving DecidableEq

structure Framer (N : Nat) where
  buf : Heapless.Vec UInt8 N
  state : FramerState
  resyncCount : UInt32
  deriving DecidableEq

/-- `u32::saturating_add(1)`. -/
def saturatingSucc (n : UInt32) : UInt32 := if n = 0xFFFFFFFF then n else n + 1

theorem toNat_saturatingSucc (n : UInt32) : (saturatingSucc n).toNat = min (2 ^ 32 - 1) (n.toNat + 1) := by
  have hn := n.toNat_lt
  unfold saturatingSucc
  split
  · rename_i h
    subst h
    rfl
  · rename_i h
    have : n.toNat ≠ 4294967295 := fun he => h (UInt32.toNat_inj.1 he)
    rw [UInt32.toNat_add]
    simp only [UInt32.reduceToNat]
    omega

/-- The structural checks and the parse, on the decoded bytes. -/
def parseDecoded (d : List UInt8) : FrameOutput :=
  if d.length < minFrameLen then .parseError
  else
    let payloadLenU16 := u16OfLe [d.getD 7 0, d.getD 8 0]
    let payloadLen := payloadLenU16.toNat
    if payloadLen > maxPayload then .parseError
    else if d.length ≠ headerLen + payloadLen + crc16Len then .parseError
    else
      let sequence := u32OfLe [d.getD 3 0, d.getD 4 0, d.getD 5 0, d.getD 6 0]
      let header : Header := ⟨d.getD 0 0, d.getD 1 0, d.getD 2 0, sequence, payloadLenU16⟩
      match Heapless.Vec.new.extendFromSlice ((d.drop headerLen).take payloadLen) with
      | none => .parseError
      | some payload =>
        let crcStart := headerLen + payloadLen
        .complete ⟨header, payload, (d.getD crcStart 0, d.getD (crcStart + 1) 0)⟩

namespace Framer

variable {N : Nat}

def new : Framer N := ⟨Heapless.Vec.new, .collecting, 0⟩

def process (c : Crates) (fr : Framer N) : Framer N × FrameOutput :=
  match c.cobsDecode fr.buf.toList with
  | none => ({ fr with resyncCount := saturatingSucc fr.resyncCount }, .cobsError)
  | some d => (fr, parseDecoded d)

def feed (c : Crates) (fr : Framer N) (byte : UInt8) : Framer N × FrameOutput :=
  match fr.state with
  | .discarding =>
    if byte = 0x00 then ({ fr with buf := Heapless.Vec.new, state := .collecting }, .incomplete)
    else (fr, .incomplete)
  | .collecting =>
    if byte ≠ 0x00 then
      match fr.buf.push byte with
      | none => (⟨Heapless.Vec.new, .discarding, saturatingSucc fr.resyncCount⟩, .overflow)
      | some buf => ({ fr with buf := buf }, .incomplete)
    else if fr.buf.isEmpty then (fr, .incomplete)
    else
      let result := fr.process c
      ({ result.1 with buf := Heapless.Vec.new }, result.2)

/-- Feed bytes one at a time: the outputs, one for each byte. -/
def feedAll (c : Crates) (fr : Framer N) (bytes : List UInt8) : Framer N × List FrameOutput :=
  Machine.run (feed c) fr bytes

end Framer

/-! ## What parses -/

def announcedLen (d : List UInt8) : Nat := (u16OfLe [d.getD 7 0, d.getD 8 0]).toNat

/-- **The structural checks**: the announced payload is not too long, and the frame is as long as it announces. -/
def WellSized (d : List UInt8) : Prop := announcedLen d ≤ maxPayload ∧ d.length = minFrameLen + announcedLen d

instance (d : List UInt8) : Decidable (WellSized d) := inferInstanceAs (Decidable (_ ∧ _))

/-- The frame whose fields are the bytes `d`, when they are well sized. -/
def frameOf (d : List UInt8) (h : WellSized d) : Frame :=
  ⟨⟨d.getD 0 0, d.getD 1 0, d.getD 2 0, u32OfLe [d.getD 3 0, d.getD 4 0, d.getD 5 0, d.getD 6 0],
      u16OfLe [d.getD 7 0, d.getD 8 0]⟩,
    ⟨(d.drop headerLen).take (announcedLen d), Nat.le_trans (List.length_take_le _ _) h.1⟩,
    (d.getD (headerLen + announcedLen d) 0, d.getD (headerLen + announcedLen d + 1) 0)⟩

/-- **Decoded bytes are a frame exactly when they are well sized**; the payload copy never fails. -/
theorem parseDecoded_eq (d : List UInt8) :
    parseDecoded d = if h : WellSized d then .complete (frameOf d h) else .parseError := by
  unfold parseDecoded
  simp only
  split
  · rename_i hlt
    rw [dif_neg (fun h => by have := h.2; omega)]
  · split
    · rename_i hbig
      rw [dif_neg (fun h => Nat.not_lt.2 h.1 hbig)]
    · rename_i hbig
      have hle : announcedLen d ≤ maxPayload := Nat.not_lt.1 hbig
      have hlen : headerLen + announcedLen d + crc16Len = minFrameLen + announcedLen d := Nat.add_right_comm _ _ _
      split
      · rename_i hne
        rw [dif_neg (fun h => hne (h.2.trans hlen.symm))]
      · rename_i heq
        have hd : d.length = minFrameLen + announcedLen d := (Decidable.not_not.1 heq).trans hlen
        rw [dif_pos ⟨hle, hd⟩]
        have hpay : ((d.drop headerLen).take (announcedLen d)).length ≤ maxPayload :=
          Nat.le_trans (List.length_take_le _ _) hle
        rw [show (u16OfLe [d.getD 7 0, d.getD 8 0]).toNat = announcedLen d from rfl,
          Heapless.Vec.extendFromSlice_new _ hpay]
        rfl

theorem parseDecoded_eq_complete {d : List UInt8} {f : Frame} :
    parseDecoded d = .complete f ↔ ∃ h : WellSized d, f = frameOf d h := by
  rw [parseDecoded_eq]
  split
  · rename_i h
    rw [FrameOutput.complete.injEq]
    exact ⟨fun hf => ⟨h, hf.symm⟩, fun ⟨_, hf⟩ => hf.symm⟩
  · rename_i h
    exact ⟨(fun hf => by cases hf), fun ⟨h', _⟩ => absurd h' h⟩

theorem payloadLen_frameOf (d : List UInt8) (h : WellSized d) :
    (frameOf d h).header.payloadLen.toNat = (frameOf d h).payload.toList.length := by
  have hd := h.2
  show announcedLen d = ((d.drop headerLen).take (announcedLen d)).length
  rw [List.length_take, List.length_drop, hd, minFrameLen]
  omega

theorem Framer.payloadLen_of_feed {c : Crates} {N : Nat} {fr : Framer N} {b : UInt8} {f : Frame}
    (h : (fr.feed c b).2 = .complete f) : f.header.payloadLen.toNat = f.payload.len := by
  unfold Framer.feed Framer.process at h
  repeat' split at h
  all_goals try cases h
  rename_i d hd
  obtain ⟨hsz, rfl⟩ := parseDecoded_eq_complete.1 h
  exact payloadLen_frameOf d hsz

/-! ## An encoder's bytes parse back -/

theorem le_four (n : Nat) : Bytes.le 4 n
    = [UInt8.ofNat n, UInt8.ofNat (n / 256), UInt8.ofNat (n / 256 / 256), UInt8.ofNat (n / 256 / 256 / 256)] := rfl

theorem le_two (n : Nat) : Bytes.le 2 n = [UInt8.ofNat n, UInt8.ofNat (n / 256)] := rfl

theorem raw_eq_cons (f : Frame) (crc : UInt8 × UInt8) : ∃ q0 q1 q2 q3 l0 l1 : UInt8,
    u32ToLe f.header.sequence = [q0, q1, q2, q3] ∧ u16ToLe f.header.payloadLen = [l0, l1] ∧
    f.raw crc = f.header.version :: f.header.packetType :: f.header.severity :: q0 :: q1 :: q2 :: q3 :: l0 :: l1 ::
      (f.payload.toList ++ [crc.1, crc.2]) :=
  ⟨_, _, _, _, _, _, le_four _, le_two _, by
    rw [Frame.raw, Frame.covered, u32ToLe, u16ToLe, le_four, le_two]
    rfl⟩

theorem announcedLen_raw (f : Frame) (crc : UInt8 × UInt8) : announcedLen (f.raw crc) = f.header.payloadLen.toNat := by
  obtain ⟨q0, q1, q2, q3, l0, l1, -, hl, hraw⟩ := raw_eq_cons f crc
  rw [announcedLen, hraw]
  show (u16OfLe [l0, l1]).toNat = _
  rw [← hl, Bytes.u16OfLe_u16ToLe]

theorem wellSized_raw (f : Frame) (crc : UInt8 × UInt8) :
    WellSized (f.raw crc) ↔ f.header.payloadLen.toNat = f.payload.toList.length := by
  have hpay := f.payload.length_le
  rw [WellSized, announcedLen_raw, Frame.length_raw]
  omega

/-- **A consistent frame's raw bytes parse to the frame**, with the CRC bytes they carry. -/
theorem parseDecoded_raw (f : Frame) (crc : UInt8 × UInt8) (h : f.header.payloadLen.toNat = f.payload.toList.length) :
    parseDecoded (f.raw crc) = .complete { f with crcBytes := crc } := by
  have hsz := (wellSized_raw f crc).2 h
  rw [parseDecoded_eq_complete]
  refine ⟨hsz, ?_⟩
  have ha := announcedLen_raw f crc
  rw [h] at ha
  obtain ⟨q0, q1, q2, q3, l0, l1, hq, hl, hraw⟩ := raw_eq_cons f crc
  have hseq : u32OfLe [q0, q1, q2, q3] = f.header.sequence := by rw [← hq, Bytes.u32OfLe_u32ToLe]
  have hplen : u16OfLe [l0, l1] = f.header.payloadLen := by rw [← hl, Bytes.u16OfLe_u16ToLe]
  have hdrop : (f.raw crc).drop headerLen = f.payload.toList ++ [crc.1, crc.2] := by rw [hraw]; rfl
  have hpay : ((f.raw crc).drop headerLen).take (announcedLen (f.raw crc)) = f.payload.toList := by
    rw [hdrop, ha, List.take_left]
  have hget : ∀ i, (f.raw crc).getD (headerLen + f.payload.toList.length + i) 0 = [crc.1, crc.2].getD i 0 := by
    intro i
    rw [List.getD_eq_getElem?_getD, Nat.add_assoc, ← List.getElem?_drop, hdrop,
      List.getElem?_append_right (Nat.le_add_right _ _), Nat.add_sub_cancel_left, ← List.getD_eq_getElem?_getD]
  refine Frame.ext_of ?_ hpay.symm ?_
  · show f.header = ⟨(f.raw crc).getD 0 0, (f.raw crc).getD 1 0, (f.raw crc).getD 2 0,
      u32OfLe [(f.raw crc).getD 3 0, (f.raw crc).getD 4 0, (f.raw crc).getD 5 0, (f.raw crc).getD 6 0],
      u16OfLe [(f.raw crc).getD 7 0, (f.raw crc).getD 8 0]⟩
    rw [hraw]
    simp only [List.getD_cons_zero, List.getD_cons_succ, hseq, hplen]
  · show crc = ((f.raw crc).getD (headerLen + announcedLen (f.raw crc)) 0,
      (f.raw crc).getD (headerLen + announcedLen (f.raw crc) + 1) 0)
    rw [ha, hget 1]
    exact Prod.ext (hget 0).symm rfl

end Telemetry
