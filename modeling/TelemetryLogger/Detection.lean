import TelemetryLogger.Grammar
import TelemetryLogger.Verdict
/-!
# Detection — what the two checksums catch

A burst of at most 16 bits in a frame, or of at most 32 in a stored record, always breaks the checksum, also where it
straddles the checksum's own bytes.  A burst that hits the length field of a frame breaks the parse instead; either way
the pipeline counts a CRC failure and nothing else happens (`wire_burst_detected`, `record_burst_detected`).  The
checksum over a frame and its own CRC bytes is constant, but not the constant the protocol names
(`crc16_residue_iff`).
-/
namespace Telemetry

open Bytes (u16ToLe u32ToLe u16OfLe u32OfLe)

variable {c : Crates} {N Q : Nat}

/-! ## The CRC of a frame -/

theorem ibmSdlc_msb : Crc.ibmSdlc.poly.msb = true := by decide
theorem isoHdlc_msb : Crc.isoHdlc.poly.msb = true := by decide

theorem computedCrc_eq (c : Crates) (f : Frame) : computedCrc c f = c.crc16 f.covered := by
  simp only [computedCrc, Frame.covered, List.cons_append, List.append_assoc, List.nil_append]

/-- The pair of CRC bytes, as a checksum behind its message. -/
theorem pair_eq_le (b : UInt8 × UInt8) : [b.1, b.2] = Bytes.le 2 (ofLeBytes b).toBitVec.toNat :=
  (Bytes.u16ToLe_u16OfLe rfl).symm

theorem raw_computeCrc (hc : c.Standard) (f : Frame) : f.raw (f.computeCrc c)
    = f.covered ++ Bytes.le 2 (Crc.checksum Crc.ibmSdlc f.covered).toNat := by
  rw [Frame.raw, pair_eq_le, computeCrc_eq_computedCrc, ofLeBytes_leBytes, computedCrc_eq, hc.crc16]

/-- **A burst of at most 16 bits breaks a frame's CRC**, in the CRC bytes too. -/
theorem crc_ne_of_burst (hc : c.Standard) {f g : Frame} (hlen : f.payload.toList.length = g.payload.toList.length)
    (hne : g.raw g.crcBytes ≠ f.raw (f.computeCrc c))
    (hb : Crc.Confined 16 ((f.raw (f.computeCrc c)).flatMap Crc.bits) ((g.raw g.crcBytes).flatMap Crc.bits)) :
    computedCrc c g ≠ ofLeBytes g.crcBytes := by
  rw [raw_computeCrc hc, Frame.raw, pair_eq_le] at hne hb
  have hlen' : f.covered.length = g.covered.length := by rw [Frame.length_covered, Frame.length_covered, hlen]
  have hcrc := Crc.checksum_ne_of_burst ibmSdlc_msb (show 16 = 8 * 2 from rfl) hlen' (Ne.symm hne) hb
  intro h
  rw [computedCrc_eq, hc.crc16] at h
  exact hcrc (congrArg UInt16.toBitVec h)

/-! ## The residue -/

/-- **The CRC over a string tells how far its last two bytes are off** the CRC of the bytes before them. -/
theorem crc16_eq_iff (hc : c.Standard) {s : List UInt8} (hs : 2 ≤ s.length) (x : UInt16) :
    c.crc16 s = UInt16.ofBitVec (Crc.trailed Crc.ibmSdlc x.toBitVec)
      ↔ u16OfLe (s.drop (s.length - 2)) = c.crc16 (s.take (s.length - 2)) ^^^ x := by
  have hsplit : s.take (s.length - 2) ++ Bytes.le 2 (u16OfLe (s.drop (s.length - 2))).toBitVec.toNat = s :=
    Bytes.take_append_u16ToLe hs
  have htrail := Crc.checksum_append_eq_iff ibmSdlc_msb (show 16 = 8 * 2 from rfl) (s.take (s.length - 2))
    (u16OfLe (s.drop (s.length - 2))).toBitVec x.toBitVec
  rw [hsplit] at htrail
  rw [hc.crc16, hc.crc16, ← UInt16.toBitVec_inj, ← UInt16.toBitVec_inj]
  exact htrail

/-- **The constant of a right CRC, as the code computes it, is `0x0F47`**: the documented residue before the final
exclusive or. -/
theorem crc16_eq_right_iff (hc : c.Standard) {s : List UInt8} (hs : 2 ≤ s.length) :
    c.crc16 s = 0x0F47 ↔ u16OfLe (s.drop (s.length - 2)) = c.crc16 (s.take (s.length - 2)) := by
  have hval : UInt16.ofBitVec (Crc.trailed Crc.ibmSdlc (0 : UInt16).toBitVec) = 0x0F47 := by decide +kernel
  rw [← hval, crc16_eq_iff hc hs, UInt16.xor_zero]

theorem crc16_eq_residue_iff (hc : c.Standard) {s : List UInt8} (hs : 2 ≤ s.length) :
    c.crc16 s = crc16Residue
      ↔ u16OfLe (s.drop (s.length - 2)) = c.crc16 (s.take (s.length - 2)) ^^^ 0xF321 := by
  have hval : UInt16.ofBitVec (Crc.trailed Crc.ibmSdlc (0xF321 : UInt16).toBitVec) = crc16Residue := by decide +kernel
  rw [← hval, crc16_eq_iff hc hs]

theorem crc16_raw (hc : c.Standard) (f : Frame) : c.crc16 (f.raw (f.computeCrc c)) = 0x0F47 := by
  have hlen : (f.raw (f.computeCrc c)).length - 2 = f.covered.length := by
    rw [Frame.raw, List.length_append]
    rfl
  rw [crc16_eq_right_iff hc (by rw [Frame.length_raw, minFrameLen, headerLen]; omega), hlen, Frame.raw,
    List.take_left, List.drop_left, ← computedCrc_eq]
  exact ofLeBytes_leBytes _

/-- **The one-pass check and the split check agree exactly on the strings both refuse**: the last two bytes, read least
significant first, are neither the CRC of the bytes before them nor that CRC with `0xF321` added bit by bit.  A right
frame is never one of them. -/
theorem crc16_residue_iff (hc : c.Standard) :
    (∀ s : List UInt8, 2 ≤ s.length →
      ((c.crc16 s = crc16Residue ↔ u16OfLe (s.drop (s.length - 2)) = c.crc16 (s.take (s.length - 2))) ↔
        u16OfLe (s.drop (s.length - 2)) ≠ c.crc16 (s.take (s.length - 2)) ∧
        u16OfLe (s.drop (s.length - 2)) ≠ c.crc16 (s.take (s.length - 2)) ^^^ 0xF321)) ∧
    ∀ (f : Frame) (bufLen : Nat) (d : List UInt8), f.encodeRaw c bufLen = some d → c.crc16 d ≠ crc16Residue := by
  constructor
  · intro s hs
    rw [crc16_eq_residue_iff hc hs]
    generalize u16OfLe (s.drop (s.length - 2)) = t
    generalize c.crc16 (s.take (s.length - 2)) = k
    have hne : k ≠ k ^^^ 0xF321 := by
      intro h
      have hzero : k ^^^ 0xF321 ^^^ k = 0 := by rw [← h, UInt16.xor_self]
      rw [UInt16.xor_comm k, UInt16.xor_assoc, UInt16.xor_self] at hzero
      exact absurd hzero (by decide)
    constructor
    · intro h
      constructor
      · intro ht
        exact hne (ht.symm.trans (h.2 ht))
      · intro ht
        exact hne ((h.1 ht).symm.trans ht)
    · rintro ⟨hk, hx⟩
      exact ⟨fun h => absurd h hx, fun h => absurd h hk⟩
  · intro f bufLen d hd
    rw [Frame.encodeRaw_eq] at hd
    split at hd
    · cases hd
    · cases hd
      rw [crc16_raw hc]
      decide

theorem crc16_residue_nines : Crates.documented.crc16 [0x39, 0x39, 0x39] = crc16Residue ↔
    u16OfLe [0x39, 0x39] = Crates.documented.crc16 [0x39] :=
  ((crc16_residue_iff Crates.documented_standard).1 [0x39, 0x39, 0x39] (by decide)).2
    ⟨by decide +kernel, by decide +kernel⟩

/-- The raw bytes of a heartbeat: its CRC bytes are right, and the CRC over all of it is not the residue. -/
theorem heartbeat_not_residue : ∃ (f : Frame) (d : List UInt8), f.encodeRaw Crates.documented 491 = some d ∧
    u16OfLe (d.drop (d.length - 2)) = Crates.documented.crc16 (d.take (d.length - 2)) ∧
    Crates.documented.crc16 d = 0x0F47 ∧ Crates.documented.crc16 d ≠ crc16Residue :=
  ⟨⟨⟨1, 1, 0, 7, 0⟩, Heapless.Vec.new, (0, 0)⟩, [1, 1, 0, 7, 0, 0, 0, 0, 0, 116, 97], by decide +kernel,
    by decide +kernel, by decide +kernel, by decide +kernel⟩

/-! ## A bad segment in the pipeline -/

/-- Bytes of a segment that fits only reach the framer. -/
theorem ingest_open {r : UInt32} : ∀ (bytes : List TimedByte) (q : List UInt8) (p : Pipeline N Q),
    p.framer = Reference.stateAt N q r → 0 ∉ bytes.map (·.byte) → (q ++ bytes.map (·.byte)).length ≤ N →
    p.ingest c bytes = { p with framer := Reference.stateAt N (q ++ bytes.map (·.byte)) r }
  | [], q, p, hp, _, _ => by
    rw [List.map_nil, List.append_nil, ← hp]
    rfl
  | b :: bytes, q, p, hp, h0, hlen => by
    rw [List.map_cons, List.mem_cons, not_or] at h0
    have hb : b.byte ≠ 0 := fun h => h0.1 h.symm
    have hq : q.length ≠ N := by
      rw [List.map_cons, List.length_append, List.length_cons] at hlen
      omega
    have hfeed := Reference.feed_stateAt c N q r b.byte
    have hquiet : Reference.nextResync r .incomplete = r := rfl
    rw [Reference.answer, if_neg hb, if_neg hq, Reference.nextOpen, if_neg hb, hquiet, ← hp] at hfeed
    rw [List.map_cons, List.append_cons] at hlen ⊢
    rw [Pipeline.ingest, List.foldl_cons, ← Pipeline.ingest, ingestByte_incomplete hfeed,
      ingest_open bytes (q ++ [b.byte]) _ rfl h0.2 hlen]

/-- **A segment that fits but fails** at `COBS`, at the parse or at the CRC counts one CRC failure, and changes nothing
else behind the framer. -/
theorem ingest_failed {p : Pipeline N Q} (hp : p.framer.Between) {seg : List UInt8} (hne : seg ≠ []) (h0 : 0 ∉ seg)
    (hlen : seg.length ≤ N)
    (hfail : ∀ f, Reference.decodeSegment c seg = .complete f → computedCrc c f ≠ ofLeBytes f.crcBytes)
    {bytes : List TimedByte} (hbytes : bytes.map (·.byte) = seg ++ [0x00]) :
    ∃ framer, p.ingest c bytes = { p with framer := framer, stats := p.stats.bump .crcFail } := by
  obtain ⟨front, last, rfl⟩ : ∃ front last, bytes = front ++ [last] :=
    ⟨bytes.dropLast, bytes.getLast (by rintro rfl; simp at hbytes), (List.dropLast_append_getLast _).symm⟩
  rw [List.map_append, List.map_singleton] at hbytes
  obtain ⟨hfront, hlast⟩ := List.append_inj' hbytes rfl
  rw [List.cons.injEq] at hlast
  have hopen := ingest_open (c := c) front [] p hp.eq_stateAt (by rw [hfront]; exact h0) (by rw [hfront]; exact hlen)
  rw [hfront, List.nil_append] at hopen
  have hfeed := Reference.feed_stateAt c N seg p.framer.resyncCount last.byte
  rw [Reference.answer, if_pos hlast.1, Reference.onDelimiter, if_neg (not_or.2 ⟨hne, Nat.not_lt.2 hlen⟩)] at hfeed
  have hsplit : p.ingest c (front ++ [last]) = (p.ingest c front).ingestByte c last := List.foldl_append
  rw [hsplit, hopen]
  generalize hd : Reference.decodeSegment c seg = o at hfeed hfail
  cases o with
  | complete f =>
    have hfault : firstFault c f = some (.crc (computedCrc c f) (ofLeBytes f.crcBytes)) :=
      if_pos (hfail f rfl)
    rw [ingestByte_complete hfeed, onComplete_of_rejected (check_of_fault _ hfault)]
    exact ⟨_, rfl⟩
  | overflow => exact ⟨_, ingestByte_bad hfeed (Or.inl rfl)⟩
  | cobsError => exact ⟨_, ingestByte_bad hfeed (Or.inr (Or.inl rfl))⟩
  | parseError => exact ⟨_, ingestByte_bad hfeed (Or.inr (Or.inr rfl))⟩
  | incomplete =>
    unfold Reference.decodeSegment at hd
    split at hd
    · cases hd
    · split at hd <;> cases hd

/-- **Wire error detection.**  Bytes as many as a frame's, different from them within 16 consecutive bits, sent as a
segment to a new pipeline: one CRC failure is counted, and nothing is queued or remembered. -/
theorem wire_burst_detected (hc : c.Standard) (hN : 493 ≤ N) (filter : FilterConfig) (f : Frame) {bufLen : Nat}
    {d d' : List UInt8} (hd : f.encodeRaw c bufLen = some d) (hlen : d'.length = d.length) (hne : d' ≠ d)
    (hb : Crc.Confined 16 (d.flatMap Crc.bits) (d'.flatMap Crc.bits)) {bytes : List TimedByte}
    (hbytes : bytes.map (·.byte) = c.cobsEncode d' ++ [0x00]) :
    ((Pipeline.new filter : Pipeline N Q).ingest c bytes).queued = [] ∧
    ((Pipeline.new filter : Pipeline N Q).ingest c bytes).validator.lastSeq = none ∧
    ((Pipeline.new filter : Pipeline N Q).ingest c bytes).stats = { Stats.default with crcFail := 1 } ∧
    ((Pipeline.new filter : Pipeline N Q).ingest c bytes).ringbuf = RingBuf.new := by
  obtain rfl : f.raw (f.computeCrc c) = d := by
    rw [Frame.encodeRaw_eq] at hd
    split at hd
    · cases hd
    · exact Option.some.inj hd
  rw [Frame.length_raw] at hlen
  have hnil : d' ≠ [] := by
    rintro rfl
    rw [minFrameLen, headerLen, List.length_nil] at hlen
    omega
  have hfits : (c.cobsEncode d').length ≤ N := by
    refine Nat.le_trans (hc.length_encode_le hnil) (Nat.le_trans ?_ hN)
    rw [hlen]
    exact f.maxLength_rawLen_le
  have hfail : ∀ g, Reference.decodeSegment c (c.cobsEncode d') = .complete g →
      computedCrc c g ≠ ofLeBytes g.crcBytes := by
    intro g hg
    obtain ⟨e, he, hsz, rfl⟩ := decodeSegment_eq_complete.1 hg
    obtain rfl : d' = e := Option.some.inj ((hc.decode_encode hnil).symm.trans he)
    have hraw := raw_frameOf hsz
    have hpay : f.payload.toList.length = (frameOf d' hsz).payload.toList.length := by
      rw [← hraw, Frame.length_raw] at hlen
      omega
    exact crc_ne_of_burst hc hpay (by rw [hraw]; exact hne) (by rw [hraw]; exact hb)
  obtain ⟨framer, h⟩ := ingest_failed (p := (Pipeline.new filter : Pipeline N Q)) Framer.between_new
    (hc.encode_ne_nil hnil) (hc.zero_not_mem_encode hnil) hfits hfail hbytes
  rw [h]
  exact ⟨rfl, rfl, rfl, rfl⟩

/-- A heartbeat with its length field and its first CRC byte hit by one burst. -/
theorem wire_burst_heartbeat :
    let p := (Pipeline.new .allowAll : DefaultPipeline).ingest Crates.documented
      ((Crates.documented.cobsEncode [1, 1, 0, 7, 0, 0, 0, 0, 0x80, 117, 97] ++ [0x00]).map fun b => ⟨b, 0⟩)
    p.queued = [] ∧ p.validator.lastSeq = none ∧ p.stats = { Stats.default with crcFail := 1 } ∧
      p.ringbuf = RingBuf.new := by
  have hd : (⟨⟨1, 1, 0, 7, 0⟩, Heapless.Vec.new, (0, 0)⟩ : Frame).encodeRaw Crates.documented 491
      = some [1, 1, 0, 7, 0, 0, 0, 0, 0, 116, 97] := by decide +kernel
  have hb : Crc.Confined 16 (List.flatMap Crc.bits [1, 1, 0, 7, 0, 0, 0, 0, 0, 116, 97])
      (List.flatMap Crc.bits [1, 1, 0, 7, 0, 0, 0, 0, 0x80, 117, 97]) :=
    Crc.confined_of_lt (by simp) (show ∀ j < 88, _ → 71 ≤ j ∧ j < 71 + 16 by decide +kernel)
  refine wire_burst_detected Crates.documented_standard (by decide) .allowAll _ hd ?_ ?_ hb ?_
  · rfl
  · decide
  · simp [Function.comp_def]

/-! ## Stored records -/

/-- **Storage error detection.**  Bytes as many as a record's blob, different from it within 32 consecutive bits, do not
decode, with or without the delimiter. -/
theorem record_burst_detected (hc : c.Standard) (r : RecordV1) {b b' : List UInt8}
    (hblob : b = c.postcardSer (.v1 r) ++ u32ToLe (c.crc32 (c.postcardSer (.v1 r)))) (hlen : b'.length = b.length)
    (hne : b' ≠ b) (hb : Crc.Confined 32 (b.flatMap Crc.bits) (b'.flatMap Crc.bits)) :
    Record.decode c (c.cobsEncode b') = .error .codec ∧ Record.decode c (c.cobsEncode b' ++ [0x00]) = .error .codec := by
  subst hblob
  rw [List.length_append, Bytes.length_u32ToLe] at hlen
  have hnil : b' ≠ [] := by
    rintro rfl
    rw [List.length_nil] at hlen
    omega
  have h0 := hc.zero_not_mem_encode hnil
  have hsplit : b' = b'.take (b'.length - 4) ++ Bytes.le 4 (u32OfLe (b'.drop (b'.length - 4))).toBitVec.toNat :=
    (Bytes.take_append_u32ToLe (by omega)).symm
  have hcrc : c.crc32 (b'.take (b'.length - 4)) ≠ u32OfLe (b'.drop (b'.length - 4)) := by
    rw [hc.crc32]
    intro h
    rw [hsplit] at hne hb
    rw [hc.crc32 (c.postcardSer _)] at hne hb
    refine Crc.checksum_ne_of_burst isoHdlc_msb (show 32 = 8 * 4 from rfl) ?_ (Ne.symm hne) hb
      (congrArg UInt32.toBitVec h)
    rw [List.length_take]
    omega
  have hdec : Record.decode c (c.cobsEncode b') = .error .codec := by
    rw [Record.decode_of_not_mem h0, hc.decode_encode hnil]
    simp only
    rw [if_pos (Or.inr hcrc)]
    exact ite_self _
  exact ⟨hdec, (Record.decode_snoc_zero h0).trans hdec⟩

/-- A record whose last stored byte and first CRC byte are hit by one burst. -/
theorem record_burst_first :
    Record.decode Crates.documented (Crates.documented.cobsEncode [0, 5, 6, 1, 0, 0x80, 57, 27, 139, 93])
      = .error .codec := by
  have hblob : [0, 5, 6, 1, 0, 0, 56, 27, 139, 93]
      = Crates.documented.postcardSer (.v1 ⟨5, 6, 1, 0, Heapless.Vec.new⟩)
        ++ u32ToLe (Crates.documented.crc32 (Crates.documented.postcardSer (.v1 ⟨5, 6, 1, 0, Heapless.Vec.new⟩))) := by
    decide +kernel
  have hb : Crc.Confined 32 (List.flatMap Crc.bits [0, 5, 6, 1, 0, 0, 56, 27, 139, 93])
      (List.flatMap Crc.bits [0, 5, 6, 1, 0, 0x80, 57, 27, 139, 93]) :=
    Crc.confined_of_lt (by simp) (show ∀ j < 80, _ → 47 ≤ j ∧ j < 47 + 32 by decide +kernel)
  refine (record_burst_detected Crates.documented_standard _ hblob ?_ ?_ hb).1
  · rfl
  · decide

end Telemetry
