import TelemetryLogger.Containment
import TelemetryLogger.Detection
/-!
# Damage — a cut frame and a flipped byte

A frame cut short does not parse.  A byte of a short body with `0xAA` added bit by bit breaks the `COBS` decoding, if it
is a code, or else is one byte of the message and breaks the parse or the CRC (`not_intact_flip`).  The byte `0xAA`
itself becomes a delimiter: the front part is then a cut frame, and the rest a segment of its own (`flip_detected`).
-/
namespace Telemetry

variable {c : Crates} {N Q : Nat}

/-! ## Segments that hold no frame -/

theorem Intact.decodeSegment {p : List UInt8} {f : Frame} (h : Intact c N p f) :
    Reference.decodeSegment c p = .complete f := by
  obtain ⟨d, hsz, hdec, rfl⟩ := h.decodes
  exact decodeSegment_eq_complete.2 ⟨d, hdec, hsz, rfl⟩

/-- **A frame cut short holds none.** -/
theorem not_intact_cut (hc : c.Standard) {f : Frame} (hf : f.header.payloadLen.toNat = f.payload.toList.length)
    {p q : List UInt8} (hp : p ≠ []) (hq : q ≠ []) (hpq : p ++ q = f.body c) (g : Frame) : ¬ Intact c N p g := by
  intro hg
  rcases decodeSegment_cut hc hf hp hq hpq with h | h
  · rw [hg.decodeSegment] at h
    cases h
  · rw [hg.decodeSegment] at h
    cases h

/-- What `bad-crc` does to a byte. -/
def flip (b : UInt8) : UInt8 := b ^^^ 0xAA

theorem flip_eq_zero_iff (b : UInt8) : flip b = 0 ↔ b = 0xAA := by
  rw [flip]
  exact UInt8.xor_eq_zero_iff

theorem flip_ne (b : UInt8) : flip b ≠ b := by
  intro h
  have hzero : (0xAA : UInt8) = 0 := by
    rw [← UInt8.zero_xor (a := 0xAA), ← UInt8.xor_self (a := b), UInt8.xor_assoc]
    exact congrArg (b ^^^ ·) h
  exact absurd hzero (by decide)

/-- A code of a short message is sent out of reach. -/
theorem flip_reach (b : UInt8) (hb : b.toNat ≤ 127) : 127 < (flip b).toNat := by
  have hlow : b.toBitVec.msb = false := by
    rw [BitVec.msb_eq_false_iff_two_mul_lt]
    show 2 * b.toNat < 256
    omega
  have hhigh : (b.toBitVec ^^^ 0xAA#8).msb = true := by
    rw [BitVec.msb_xor, hlow]
    rfl
  exact Nat.lt_of_succ_le (BitVec.le_toNat_of_msb_true hhigh)

/-- **A frame with one byte of its raw form changed holds none.** -/
theorem crc_ne_of_modify (hc : c.Standard) {f : Frame} {j : Nat} (hj : j < (f.raw (f.computeCrc c)).length)
    (hsz : WellSized ((f.raw (f.computeCrc c)).modify j flip)) :
    computedCrc c (frameOf _ hsz) ≠ ofLeBytes (frameOf _ hsz).crcBytes := by
  have hraw := raw_frameOf hsz
  have hlen : f.payload.toList.length = (frameOf _ hsz).payload.toList.length := by
    have h := congrArg List.length hraw
    rw [Frame.length_raw, List.length_modify, Frame.length_raw] at h
    omega
  refine crc_ne_of_burst hc hlen ?_ ?_
  · rw [hraw]
    intro h
    have hbyte : ((f.raw (f.computeCrc c)).modify j flip)[j]? = (f.raw (f.computeCrc c))[j]? := by rw [h]
    rw [List.getElem?_modify_eq, List.getElem?_eq_getElem hj] at hbyte
    exact flip_ne _ (Option.some.inj hbyte)
  · rw [hraw]
    exact Crc.confined_modify (by decide) hj flip

/-- **A flipped byte that is not `0xAA` leaves no frame** in a short body. -/
theorem not_intact_flip (hc : c.Standard) {f : Frame} (hshort : (f.body c).length ≤ 127) {pos : Nat}
    (hpos : pos < (f.body c).length) (h0 : 0 ∉ (f.body c).modify pos flip) (g : Frame) :
    ¬ Intact c N ((f.body c).modify pos flip) g := by
  intro hg
  obtain ⟨d, hsz, hdec, rfl⟩ := hg.decodes
  have hcrc := hg.crc
  rw [hc.cobsDecode _ h0, Frame.body, hc.cobsEncode _ (f.raw_ne_nil _)] at hdec
  rw [Frame.body, hc.cobsEncode _ (f.raw_ne_nil _)] at hshort hpos
  rcases Cobs.decode_modify flip_reach hshort hpos with hnone | ⟨j, hj, hsome⟩
  · rw [hnone] at hdec
    cases hdec
  · obtain rfl := Option.some.inj (hsome.symm.trans hdec)
    exact crc_ne_of_modify hc hj hsz hcrc

/-- A flipped `0xAA` is not the first byte of a short body. -/
theorem pos_ne_zero (hc : c.Standard) {f : Frame} (hshort : (f.body c).length ≤ 127) {pos : Nat}
    (hbyte : (f.body c)[pos]? = some 0xAA) : pos ≠ 0 := by
  rintro rfl
  rw [Frame.body, hc.cobsEncode _ (f.raw_ne_nil _)] at hshort hbyte
  have hle := Cobs.head_encode_le (List.head?_eq_getElem?.trans hbyte)
  exact absurd (Nat.le_trans hle hshort) (by decide)

/-- **A flipped byte makes a delimiter exactly when it was `0xAA`.** -/
theorem zero_mem_modify_iff (hc : c.Standard) (f : Frame) (pos : Nat) :
    0 ∈ (f.body c).modify pos flip ↔ (f.body c)[pos]? = some 0xAA := by
  rw [List.mem_iff_getElem?]
  constructor
  · rintro ⟨i, hi⟩
    rw [List.getElem?_modify] at hi
    obtain ⟨b, hb, hzero⟩ := Option.map_eq_some_iff.1 hi
    by_cases hpos : pos = i
    · rw [if_pos hpos, flip_eq_zero_iff] at hzero
      rw [hpos, hb, hzero]
    · rw [if_neg hpos] at hzero
      exact absurd (List.mem_of_getElem? (hb.trans (congrArg some hzero))) (f.zero_not_mem_body hc)
  · intro h
    refine ⟨pos, ?_⟩
    rw [List.getElem?_modify_eq, h]
    rfl

theorem modify_append_left {α : Type} (g : α → α) {l : List α} (r : List α) {i : Nat} (hi : i < l.length) :
    (l ++ r).modify i g = l.modify i g ++ r := by
  have hi' : i < (l ++ r).length := by
    rw [List.length_append]
    omega
  rw [List.modify_eq_take_cons_drop hi', List.modify_eq_take_cons_drop hi,
    List.take_append_of_le_length (Nat.le_of_lt hi), List.drop_append_of_le_length hi, List.getElem_append_left hi,
    List.append_assoc, List.cons_append]

theorem modify_wire (c : Crates) (f : Frame) {pos : Nat} (hpos : pos < (f.body c).length) :
    (f.wire c).modify pos (· ^^^ 0xAA) = (f.body c).modify pos flip ++ [0x00] :=
  modify_append_left flip [0x00] hpos

/-- **The flip of a byte `0xAA`** cuts the body there. -/
theorem modify_of_delimiter (c : Crates) (f : Frame) {pos : Nat} (hbyte : (f.body c)[pos]? = some 0xAA) :
    (f.body c).modify pos flip = (f.body c).take pos ++ 0x00 :: (f.body c).drop (pos + 1) := by
  obtain ⟨hpos, hb⟩ := List.getElem?_eq_some_iff.1 hbyte
  rw [List.modify_eq_take_cons_drop hpos, hb]
  rfl

/-! ## Damaged frames in the pipeline -/

theorem framer_onComplete (c : Crates) (p : Pipeline N Q) (f : Frame) (now : UInt64) :
    (p.onComplete c f now).framer = p.framer := by
  unfold Pipeline.onComplete
  split
  · simp only
    split
    · exact (front_enqueue _ _ _).1
    · rfl
  · simp only
    split <;> rfl

theorem framer_ingestByte (c : Crates) (p : Pipeline N Q) (b : TimedByte) :
    (p.ingestByte c b).framer = (p.framer.feed c b.byte).1 := by
  unfold Pipeline.ingestByte
  split
  · rename_i hfeed
    rw [hfeed, framer_onComplete]
  all_goals
    rename_i hfeed
    rw [hfeed]

/-- **A segment that fits and holds no frame** counts one CRC failure and leaves the framer between frames. -/
theorem ingest_not_intact {p : Pipeline N Q} (hp : p.framer.Between) {seg : List UInt8} (hne : seg ≠ []) (h0 : 0 ∉ seg)
    (hlen : seg.length ≤ N) (hno : ∀ g, ¬ Intact c N seg g) {bytes : List TimedByte}
    (hbytes : untimed bytes = seg ++ [0x00]) :
    ∃ framer, framer.Between ∧ p.ingest c bytes = { p with framer := framer, stats := p.stats.bump .crcFail } := by
  have hfail : ∀ g, Reference.decodeSegment c seg = .complete g → computedCrc c g ≠ ofLeBytes g.crcBytes := by
    intro g hg hcrc
    obtain ⟨d, hdec, hsz, rfl⟩ := decodeSegment_eq_complete.1 hg
    exact hno _ ⟨hne, hlen, ⟨d, hsz, hdec, rfl⟩, hcrc⟩
  obtain ⟨framer, hrun⟩ := ingest_failed hp hne h0 hlen hfail hbytes
  refine ⟨framer, ?_, hrun⟩
  obtain ⟨front, last, rfl, -, hlast⟩ := List.map_eq_append_iff.1 hbytes
  obtain ⟨b, rfl, hb⟩ := List.map_eq_singleton_iff.1 hlast
  have hframer : (p.ingest c (front ++ [b])).framer = ((p.ingest c front).framer.feed c b.byte).1 := by
    rw [Pipeline.ingest, List.foldl_append]
    exact framer_ingestByte c (p.ingest c front) b
  rw [hrun, hb] at hframer
  rw [show framer = _ from hframer]
  exact Framer.between_feed_zero c _

/-- **A flipped byte is detected.**  A frame with a body of at most 127 bytes, one byte of the body with `0xAA` added
bit by bit, sent to a pipeline between frames: one CRC failure is counted, and nothing else happens behind the framer.
If the byte was `0xAA`, it is a delimiter now: then this holds of the bytes up to it, and the rest of the frame is a
segment by itself. -/
theorem flip_detected (hc : c.Standard) (hN : 493 ≤ N) {p : Pipeline N Q} (hp : p.framer.Between) {f : Frame}
    (hf : f.header.payloadLen.toNat = f.payload.toList.length) (hshort : (f.body c).length ≤ 127) {pos : Nat}
    (hpos : pos < (f.body c).length) {bytes : List TimedByte}
    (hbytes : untimed bytes = (f.wire c).modify pos (· ^^^ 0xAA)) :
    ((f.body c)[pos]? ≠ some 0xAA → ∃ framer, framer.Between ∧
      p.ingest c bytes = { p with framer := framer, stats := p.stats.bump .crcFail }) ∧
    ((f.body c)[pos]? = some 0xAA → ∃ framer, framer.Between ∧
      p.ingest c (bytes.take (pos + 1)) = { p with framer := framer, stats := p.stats.bump .crcFail } ∧
      untimed (bytes.drop (pos + 1)) = (f.body c).drop (pos + 1) ++ [0x00]) := by
  have hfit := Nat.le_trans (f.length_body_le hc) hN
  rw [modify_wire c f hpos] at hbytes
  constructor
  · intro hbyte
    have h0 : 0 ∉ (f.body c).modify pos flip := fun h => hbyte ((zero_mem_modify_iff hc f pos).1 h)
    refine ingest_not_intact hp ?_ h0 ?_ (not_intact_flip hc hshort hpos h0) hbytes
    · rw [← List.length_pos_iff, List.length_modify]
      omega
    · rw [List.length_modify]
      exact hfit
  · intro hbyte
    rw [modify_of_delimiter c f hbyte, List.append_assoc, List.cons_append] at hbytes
    have hne : (f.body c).take pos ≠ [] := by
      rw [← List.length_pos_iff, List.length_take]
      have := pos_ne_zero hc hshort hbyte
      omega
    have hrest : (f.body c).drop pos ≠ [] := by
      rw [← List.length_pos_iff, List.length_drop]
      omega
    have h0 : 0 ∉ (f.body c).take pos := fun h => f.zero_not_mem_body hc (List.mem_of_mem_take h)
    have hlen : ((f.body c).take pos).length + 1 = pos + 1 := by
      rw [List.length_take]
      omega
    have hfront : untimed (bytes.take (pos + 1)) = (f.body c).take pos ++ [0x00] := by
      rw [untimed, List.map_take, ← untimed, hbytes, ← hlen, List.take_length_add_append]
      rfl
    obtain ⟨framer, hbetween, hrun⟩ := ingest_not_intact hp hne h0
      (Nat.le_trans (List.length_take_le' _ _) hfit)
      (not_intact_cut hc hf hne hrest (List.take_append_drop _ _)) hfront
    refine ⟨framer, hbetween, hrun, ?_⟩
    rw [untimed, List.map_drop, ← untimed, hbytes, ← hlen, List.drop_length_add_append]
    rw [hlen]
    rfl

/-- A heartbeat with its first CRC byte flipped; and one whose number is `0xAA`, with that byte flipped. -/
theorem flip_detected_heartbeat :
    let p : DefaultPipeline := Pipeline.new .allowAll
    let flipped : List TimedByte := [3, 1, 1, 1, 1, 1, 1, 1, 1, 3, 15, 125, 0].map (⟨·, 0⟩)
    let cut : List TimedByte := [3, 1, 1, 2, 0, 1, 1, 1, 1, 3, 105, 212, 0].map (⟨·, 0⟩)
    (∃ framer : Framer 512, framer.Between ∧
      p.ingest Crates.documented flipped = { p with framer := framer, stats := Stats.default.bump .crcFail }) ∧
    ∃ framer : Framer 512, framer.Between ∧
      p.ingest Crates.documented (cut.take 5) = { p with framer := framer, stats := Stats.default.bump .crcFail } ∧
      untimed (cut.drop 5) = [1, 1, 1, 1, 3, 105, 212, 0] := by
  intro p flipped cut
  constructor
  · exact (flip_detected (N := 512) Crates.documented_standard (by decide) (p := p) Framer.between_new
      (heartbeat_wellFormed 0).length (by decide +kernel) (show 10 < _ by decide +kernel) (by decide +kernel)).1
      (by decide +kernel)
  · have hcut : untimed cut = ((heartbeat 0xAA).wire Crates.documented).modify 4 (· ^^^ 0xAA) := by decide +kernel
    obtain ⟨framer, hbetween, hrun, hrest⟩ := (flip_detected (N := 512) Crates.documented_standard (by decide) (p := p)
      Framer.between_new (heartbeat_wellFormed 0xAA).length (by decide +kernel) (show 4 < _ by decide +kernel) hcut).2
      (by decide +kernel)
    have hbody : (heartbeat 0xAA).body Crates.documented = [3, 1, 1, 2, 170, 1, 1, 1, 1, 3, 105, 212] := by
      decide +kernel
    rw [hbody] at hrest
    exact ⟨framer, hbetween, hrun, hrest⟩

end Telemetry
