import TelemetryLogger.Reference
/-!
# Grammar — the wire grammar of the framer

Between delimiters the framer accepts one segment at a time (`feedAll_segment`).  What it completes is exactly the
decodings that are as long as they announce, and the fields of the frame are the bytes of the decoding in order
(`framer_parses_grammar`).  A frame cut short, or run into the next one, never completes, because its length field
then contradicts its length (`cut_and_merged_never_complete`).
-/
namespace Telemetry

open Bytes (u16ToLe u32ToLe u16OfLe u32OfLe)

variable {c : Crates} {N : Nat}

/-! ## Between frames -/

/-- **The framer waits for a new segment.** -/
def Framer.Between (fr : Framer N) : Prop := fr.state = .collecting ∧ fr.buf.toList = []

theorem Framer.between_new : (Framer.new : Framer N).Between := ⟨rfl, rfl⟩

/-- **Any framer is between frames after a delimiter.** -/
theorem Framer.between_feed_zero (c : Crates) (fr : Framer N) : (fr.feed c 0).1.Between := by
  obtain ⟨buf, state, r⟩ := fr
  cases state with
  | discarding => exact ⟨rfl, rfl⟩
  | collecting =>
    unfold Framer.feed Framer.Between
    simp only [ne_eq, not_true_eq_false, if_false]
    split
    · rename_i hempty
      exact ⟨rfl, List.isEmpty_iff.1 hempty⟩
    · refine ⟨?_, rfl⟩
      unfold Framer.process
      split <;> rfl

theorem Framer.Between.eq_stateAt {fr : Framer N} (h : fr.Between) : fr = Reference.stateAt N [] fr.resyncCount := by
  obtain ⟨buf, state, r⟩ := fr
  obtain ⟨rfl, hbuf⟩ := h
  obtain rfl : buf = Heapless.Vec.new := Heapless.Vec.ext hbuf
  rfl

/-- **One segment and its delimiter**: an overflow, if any, on byte `N + 1`, and the answer on the delimiter. -/
theorem feedAll_segment {fr : Framer N} (hfr : fr.Between) {p : List UInt8} (hp : 0 ∉ p) :
    (fr.feedAll c (p ++ [0])).2 = Reference.onBytes N p ++ [Reference.onDelimiter c N p] := by
  obtain ⟨_, hrun, -⟩ := Reference.feedAll_new c N (p ++ [0])
  rw [hfr.eq_stateAt, Reference.feedAll_stateAt_congr c N [] _ _ 0]
  show ((Framer.new : Framer N).feedAll c (p ++ [0])).2 = _
  rw [hrun, Reference.outputs, Split.closed_cut 0 [] hp, Split.opened_cut 0 [] hp, Split.closed_nil, Split.opened_nil]
  simp [Reference.onBytes]

theorem onBytes_of_le {p : List UInt8} (h : p.length ≤ N) :
    Reference.onBytes N p = List.replicate p.length .incomplete := by
  apply List.ext_getElem (by simp [Reference.onBytes])
  intro i hi _
  have hlt : i < p.length := by simpa [Reference.onBytes] using hi
  simp [Reference.onBytes, Nat.ne_of_lt (Nat.lt_of_lt_of_le hlt h)]

/-- **A segment that fits**: silence, then what it decodes to. -/
theorem feedAll_segment_of_le {fr : Framer N} (hfr : fr.Between) {p : List UInt8} (hp : 0 ∉ p) (hne : p ≠ [])
    (hle : p.length ≤ N) :
    (fr.feedAll c (p ++ [0])).2 = List.replicate p.length .incomplete ++ [Reference.decodeSegment c p] := by
  rw [feedAll_segment hfr hp, onBytes_of_le hle, Reference.onDelimiter, if_neg (not_or.2 ⟨hne, Nat.not_lt.2 hle⟩)]

/-! ## The fields are the bytes -/

theorem eq_nine_cons {d : List UInt8} (h : 9 ≤ d.length) : ∃ v t s q0 q1 q2 q3 l0 l1 rest,
    d = v :: t :: s :: q0 :: q1 :: q2 :: q3 :: l0 :: l1 :: rest := by
  match d, h with
  | v :: t :: s :: q0 :: q1 :: q2 :: q3 :: l0 :: l1 :: rest, _ => exact ⟨v, t, s, q0, q1, q2, q3, l0, l1, rest, rfl⟩

theorem take_snoc_two {rest : List UInt8} {a : Nat} (h : rest.length = a + 2) :
    rest.take a ++ [rest.getD a 0, rest.getD (a + 1) 0] = rest := by
  obtain ⟨x, y, hxy⟩ := List.length_eq_two.1 (show (rest.drop a).length = 2 by rw [List.length_drop, h]; omega)
  have hget : ∀ i, rest.getD (a + i) 0 = (rest.drop a).getD i 0 := fun i => by
    rw [List.getD_eq_getElem?_getD, List.getD_eq_getElem?_getD, List.getElem?_drop]
  have hx := hget 0
  have hy := hget 1
  rw [Nat.add_zero] at hx
  rw [hx, hy, hxy]
  show rest.take a ++ [x, y] = rest
  rw [← hxy, List.take_append_drop]

/-- **The frame's fields in wire order are the decoded bytes.** -/
theorem raw_frameOf {d : List UInt8} (h : WellSized d) : (frameOf d h).raw (frameOf d h).crcBytes = d := by
  have hd := h.2
  obtain ⟨v, t, s, q0, q1, q2, q3, l0, l1, rest, rfl⟩ := eq_nine_cons
    (show 9 ≤ d.length by rw [hd, minFrameLen, headerLen]; omega)
  have hrest : rest.length = announcedLen (v :: t :: s :: q0 :: q1 :: q2 :: q3 :: l0 :: l1 :: rest) + 2 := by
    simp only [List.length_cons, minFrameLen, headerLen, crc16Len] at hd
    omega
  have hget : ∀ a i, (v :: t :: s :: q0 :: q1 :: q2 :: q3 :: l0 :: l1 :: rest).getD (headerLen + a + i) 0
      = rest.getD (a + i) 0 := fun a i => by
    rw [headerLen, Nat.add_assoc, Nat.add_comm 9]
    rfl
  have hseq : u32ToLe (u32OfLe [q0, q1, q2, q3]) = [q0, q1, q2, q3] := Bytes.u32ToLe_u32OfLe rfl
  have hlen : u16ToLe (u16OfLe [l0, l1]) = [l0, l1] := Bytes.u16ToLe_u16OfLe rfl
  show v :: t :: s :: (u32ToLe (u32OfLe [q0, q1, q2, q3]) ++ (u16ToLe (u16OfLe [l0, l1]) ++ rest.take _))
    ++ [List.getD _ _ 0, List.getD _ _ 0] = _
  rw [hseq, hlen, hget _ 1, ← Nat.add_zero (headerLen + _), hget _ 0]
  simpa using take_snoc_two hrest

/-- The length field, as the two bytes at offset 7. -/
theorem announcedLen_eq {d : List UInt8} (h : 9 ≤ d.length) :
    announcedLen d = (u16OfLe ((d.drop 7).take 2)).toNat := by
  obtain ⟨v, t, s, q0, q1, q2, q3, l0, l1, rest, rfl⟩ := eq_nine_cons h
  rfl

theorem wellSized_iff (d : List UInt8) : WellSized d ↔
    (u16OfLe ((d.drop 7).take 2)).toNat ≤ 480 ∧ d.length = 11 + (u16OfLe ((d.drop 7).take 2)).toNat := by
  by_cases h : 9 ≤ d.length
  · rw [← announcedLen_eq h]
    exact Iff.rfl
  · constructor
    · intro hsz
      have := hsz.2
      simp only [minFrameLen, headerLen, crc16Len] at this
      omega
    · rintro ⟨-, hlen⟩
      omega

theorem decodeSegment_eq_complete {p : List UInt8} {f : Frame} :
    Reference.decodeSegment c p = .complete f ↔ ∃ d, c.cobsDecode p = some d ∧ ∃ h : WellSized d, f = frameOf d h := by
  unfold Reference.decodeSegment
  cases c.cobsDecode p with
  | none => simp
  | some d =>
    simp only [← parseDecoded_eq, parseDecoded_eq_complete, Option.some.injEq, exists_eq_left']

/-- **What an encoder sends**: the segment of a frame completes to the frame, with its own CRC bytes, or does not parse
when the length field is wrong. -/
theorem decodeSegment_body (hc : c.Standard) (f : Frame) : Reference.decodeSegment c (f.body c)
    = if f.header.payloadLen.toNat = f.payload.toList.length then .complete { f with crcBytes := f.computeCrc c }
      else .parseError := by
  unfold Reference.decodeSegment
  rw [Frame.body, hc.decode_encode (f.raw_ne_nil _)]
  simp only
  rw [← parseDecoded_eq]
  split
  · rename_i h
    exact parseDecoded_raw f _ h
  · rename_i h
    rw [parseDecoded_eq, dif_neg (fun hsz => h ((wellSized_raw f _).1 hsz))]

/-- **The framer parses exactly the wire grammar.**  A segment that fits completes exactly when its decoding is as long
as it announces; the frame's fields in order are the decoding, and the encoder gives the decoding back when the CRC
bytes are the frame's own.  Conversely every encoded frame completes to itself with its own CRC bytes, unless its
length field is wrong. -/
theorem framer_parses_grammar (hc : c.Standard) :
    (∀ (N : Nat) (fr : Framer N), fr.Between → ∀ p : List UInt8, p ≠ [] → 0 ∉ p → p.length ≤ N →
      ∃ o, (fr.feedAll c (p ++ [0x00])).2 = List.replicate p.length .incomplete ++ [o] ∧
        ((∃ f, o = .complete f) ↔ ∃ d, c.cobsDecode p = some d ∧ (u16OfLe ((d.drop 7).take 2)).toNat ≤ 480 ∧
          d.length = 11 + (u16OfLe ((d.drop 7).take 2)).toNat) ∧
        ∀ f, o = .complete f → ∃ d, c.cobsDecode p = some d ∧
          [f.header.version, f.header.packetType, f.header.severity] ++ u32ToLe f.header.sequence
            ++ u16ToLe f.header.payloadLen ++ f.payload.toList ++ [f.crcBytes.1, f.crcBytes.2] = d ∧
          f.header.payloadLen.toNat = f.payload.toList.length ∧
          (f.crcBytes = f.computeCrc c → ∀ bufLen, f.rawLen ≤ bufLen → f.encodeRaw c bufLen = some d)) ∧
    ∀ (N : Nat) (fr : Framer N), 493 ≤ N → fr.Between → ∀ f : Frame,
      (∀ bufLen, maxCobsFrameBytes ≤ bufLen → (f.encodeCobs c bufLen).isSome) ∧
      ∀ bufLen out, f.encodeCobs c bufLen = some out →
        (fr.feedAll c out).2 = List.replicate (out.length - 1) .incomplete
          ++ [if f.header.payloadLen.toNat = f.payload.toList.length then
                .complete { f with crcBytes := f.computeCrc c }
              else .parseError] := by
  refine ⟨fun N fr hfr p hne hp hle => ⟨_, feedAll_segment_of_le hfr hp hne hle, ?_, ?_⟩,
    fun N fr hN hfr f => ⟨fun bufLen hbuf => ?_, fun bufLen out hout => ?_⟩⟩
  · constructor
    · rintro ⟨f, hf⟩
      obtain ⟨d, hd, hsz, -⟩ := decodeSegment_eq_complete.1 hf
      exact ⟨d, hd, (wellSized_iff d).1 hsz⟩
    · rintro ⟨d, hd, hsz⟩
      exact ⟨frameOf d ((wellSized_iff d).2 hsz), decodeSegment_eq_complete.2 ⟨d, hd, _, rfl⟩⟩
  · intro f hf
    obtain ⟨d, hd, hsz, rfl⟩ := decodeSegment_eq_complete.1 hf
    have hraw := raw_frameOf hsz
    refine ⟨d, hd, ?_, payloadLen_frameOf d hsz, fun hcrc bufLen hbuf => ?_⟩
    · simpa [Frame.raw, Frame.covered] using hraw
    · rw [Frame.encodeRaw_eq, if_neg (Nat.not_lt.2 hbuf), ← hcrc, hraw]
  · rw [Frame.encodeCobs_eq_some hc f hbuf]
    rfl
  · rw [Frame.encodeCobs_eq] at hout
    split at hout
    · cases hout
    · cases hout
      rw [feedAll_segment_of_le hfr (f.zero_not_mem_body hc) (f.body_ne_nil hc)
        (Nat.le_trans (f.length_body_le hc) hN), decodeSegment_body hc]
      simp

/-- Segments read: the body of a heartbeat completes with its fields, a body too short for a header does not.  Frames
written: the heartbeat comes back with its CRC bytes, and one that announces a payload it does not have is refused. -/
theorem framer_parses_grammar_heartbeat :
    let fr : Framer 493 := Framer.new
    let f : Frame := ⟨⟨1, 1, 0, 7, 0⟩, Heapless.Vec.new, (0, 0)⟩
    let g : Frame := ⟨⟨1, 1, 0, 7, 4⟩, Heapless.Vec.new, (0, 0)⟩
    (∃ h : Frame, (fr.feedAll Crates.documented [3, 1, 1, 2, 7, 1, 1, 1, 1, 3, 116, 97, 0]).2
        = List.replicate 12 .incomplete ++ [.complete h] ∧
      [h.header.version, h.header.packetType, h.header.severity] ++ u32ToLe h.header.sequence
        ++ u16ToLe h.header.payloadLen ++ h.payload.toList ++ [h.crcBytes.1, h.crcBytes.2]
          = [1, 1, 0, 7, 0, 0, 0, 0, 0, 116, 97]) ∧
    (∃ o, (fr.feedAll Crates.documented [2, 9, 0]).2 = [.incomplete, .incomplete, o] ∧ ¬ ∃ h, o = .complete h) ∧
    (∃ out, f.encodeCobs Crates.documented 494 = some out ∧ (fr.feedAll Crates.documented out).2
      = List.replicate (out.length - 1) .incomplete
        ++ [.complete { f with crcBytes := f.computeCrc Crates.documented }]) ∧
    ∃ out, g.encodeCobs Crates.documented 494 = some out ∧
      (fr.feedAll Crates.documented out).2 = List.replicate (out.length - 1) .incomplete ++ [.parseError] := by
  intro fr f g
  obtain ⟨hparse, hwrite⟩ := framer_parses_grammar Crates.documented_standard
  have hbetween : fr.Between := Framer.between_new
  refine ⟨?_, ?_, ?_, ?_⟩
  · obtain ⟨o, hrun, hiff, hfields⟩ := hparse 493 fr hbetween [3, 1, 1, 2, 7, 1, 1, 1, 1, 3, 116, 97] (by decide)
      (by decide) (by decide)
    obtain ⟨h, rfl⟩ := hiff.2 ⟨[1, 1, 0, 7, 0, 0, 0, 0, 0, 116, 97], by decide +kernel⟩
    obtain ⟨d, hd, hbytes, -⟩ := hfields h rfl
    have hdec : Crates.documented.cobsDecode [3, 1, 1, 2, 7, 1, 1, 1, 1, 3, 116, 97]
        = some [1, 1, 0, 7, 0, 0, 0, 0, 0, 116, 97] := by decide +kernel
    exact ⟨h, hrun, hbytes.trans (Option.some.inj (hd.symm.trans hdec))⟩
  · obtain ⟨o, hrun, hiff, -⟩ := hparse 493 fr hbetween [2, 9] (by decide) (by decide) (by decide)
    refine ⟨o, hrun, fun hcomplete => ?_⟩
    obtain ⟨d, hd, -, hlen⟩ := hiff.1 hcomplete
    have hdec : Crates.documented.cobsDecode [2, 9] = some [9] := by decide +kernel
    obtain rfl := Option.some.inj (hd.symm.trans hdec)
    revert hlen
    decide
  · obtain ⟨hfits, hback⟩ := hwrite 493 fr (Nat.le_refl _) hbetween f
    obtain ⟨out, hout⟩ := Option.isSome_iff_exists.1 (hfits 494 (Nat.le_refl _))
    exact ⟨out, hout, hback 494 out hout⟩
  · obtain ⟨hfits, hback⟩ := hwrite 493 fr (Nat.le_refl _) hbetween g
    obtain ⟨out, hout⟩ := Option.isSome_iff_exists.1 (hfits 494 (Nat.le_refl _))
    exact ⟨out, hout, hback 494 out hout⟩

/-! ## Cut and merged frames -/

theorem announcedLen_append {d : List UInt8} (h : 9 ≤ d.length) (t : List UInt8) :
    announcedLen (d ++ t) = announcedLen d := by
  obtain ⟨v, t, s, q0, q1, q2, q3, l0, l1, rest, rfl⟩ := eq_nine_cons h
  rfl

theorem nine_le_of_wellSized {d : List UInt8} (h : WellSized d) : 9 ≤ d.length := by
  rw [h.2, minFrameLen, headerLen]
  omega

/-- **A strict prefix of a frame is not well sized**: the length field is whole, or the prefix is too short for one. -/
theorem not_wellSized_of_cut {f : Frame} (hf : f.header.payloadLen.toNat = f.payload.toList.length)
    {crc : UInt8 × UInt8} {d t : List UInt8} (ht : t ≠ []) (hdt : d ++ t = f.raw crc) : ¬ WellSized d := by
  intro h
  have hlen := congrArg List.length hdt
  have ha := announcedLen_append (nine_le_of_wellSized h) t
  rw [hdt, announcedLen_raw, hf] at ha
  rw [List.length_append, h.2, Frame.length_raw, ha] at hlen
  exact ht (List.length_eq_zero_iff.1 (by omega))

/-- **A frame with bytes behind it is not well sized.** -/
theorem not_wellSized_of_longer {f : Frame} (hf : f.header.payloadLen.toNat = f.payload.toList.length)
    {crc : UInt8 × UInt8} {t : List UInt8} (ht : t ≠ []) : ¬ WellSized (f.raw crc ++ t) := by
  intro h
  have hnine := nine_le_of_wellSized ((wellSized_raw f crc).2 hf)
  have hlen := h.2
  rw [announcedLen_append hnine, announcedLen_raw, hf, List.length_append, Frame.length_raw] at hlen
  exact ht (List.length_eq_zero_iff.1 (by omega))

theorem eq_body_of_encodeCobs {f : Frame} {bufLen : Nat} {out : List UInt8} (h : f.encodeCobs c bufLen = some out) :
    out = f.body c ++ [0x00] := by
  rw [Frame.encodeCobs_eq] at h
  split at h
  · cases h
  · exact (Option.some.inj h).symm

theorem onBytes_of_lt {p : List UInt8} (h : N < p.length) : Reference.onBytes N p
    = List.replicate N .incomplete ++ .overflow :: List.replicate (p.length - (N + 1)) .incomplete := by
  apply List.ext_getElem (by simp [Reference.onBytes]; omega)
  intro i hi _
  simp only [Reference.onBytes, List.getElem_map, List.getElem_range]
  rcases Nat.lt_trichotomy i N with hlt | rfl | hgt
  · rw [if_neg (Nat.ne_of_lt hlt), List.getElem_append_left (by simpa using hlt), List.getElem_replicate]
  · rw [if_pos rfl, List.getElem_append_right (by simp)]
    simp
  · rw [if_neg (Nat.ne_of_gt hgt), List.getElem_append_right (by simpa using Nat.le_of_lt hgt), List.getElem_cons,
      dif_neg (by simp; omega), List.getElem_replicate]

theorem decodeSegment_cut (hc : c.Standard) {f : Frame} (hf : f.header.payloadLen.toNat = f.payload.toList.length)
    {p q : List UInt8} (hp : p ≠ []) (hq : q ≠ []) (hpq : p ++ q = f.body c) :
    Reference.decodeSegment c p = .cobsError ∨ Reference.decodeSegment c p = .parseError := by
  have h0 : 0 ∉ p := fun h => f.zero_not_mem_body hc (hpq ▸ List.mem_append_left q h)
  rw [Frame.body, hc.cobsEncode _ (f.raw_ne_nil _)] at hpq
  unfold Reference.decodeSegment
  rw [hc.cobsDecode p h0]
  cases hd : Cobs.decode p with
  | none => exact Or.inl rfl
  | some d =>
    obtain ⟨t, ht, hdt⟩ := Cobs.decode_cut hp hq hpq hd
    exact Or.inr (dif_neg (not_wellSized_of_cut hf ht hdt))

theorem decodeSegment_merged (hc : c.Standard) {f g : Frame} (hf : f.header.payloadLen.toNat = f.payload.toList.length)
    (frames : List Frame) :
    Reference.decodeSegment c (f.body c ++ (g :: frames).flatMap (Frame.body c)) = .parseError := by
  have hbody : ∀ f : Frame, f.body c = Cobs.encode (f.raw (f.computeCrc c)) := fun f =>
    hc.cobsEncode _ (f.raw_ne_nil _)
  have h0 : 0 ∉ f.body c ++ (g :: frames).flatMap (Frame.body c) := by
    simp only [List.mem_append, List.mem_flatMap, not_or, not_exists, not_and]
    exact ⟨f.zero_not_mem_body hc, fun f _ => f.zero_not_mem_body hc⟩
  obtain ⟨d, hd, hlen⟩ := Cobs.decode_flatMap_encode (f.raw (f.computeCrc c))
    ((g :: frames).map fun f => f.raw (f.computeCrc c))
  have hne : d ≠ [] := by
    rintro rfl
    have := g.length_raw (g.computeCrc c)
    simp only [List.map_cons, List.flatten_cons, List.length_append, List.length_nil, this, minFrameLen,
      headerLen] at hlen
    omega
  unfold Reference.decodeSegment
  rw [hc.cobsDecode _ h0]
  have heq : f.body c ++ (g :: frames).flatMap (Frame.body c) = Cobs.encode (f.raw (f.computeCrc c))
      ++ ((g :: frames).map fun f => f.raw (f.computeCrc c)).flatMap Cobs.encode := by
    rw [List.flatMap_map, hbody f]
    exact congrArg _ (List.flatMap_congr fun f _ => hbody f)
  rw [heq, hd]
  exact dif_neg (not_wellSized_of_longer hf hne)

theorem flatMap_dropLast {frames : List Frame} {outs : List (List UInt8)}
    (h : List.Forall₂ (fun f out => ∃ bufLen, Frame.encodeCobs c f bufLen = some out) frames outs) :
    outs.flatMap List.dropLast = frames.flatMap (Frame.body c) := by
  induction h with
  | nil => rfl
  | cons h _ ih =>
    obtain ⟨bufLen, hout⟩ := h
    rw [List.flatMap_cons, List.flatMap_cons, ih, eq_body_of_encodeCobs hout, List.dropLast_concat]

/-- **A segment that does not parse gives exactly one error**: an overflow when it does not fit, else a parse error. -/
theorem feedAll_unparsed {fr : Framer N} (hfr : fr.Between) {p : List UInt8} (hp : 0 ∉ p) (hne : p ≠ [])
    (hd : Reference.decodeSegment c p = .parseError) : ∃ pre e post, (fr.feedAll c (p ++ [0x00])).2 = pre ++ e :: post ∧
      (e = .parseError ∨ e = .overflow) ∧ ∀ o ∈ pre ++ post, o = .incomplete := by
  by_cases hle : p.length ≤ N
  · refine ⟨List.replicate p.length .incomplete, .parseError, [], ?_, Or.inl rfl, ?_⟩
    · rw [feedAll_segment_of_le hfr hp hne hle, hd]
    · simp [List.mem_replicate]
  · have hlt := Nat.not_le.1 hle
    refine ⟨List.replicate N .incomplete, .overflow,
      List.replicate (p.length - (N + 1)) .incomplete ++ [.incomplete], ?_, Or.inr rfl, ?_⟩
    · rw [feedAll_segment hfr hp, onBytes_of_lt hlt, Reference.onDelimiter, if_pos (Or.inr hlt), List.append_assoc,
        List.cons_append]
    · simp only [List.mem_append, List.mem_replicate, List.mem_singleton]
      rintro o (⟨-, rfl⟩ | ⟨-, rfl⟩ | rfl) <;> rfl

/-- **Cut and merged frames are never completed.**  A non-empty strict prefix of an encoded frame, before its delimiter,
is a `COBS` error or does not parse; encoded frames run together, with the last delimiter alone, give exactly one error,
and that is an overflow or a parse error. -/
theorem cut_and_merged_never_complete (hc : c.Standard) (hN : 493 ≤ N) {fr : Framer N} (hfr : fr.Between) :
    (∀ f : Frame, f.header.payloadLen.toNat = f.payload.toList.length →
      ∀ bufLen out, f.encodeCobs c bufLen = some out → ∀ p q, p ≠ [] → q ≠ [] → p ++ q = out.dropLast →
        ∃ o, (o = .cobsError ∨ o = .parseError) ∧
          (fr.feedAll c (p ++ [0x00])).2 = List.replicate p.length .incomplete ++ [o]) ∧
    ∀ (frames : List Frame) (outs : List (List UInt8)), 2 ≤ frames.length →
      (∀ f ∈ frames, f.header.payloadLen.toNat = f.payload.toList.length) →
      List.Forall₂ (fun f out => ∃ bufLen, Frame.encodeCobs c f bufLen = some out) frames outs →
        ∃ pre e post, (fr.feedAll c (outs.flatMap List.dropLast ++ [0x00])).2 = pre ++ e :: post ∧
          (e = .parseError ∨ e = .overflow) ∧ ∀ o ∈ pre ++ post, o = .incomplete := by
  constructor
  · intro f hf bufLen out hout p q hp hq hpq
    obtain rfl := eq_body_of_encodeCobs hout
    rw [List.dropLast_concat] at hpq
    have h0 : 0 ∉ p := fun h => f.zero_not_mem_body hc (hpq ▸ List.mem_append_left q h)
    have hlen := congrArg List.length hpq
    have hbody := f.length_body_le hc
    rw [List.length_append] at hlen
    exact ⟨_, decodeSegment_cut hc hf hp hq hpq, feedAll_segment_of_le hfr h0 hp (by omega)⟩
  · intro frames outs htwo hf houts
    rw [flatMap_dropLast houts]
    match frames, htwo with
    | f :: g :: frames, _ =>
      have h0 : 0 ∉ (f :: g :: frames).flatMap (Frame.body c) := by
        simp only [List.mem_flatMap, not_exists, not_and]
        exact fun f _ => f.zero_not_mem_body hc
      have hne : (f :: g :: frames).flatMap (Frame.body c) ≠ [] := by
        rw [List.flatMap_cons]
        exact List.append_ne_nil_of_left_ne_nil (f.body_ne_nil hc) _
      exact feedAll_unparsed hfr h0 hne (decodeSegment_merged hc (hf f List.mem_cons_self) frames)

/-- A heartbeat cut by one byte, and run together with itself. -/
theorem cut_and_merged_heartbeats : ∃ (f : Frame) (out p q : List UInt8),
    f.encodeCobs Crates.documented 494 = some out ∧ p ≠ [] ∧ q ≠ [] ∧ p ++ q = out.dropLast ∧
    (∃ o, (o = .cobsError ∨ o = .parseError) ∧
      ((Framer.new : Framer 493).feedAll Crates.documented (p ++ [0x00])).2
        = List.replicate p.length .incomplete ++ [o]) ∧
    ∃ pre e post, ((Framer.new : Framer 493).feedAll Crates.documented
        ([out, out].flatMap List.dropLast ++ [0x00])).2 = pre ++ e :: post ∧
      (e = .parseError ∨ e = .overflow) ∧ ∀ o ∈ pre ++ post, o = .incomplete := by
  have h := cut_and_merged_never_complete Crates.documented_standard (Nat.le_refl 493) Framer.between_new
  have hout : (⟨⟨1, 1, 0, 7, 0⟩, Heapless.Vec.new, (0, 0)⟩ : Frame).encodeCobs Crates.documented 494
      = some [3, 1, 1, 2, 7, 1, 1, 1, 1, 3, 116, 97, 0] := by decide +kernel
  refine ⟨_, _, [3, 1, 1, 2, 7, 1, 1, 1, 1, 3, 116], [97], hout, by simp, by simp, rfl, ?_, ?_⟩
  · exact h.1 _ rfl _ _ hout _ [97] (by simp) (by simp) rfl
  · exact h.2 [_, _] _ (Nat.le_refl 2) (by simp) (.cons ⟨494, hout⟩ (.cons ⟨494, hout⟩ .nil))

end Telemetry
