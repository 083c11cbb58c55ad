import TelemetryLogger.Containment
import TelemetryLogger.Lib.Adjacent
/-!
# Evolution — frames of other protocols

A receiver meets frames with a version, a type or a severity it does not know.  The pipeline queues a frame exactly when
it `Passes`, and the version is not among what is looked at (`versions_rejected_iff`).  A frame of an unknown type or
severity is filtered without a trace in the sequence check, so the next known frame shows a hole
(`known_frames_kept_iff`).
-/
namespace Telemetry

open Record (image)

variable {N Q : Nat} {σ ε : Type}

/-! ## Which frames are queued -/

/-- **What a frame needs to be offered.** -/
theorem judgeFrame_eq_offer_iff {c : Crates} {filter : FilterConfig} {last : Option UInt32} {f : Frame} {now : UInt64}
    {r : StoredRecord} : judgeFrame c filter last f now = .offer r ↔
      computedCrc c f = ofLeBytes f.crcBytes ∧ f.Known ∧ (∀ l ∈ last, f.header.sequence = l + 1) ∧
        filter.allow f = true ∧ r = recordOf f now := by
  unfold judgeFrame
  by_cases hcrc : computedCrc c f = ofLeBytes f.crcBytes
  case neg => simp [hcrc]
  rw [if_neg (not_not.2 hcrc)]
  by_cases hknown : f.Known
  case neg =>
    rw [if_pos ((unknown_iff f).2 hknown)]
    simp [hknown]
  rw [if_neg (mt (unknown_iff f).1 (not_not.2 hknown))]
  by_cases hseq : ∀ l ∈ last, f.header.sequence = l + 1
  case neg =>
    rw [(gap_eq_true_iff _ _).2 hseq, if_pos rfl]
    exact iff_of_false (fun h => by cases h) (fun h => hseq h.2.2.1)
  rw [(gap_eq_false_iff _ _).2 hseq, if_neg Bool.false_ne_true]
  cases hallow : filter.allow f with
  | false => simp
  | true =>
    rw [if_pos rfl, Verdict.offer.injEq]
    exact ⟨fun h => ⟨hcrc, hknown, hseq, rfl, h.symm⟩, fun h => h.2.2.2.2.symm⟩

theorem answer_eq_complete_iff {c : Crates} {p : List UInt8} {byte : UInt8} {f : Frame} :
    Reference.answer c N p byte = .complete f ↔ byte = 0 ∧ p ≠ [] ∧ p.length ≤ N ∧
      ∃ d, ∃ h : WellSized d, c.cobsDecode p = some d ∧ frameOf d h = f := by
  unfold Reference.answer Reference.onDelimiter Reference.decodeSegment
  by_cases hb : byte = 0
  case neg =>
    rw [if_neg hb]
    split <;> simp [hb]
  rw [if_pos hb]
  by_cases hseg : p = [] ∨ N < p.length
  · rw [if_pos hseg]
    rcases hseg with hnil | hlong
    · simp [hnil]
    · simp [Nat.not_le.2 hlong]
  rw [if_neg hseg]
  rw [not_or, Nat.not_lt] at hseg
  cases c.cobsDecode p with
  | none => simp
  | some d =>
    by_cases hsz : WellSized d
    · simp [hsz, hb, hseg]
    · simp [hsz]

/-- The pipeline queues the frame `f` at the byte `b`. -/
def Queues (c : Crates) (p : Pipeline N Q) (b : TimedByte) (f : Frame) : Prop :=
  (p.framer.feed c b.byte).2 = .complete f ∧ (p.ingest c [b]).queued = p.queued ++ [recordOf f b.now]

instance (c : Crates) (p : Pipeline N Q) (b : TimedByte) (f : Frame) : Decidable (Queues c p b f) :=
  inferInstanceAs (Decidable (_ ∧ _))

/-- **What a frame passes before it is queued** at the byte `b`, after the stream `w`. -/
structure Passes (c : Crates) (N : Nat) (filter : FilterConfig) (w : List UInt8) (full : Bool) (b : TimedByte)
    (f : Frame) : Prop where
  delimiter : b.byte = 0
  intact : Intact c N (Split.opened 0 w) f
  known : f.Known
  sequence : ∀ l ∈ lastReached c N w, f.header.sequence = l + 1
  allowed : filter.allow f = true
  room : full = false

theorem verdictAt_of_complete {c : Crates} {filter : FilterConfig} {w : List UInt8} {b : TimedByte} {f : Frame}
    (h : Reference.answer c N (Split.opened 0 w) b.byte = .complete f) :
    verdictAt c N filter w b = judgeFrame c filter (lastReached c N w) f b.now := by
  obtain ⟨hb, hnil, hlen, d, hsz, hdec, rfl⟩ := answer_eq_complete_iff.1 h
  unfold verdictAt judge
  rw [if_neg (not_not.2 hb), if_neg (not_or.2 ⟨hnil, Nat.not_lt.2 hlen⟩), hdec]
  simp only
  rw [dif_pos hsz]

/-- **A frame is queued exactly when it passes.** -/
theorem queues_iff {c : Crates} {filter : FilterConfig} {w : List UInt8} {p : Pipeline N Q} (h : Tracks c filter w p)
    (b : TimedByte) (f : Frame) : Queues c p b f ↔ Passes c N filter w p.ringbuf.queue.isFull b f := by
  obtain ⟨r, hfeed⟩ := h.feed b.byte
  have hqueued : (p.ingest c [b]).queued = p.queued ++ (verdictAt c N filter w b).admitted p.ringbuf.queue.isFull :=
    (ingestByte_tracks h b).2.queued
  unfold Queues
  rw [hfeed, hqueued, List.append_right_inj]
  constructor
  · rintro ⟨hcomplete, hadm⟩
    obtain ⟨hb, hnil, hlen, hdec⟩ := answer_eq_complete_iff.1 hcomplete
    rw [verdictAt_of_complete hcomplete] at hadm
    cases hv : judgeFrame c filter (lastReached c N w) f b.now with
    | offer r =>
      obtain ⟨hcrc, hknown, hseq, hallow, -⟩ := judgeFrame_eq_offer_iff.1 hv
      refine ⟨hb, ⟨hnil, hlen, hdec, hcrc⟩, hknown, hseq, hallow, ?_⟩
      rw [hv] at hadm
      cases hfull : p.ringbuf.queue.isFull with
      | false => rfl
      | true =>
        rw [hfull] at hadm
        cases hadm
    | _ =>
      rw [hv] at hadm
      cases hadm
  · rintro ⟨hb, hintact, hknown, hseq, hallow, hroom⟩
    have hcomplete : Reference.answer c N (Split.opened 0 w) b.byte = .complete f :=
      answer_eq_complete_iff.2 ⟨hb, hintact.nonempty, hintact.length, hintact.decodes⟩
    have hoffer : judgeFrame c filter (lastReached c N w) f b.now = .offer (recordOf f b.now) :=
      judgeFrame_eq_offer_iff.2 ⟨hintact.crc, hknown, hseq, hallow, rfl⟩
    refine ⟨hcomplete, ?_⟩
    rw [verdictAt_of_complete hcomplete, hoffer, hroom]
    rfl

/-! ## Unknown versions -/

/-- The byte `b` comes right after the calls `pre` in the run `calls`. -/
def ByteAfter (calls pre : List Call) (b : TimedByte) : Prop :=
  ∃ first bytes more rest, pre = first ++ [.ingest bytes] ∧ calls = first ++ .ingest (bytes ++ b :: more) :: rest

/-- **Which versions are queued.**  In a run of a new pipeline, with any filter and on any storage, every frame queued
carries the protocol's version exactly when every frame that passes the pipeline's checks does: the version is none of
them. -/
theorem versions_rejected_iff (c : Crates) (S : Storage σ ε) (filter : FilterConfig) (s : σ) (calls : List Call) :
    let x := after c S ((Pipeline.new filter : Pipeline N Q), s)
    (∀ pre b f, ByteAfter calls pre b → Queues c (x pre).1 b f → f.header.version = protocolVersion) ↔
      ∀ pre b f, ByteAfter calls pre b →
        Passes c N filter (untimed (stream pre)) (x pre).1.ringbuf.queue.isFull b f →
        f.header.version = protocolVersion := by
  intro x
  have htracks : ∀ pre, Tracks c filter (untimed (stream pre)) (x pre).1 := fun pre =>
    (after_tracks S pre (x := ((Pipeline.new filter : Pipeline N Q), s)) (tracks_new c filter)).1
  constructor
  · intro h pre b f hbyte hpass
    exact h pre b f hbyte ((queues_iff (htracks pre) b f).2 hpass)
  · intro h pre b f hbyte hqueues
    exact h pre b f hbyte ((queues_iff (htracks pre) b f).1 hqueues)

/-- A frame of version 2, otherwise good, is queued. -/
theorem version_two_queued :
    let pre : List Call := [.ingest ([3, 2, 1, 2, 1, 1, 1, 1, 1, 3, 137, 175].map (⟨·, 5⟩))]
    let f : Frame := ⟨⟨2, 1, 0, 1, 0⟩, Heapless.Vec.new, (137, 175)⟩
    ByteAfter [.ingest ([3, 2, 1, 2, 1, 1, 1, 1, 1, 3, 137, 175, 0].map (⟨·, 5⟩))] pre ⟨0, 5⟩ ∧
    Queues Crates.documented
      (after Crates.documented capturingStorage ((Pipeline.new .allowAll : Pipeline 512 4), ([], 0)) pre).1 ⟨0, 5⟩ f ∧
    f.header.version ≠ protocolVersion :=
  ⟨⟨[], _, [], [], rfl, rfl⟩, by decide +kernel, by decide⟩

/-! ## Unknown types and severities -/

/-- A frame as it arrives: its segment, and the time of the delimiter. -/
structure Arrival where
  segment : List UInt8
  frame : Frame
  now : UInt64
  deriving DecidableEq

def Arrival.record (a : Arrival) : StoredRecord := recordOf a.frame a.now

/-- The verdict on an arrival when no hole shows. -/
def Arrival.verdict (a : Arrival) : Verdict := if a.frame.Known then .offer a.record else .filtered

/-- The stream of the arrivals, each segment whole and with its own delimiter. -/
structure Arrives (c : Crates) (N : Nat) (arrivals : List Arrival) (bytes : List TimedByte) : Prop where
  intact : ∀ a ∈ arrivals, 0 ∉ a.segment ∧ Intact c N a.segment a.frame
  stream : untimed bytes = arrivals.flatMap (fun a => a.segment ++ [0x00])
  times : completions bytes = arrivals.map Arrival.now

/-- The arrivals a receiver knows. -/
def known (arrivals : List Arrival) : List Arrival := arrivals.filter (fun a => a.frame.Known)

theorem Arrives.segments_eq {c : Crates} {arrivals : List Arrival} {bytes : List TimedByte}
    (h : Arrives c N arrivals bytes) : segments bytes = arrivals.map (fun a => (a.segment, a.now)) := by
  have hmap : arrivals.flatMap (fun a => a.segment ++ [0x00]) = (arrivals.map Arrival.segment).flatMap (· ++ [0]) := by
    rw [List.flatMap_map]
  have hfree : ∀ p ∈ arrivals.map Arrival.segment, 0 ∉ p := by
    intro p hp
    obtain ⟨a, ha, rfl⟩ := List.mem_map.1 hp
    exact (h.intact a ha).1
  rw [segments, h.stream, h.times, hmap, Split.closed_terminated 0 _ hfree, List.zip_map']

theorem Arrives.spoken_eq {c : Crates} {arrivals : List Arrival} {bytes : List TimedByte}
    (h : Arrives c N arrivals bytes) (filter : FilterConfig) : spoken (verdicts c N filter [] bytes)
      = spoken (judgeAll c N filter none (arrivals.map (fun a => (a.segment, a.now)))).2 := by
  have hmap : arrivals.flatMap (fun a => a.segment ++ [0x00]) = (arrivals.map Arrival.segment).flatMap (· ++ [0]) := by
    rw [List.flatMap_map]
  rw [(judgeAll_segments c N filter bytes).2, h.segments_eq, h.stream, hmap, Split.opened_terminated]
  exact List.append_nil _

theorem judgeSegment_known {c : Crates} {a : Arrival} (h : Intact c N a.segment a.frame) (hk : a.frame.Known)
    (last : Option UInt32) : judgeSegment c N .allowAll last (a.segment, a.now)
      = (some a.frame.header.sequence,
        if last.any (fun l => a.frame.header.sequence != l + 1) then .seqGap else .offer a.record) := by
  rw [judgeSegment_of_intact h, if_pos hk, judgeFrame_of_counted (h.counted_iff.2 hk), FilterConfig.allow_allowAll,
    if_pos rfl]
  rfl

theorem judgeSegment_unknown {c : Crates} {a : Arrival} (h : Intact c N a.segment a.frame) (hk : ¬ a.frame.Known)
    (last : Option UInt32) : judgeSegment c N .allowAll last (a.segment, a.now) = (last, .filtered) := by
  rw [judgeSegment_of_intact h, if_neg hk, judgeFrame_of_unknown h.crc hk]

/-- The arrivals follow the last number seen, and one another. -/
def Follows (last : Option UInt32) (arrivals : List Arrival) : Prop :=
  (∀ l ∈ last, ∀ a ∈ arrivals.head?, a.frame.header.sequence = l + 1) ∧ InSequence (arrivals.map Arrival.frame)

theorem follows_cons {last : Option UInt32} {a : Arrival} {arrivals : List Arrival} :
    Follows last (a :: arrivals) ↔ (last.any (fun l => a.frame.header.sequence != l + 1)) = false ∧
      Follows (some a.frame.header.sequence) arrivals := by
  unfold Follows InSequence
  rw [List.map_cons, List.isChain_cons, gap_eq_false_iff]
  cases arrivals <;> simp

/-- **Known arrivals that follow one another are all offered**, and the others filtered. -/
theorem judgeAll_follows {c : Crates} : ∀ {arrivals : List Arrival} (last : Option UInt32),
    (∀ a ∈ arrivals, Intact c N a.segment a.frame) → Follows last (known arrivals) →
    (judgeAll c N .allowAll last (arrivals.map (fun a => (a.segment, a.now)))).2 = arrivals.map Arrival.verdict
  | [], _, _, _ => rfl
  | a :: arrivals, last, h, hf => by
    have ha := h a List.mem_cons_self
    rw [judgeAll, List.map_cons, Machine.run_cons, ← judgeAll, List.map_cons, Arrival.verdict]
    by_cases hk : a.frame.Known
    · rw [known, List.filter_cons_of_pos (by simpa using hk), follows_cons] at hf
      rw [judgeSegment_known ha hk, hf.1, if_pos hk,
        judgeAll_follows _ (fun b hb => h b (List.mem_cons_of_mem a hb)) hf.2]
      rfl
    · rw [known, List.filter_cons_of_neg (by simpa using hk)] at hf
      rw [judgeSegment_unknown ha hk, if_neg hk, judgeAll_follows _ (fun b hb => h b (List.mem_cons_of_mem a hb)) hf]

theorem length_offers_le {c : Crates} : ∀ {arrivals : List Arrival} (last : Option UInt32),
    (∀ a ∈ arrivals, Intact c N a.segment a.frame) →
    (offers (judgeAll c N .allowAll last (arrivals.map (fun a => (a.segment, a.now)))).2).length
      ≤ (known arrivals).length
  | [], _, _ => Nat.le_refl 0
  | a :: arrivals, last, h => by
    have ha := h a List.mem_cons_self
    have ih := fun last => length_offers_le last (fun b hb => h b (List.mem_cons_of_mem a hb))
    rw [judgeAll, List.map_cons, Machine.run_cons, ← judgeAll, offers, List.flatMap_cons, ← offers, List.length_append]
    by_cases hk : a.frame.Known
    · rw [known, List.filter_cons_of_pos (by simpa using hk), judgeSegment_known ha hk, List.length_cons, ← known]
      have := ih (some a.frame.header.sequence)
      split
      · exact Nat.le_trans (Nat.le_of_eq (Nat.zero_add _)) (Nat.le_succ_of_le this)
      · exact Nat.le_trans (Nat.le_of_eq (Nat.add_comm 1 _)) (Nat.succ_le_succ this)
    · rw [known, List.filter_cons_of_neg (by simpa using hk), judgeSegment_unknown ha hk]
      exact Nat.le_trans (Nat.le_of_eq (Nat.zero_add _)) (ih last)

/-- **If all known arrivals are offered, they follow one another.** -/
theorem follows_of_offers {c : Crates} : ∀ {arrivals : List Arrival} {last : Option UInt32},
    (∀ a ∈ arrivals, Intact c N a.segment a.frame) →
    offers (judgeAll c N .allowAll last (arrivals.map (fun a => (a.segment, a.now)))).2
      = (known arrivals).map Arrival.record → Follows last (known arrivals)
  | [], _, _, _ => ⟨fun _ _ _ h => (by cases h), List.isChain_nil⟩
  | a :: arrivals, last, h, hall => by
    have ha := h a List.mem_cons_self
    have hrest := fun b hb => h b (List.mem_cons_of_mem a hb)
    rw [judgeAll, List.map_cons, Machine.run_cons, ← judgeAll, offers, List.flatMap_cons, ← offers] at hall
    by_cases hk : a.frame.Known
    · have hknown : known (a :: arrivals) = a :: known arrivals := List.filter_cons_of_pos (by simpa using hk)
      rw [judgeSegment_known ha hk, hknown, List.map_cons] at hall
      rw [hknown, follows_cons]
      cases hany : last.any (fun l => a.frame.header.sequence != l + 1) with
      | false =>
        rw [hany] at hall
        exact ⟨rfl, follows_of_offers hrest (List.cons.inj hall).2⟩
      | true =>
        -- a hole: the arrival is rejected, and there are too few offers left
        rw [hany] at hall
        have hlen := congrArg List.length hall
        have hle := length_offers_le (some a.frame.header.sequence) hrest
        rw [List.length_cons, List.length_map] at hlen
        exact absurd (Nat.le_of_eq hlen.symm) (Nat.not_le.2 (Nat.lt_succ_of_le hle))
    · have hknown : known (a :: arrivals) = known arrivals := List.filter_cons_of_neg (by simpa using hk)
      rw [judgeSegment_unknown ha hk, hknown] at hall
      rw [hknown]
      exact follows_of_offers hrest hall

/-! ### What parts known frames -/

/-- **No unknown arrivals part two known ones**, unless a multiple of `2 ^ 32` of them do. -/
def Unparted (arrivals : List Arrival) : Prop :=
  ∀ pre a mid b post, arrivals = pre ++ a :: (mid ++ b :: post) → a.frame.Known → b.frame.Known →
    (∀ u ∈ mid, ¬ u.frame.Known) → 2 ^ 32 ∣ mid.length

theorem sequence_apart : ∀ (mid : List Arrival) {a b : Arrival} {post : List Arrival},
    InSequence ((a :: (mid ++ b :: post)).map Arrival.frame) →
    b.frame.header.sequence = a.frame.header.sequence + UInt32.ofNat (mid.length + 1)
  | [], _, _, _, h => (List.isChain_cons_cons.1 h).1
  | u :: mid, a, b, post, h => by
    obtain ⟨hu, hrest⟩ := List.isChain_cons_cons.1 h
    have ih := sequence_apart mid (show InSequence ((u :: (mid ++ b :: post)).map Arrival.frame) from hrest)
    rw [ih, hu, List.length_cons, UInt32.add_assoc, Nat.add_comm (mid.length + 1) 1, UInt32.ofNat_add 1]
    rfl

theorem next_iff_dvd (a : UInt32) (n : Nat) : a + UInt32.ofNat (n + 1) = a + 1 ↔ 2 ^ 32 ∣ n := by
  have hone : UInt32.ofNat (n + 1) = UInt32.ofNat n + 1 := UInt32.ofNat_add n 1
  rw [UInt32.add_right_inj, hone, UInt32.add_eq_right, ← UInt32.toNat_inj, UInt32.toNat_ofNat',
    Nat.dvd_iff_mod_eq_zero]
  rfl

theorem inSequence_known_iff {arrivals : List Arrival} (h : InSequence (arrivals.map Arrival.frame)) :
    InSequence ((known arrivals).map Arrival.frame) ↔ Unparted arrivals := by
  have hpair : ∀ {pre a mid b post}, arrivals = pre ++ a :: (mid ++ b :: post) →
      (b.frame.header.sequence = a.frame.header.sequence + 1 ↔ 2 ^ 32 ∣ mid.length) := by
    rintro pre a mid b post rfl
    rw [List.map_append] at h
    rw [sequence_apart mid (List.isChain_append.1 h).2.1, next_iff_dvd]
  unfold InSequence known Unparted
  rw [List.isChain_map, Adjacent.isChain_filter_iff]
  constructor
  · intro hchain pre a mid b post heq ha hb hmid
    exact (hpair heq).1 (hchain pre a mid b post heq (by simpa using ha) (by simpa using hb) (by simpa using hmid))
  · intro hunparted pre a mid b post heq ha hb hmid
    exact (hpair heq).2 (hunparted pre a mid b post heq (by simpa using ha) (by simpa using hb) (by simpa using hmid))

theorem spoken_verdict (arrivals : List Arrival) :
    spoken (arrivals.map Arrival.verdict) = arrivals.map Arrival.verdict := by
  unfold spoken
  rw [List.filter_eq_self]
  intro v hv
  obtain ⟨a, -, rfl⟩ := List.mem_map.1 hv
  unfold Arrival.verdict
  split <;> rfl

theorem offers_verdict : ∀ arrivals : List Arrival,
    offers (arrivals.map Arrival.verdict) = (known arrivals).map Arrival.record
  | [] => rfl
  | a :: arrivals => by
    rw [List.map_cons, offers, List.flatMap_cons, ← offers, offers_verdict arrivals, Arrival.verdict]
    by_cases hk : a.frame.Known
    · simp [hk, known, Verdict.admitted]
    · simp [hk, known, Verdict.admitted]

theorem count_verdict (k : Counter) : ∀ arrivals : List Arrival,
    ((arrivals.map Arrival.verdict).filterMap (Verdict.counter false)).count k
      = if k = .ok then (known arrivals).length
        else if k = .filtered then arrivals.countP (fun a => ¬ a.frame.Known) else 0
  | [] => by cases k <;> rfl
  | a :: arrivals => by
    have ih := count_verdict k arrivals
    rw [List.map_cons, Arrival.verdict]
    by_cases hk : a.frame.Known
    · cases k <;> simp_all [known, Verdict.counter]
    · cases k <;> simp_all [known, Verdict.counter]

/-- **Unknown types and severities cost known frames.**  In a stream of intact frames in sequence, a new pipeline that
lets everything through and drops nothing records every known frame, counts the others as filtered and sees no gap,
exactly when no unknown frames part two known ones. -/
theorem known_frames_kept_iff {c : Crates} (hc : c.Standard) (S : Storage σ ε) (s : σ) {arrivals : List Arrival}
    (hseq : InSequence (arrivals.map Arrival.frame)) {calls : List Call} (harr : Arrives c N arrivals (stream calls))
    (hdrop : NoDrop (history c S.traced .allowAll ((Pipeline.new .allowAll : Pipeline N Q), s, []) [] calls)) :
    let x := after c S.traced ((Pipeline.new .allowAll : Pipeline N Q), s, []) calls
    Recorded c x ((known arrivals).map Arrival.record) ∧
      x.1.stats.filtered = UInt64.ofNat (arrivals.countP (fun a => ¬ a.frame.Known)) ∧ x.1.stats.seqGap = 0 ↔
    Unparted arrivals := by
  intro x
  obtain ⟨hrecorded, hcounter⟩ := recorded_of_noDrop hc S .allowAll s calls hdrop
  have hintact : ∀ a ∈ arrivals, Intact c N a.segment a.frame := fun a ha => (harr.intact a ha).2
  have hoffers : offers (verdicts c N .allowAll [] (stream calls))
      = offers (judgeAll c N .allowAll none (arrivals.map (fun a => (a.segment, a.now)))).2 := by
    rw [offers_verdicts, harr.segments_eq]
  rw [← inSequence_known_iff hseq]
  constructor
  · rintro ⟨hknown, -⟩
    rw [hoffers] at hrecorded
    exact (follows_of_offers hintact (hrecorded.unique hc hknown)).2
  · intro hchain
    have hverdicts := judgeAll_follows none hintact ⟨fun l hl => (by cases hl), hchain⟩
    have hspoken : spoken (verdicts c N .allowAll [] (stream calls)) = arrivals.map Arrival.verdict := by
      rw [harr.spoken_eq, hverdicts, spoken_verdict]
    rw [hoffers, hverdicts, offers_verdict] at hrecorded
    refine ⟨hrecorded, (hcounter .filtered).trans ?_, (hcounter .seqGap).trans ?_⟩
    · rw [hspoken, count_verdict]
      rfl
    · rw [hspoken, count_verdict]
      rfl

/-- A heartbeat of the unknown type 9. -/
def stranger (sequence : UInt32) : Frame := ⟨⟨protocolVersion, 9, 0, sequence, 0⟩, Heapless.Vec.new, (0, 0)⟩

theorem known_frames_kept_run :
    let arrivals : List Arrival :=
      [⟨[3, 1, 1, 1, 1, 1, 1, 1, 1, 3, 165, 125], { heartbeat 0 with crcBytes := (165, 125) }, 5⟩,
        ⟨[3, 1, 9, 2, 1, 1, 1, 1, 1, 3, 50, 84], { stranger 1 with crcBytes := (50, 84) }, 6⟩]
    let bytes : List TimedByte := [3, 1, 1, 1, 1, 1, 1, 1, 1, 3, 165, 125, 0].map (⟨·, 5⟩)
      ++ [3, 1, 9, 2, 1, 1, 1, 1, 1, 3, 50, 84, 0].map (⟨·, 6⟩)
    let x := after Crates.documented failStorage.traced ((Pipeline.new .allowAll : Pipeline 512 4), (), [])
      [.ingest bytes]
    Recorded Crates.documented x ((known arrivals).map Arrival.record) ∧
      x.1.stats.filtered = UInt64.ofNat (arrivals.countP (fun a => ¬ a.frame.Known)) ∧ x.1.stats.seqGap = 0 := by
  intro arrivals bytes x
  have hintact : ∀ a ∈ arrivals, 0 ∉ a.segment ∧ Intact Crates.documented 512 a.segment a.frame :=
    List.forall_mem_cons.2 ⟨⟨by decide, by decide, by decide, ⟨[1, 1, 0, 0, 0, 0, 0, 0, 0, 165, 125], by decide,
        by decide +kernel, by decide⟩, by decide +kernel⟩,
      List.forall_mem_singleton.2 ⟨by decide, by decide, by decide, ⟨[1, 9, 0, 1, 0, 0, 0, 0, 0, 50, 84], by decide,
        by decide +kernel, by decide⟩, by decide +kernel⟩⟩
  have hseq : InSequence (arrivals.map Arrival.frame) := by
    simp [arrivals, InSequence, heartbeat, stranger]
  have hunparted : Unparted arrivals := by
    intro pre a mid b post h _ _ _
    have hlen := congrArg List.length h
    simp only [arrivals, List.length_append, List.length_cons, List.length_nil] at hlen
    have hnone : mid.length = 0 := by omega
    exact ⟨0, hnone.trans (Nat.mul_zero _).symm⟩
  have harr : Arrives Crates.documented 512 arrivals (stream [.ingest bytes]) := ⟨hintact, by decide, by decide⟩
  have hdrop := noDrop_ingest (N := 512) (Q := 4) Crates.documented failStorage.traced .allowAll ((), [])
    (show delimiters bytes ≤ 4 by decide)
  clear_value bytes
  exact (known_frames_kept_iff Crates.documented_standard failStorage () hseq harr hdrop).2 hunparted

/-- The frame behind a stranger is rejected as a gap, though nothing was lost before it. -/
theorem known_frame_rejected :
    let frames := [heartbeat 0, stranger 1, heartbeat 2]
    let bytes : List TimedByte := [3, 1, 1, 1, 1, 1, 1, 1, 1, 3, 165, 125, 0].map (⟨·, 5⟩)
      ++ [3, 1, 9, 2, 1, 1, 1, 1, 1, 3, 50, 84, 0].map (⟨·, 6⟩)
      ++ [3, 1, 1, 2, 2, 1, 1, 1, 1, 3, 243, 117, 0].map (⟨·, 7⟩)
    let p := (Pipeline.new .allowAll : Pipeline 512 4).ingest Crates.documented bytes
    untimed bytes = frames.flatMap (Frame.wire Crates.documented) ∧ InSequence frames ∧ (heartbeat 2).Known ∧
      p.queued = [recordOf (heartbeat 0) 5] ∧ p.stats.filtered = 1 ∧ p.stats.seqGap = 1 ∧ p.stats.dropped = 0 := by
  intro frames bytes p
  have hseq : InSequence frames := by
    simp [frames, InSequence, heartbeat, stranger]
  exact ⟨by decide +kernel, hseq, by decide, by decide +kernel⟩

end Telemetry
