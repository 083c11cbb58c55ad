import TelemetryLogger.Pipeline
import TelemetryLogger.Reference
/-!
# Verdict — what one byte of the stream does to the pipeline

The verdict on a byte depends on the stream before it alone: on its open segment and on the last segment that reached
the sequence check.  The pipeline's front (framer and validator) tracks exactly these (`Tracks`), and the queue and the
counters react to the verdict (`Reacts`), whatever drains come between (`ingestByte_tracks`).
-/
namespace Telemetry

/-! ## The counters of a frame -/

inductive Counter
  | ok | dropped | crcFail | seqGap | filtered
  deriving DecidableEq

def Stats.counter (s : Stats) : Counter → UInt64
  | .ok => s.ok
  | .dropped => s.dropped
  | .crcFail => s.crcFail
  | .seqGap => s.seqGap
  | .filtered => s.filtered

def Stats.bump (k : Counter) (s : Stats) : Stats :=
  match k with
  | .ok => { s with ok := s.ok + 1 }
  | .dropped => { s with dropped := s.dropped + 1 }
  | .crcFail => { s with crcFail := s.crcFail + 1 }
  | .seqGap => { s with seqGap := s.seqGap + 1 }
  | .filtered => { s with filtered := s.filtered + 1 }

theorem Stats.counter_bump (k k' : Counter) (s : Stats) :
    (s.bump k).counter k' = s.counter k' + if some k = some k' then 1 else 0 := by
  cases k <;> cases k' <;> simp [bump, counter]

@[simp] theorem Stats.writeFail_bump (k : Counter) (s : Stats) : (s.bump k).writeFail = s.writeFail := by
  cases k <;> rfl

/-! ## Verdicts -/

inductive Verdict
  | quiet
  | crcFail
  | seqGap
  | filtered
  | offer (record : StoredRecord)
  deriving DecidableEq

/-- The counter a verdict adds to, when the queue is full or not. -/
def Verdict.counter (full : Bool) : Verdict → Option Counter
  | .quiet => none
  | .crcFail => some .crcFail
  | .seqGap => some .seqGap
  | .filtered => some .filtered
  | .offer _ => some (if full then .dropped else .ok)

def Verdict.admitted (full : Bool) : Verdict → List StoredRecord
  | .offer record => if full then [] else [record]
  | _ => []

/-- The verdict on a complete frame after the sequence number `last`. -/
def judgeFrame (c : Crates) (filter : FilterConfig) (last : Option UInt32) (f : Frame) (now : UInt64) : Verdict :=
  if computedCrc c f ≠ ofLeBytes f.crcBytes then .crcFail
  else if (PacketType.tryFrom f.header.packetType).isNone || (Severity.tryFrom f.header.severity).isNone then .filtered
  else if last.any (fun l => f.header.sequence != l + 1) then .seqGap
  else if filter.allow f then .offer (recordOf f now)
  else .filtered

/-- The sequence check of `judgeFrame` finds no gap. -/
theorem gap_eq_false_iff (last : Option UInt32) (seq : UInt32) :
    last.any (fun l => seq != l + 1) = false ↔ ∀ l ∈ last, seq = l + 1 := by
  simp [Option.any_eq_false]

theorem gap_eq_true_iff (last : Option UInt32) (seq : UInt32) :
    last.any (fun l => seq != l + 1) = true ↔ ¬ ∀ l ∈ last, seq = l + 1 := by
  rw [← gap_eq_false_iff, Bool.not_eq_false]

/-- **The verdict on a segment of 1 to `N` bytes**, by its first failing stage; `last` is the sequence number of the
last segment that reached the sequence check, and `now` the clock when the segment is complete. -/
def judge (c : Crates) (filter : FilterConfig) (last : Option UInt32) (p : List UInt8) (now : UInt64) : Verdict :=
  match c.cobsDecode p with
  | none => .crcFail
  | some d => if h : WellSized d then judgeFrame c filter last (frameOf d h) now else .crcFail

/-- The frame of a segment that reaches the sequence check. -/
def reached (c : Crates) (N : Nat) (p : List UInt8) : Option Frame :=
  if p = [] ∨ N < p.length then none
  else
    match c.cobsDecode p with
    | none => none
    | some d => if h : WellSized d then (if Counted c (frameOf d h) then some (frameOf d h) else none) else none

/-- The sequence number of the last segment of `w` that reached the sequence check. -/
def lastReached (c : Crates) (N : Nat) (w : List UInt8) : Option UInt32 :=
  (((Split.closed 0 w).filterMap (reached c N)).getLast?).map (·.header.sequence)

/-- **The verdict on the byte `b` after the stream `w`**: a segment is judged at its delimiter, or at its byte `N + 1`.
-/
def verdictAt (c : Crates) (N : Nat) (filter : FilterConfig) (w : List UInt8) (b : TimedByte) : Verdict :=
  let p := Split.opened 0 w
  if b.byte ≠ 0 then (if p.length = N then .crcFail else .quiet)
  else if p = [] ∨ N < p.length then .quiet
  else judge c filter (lastReached c N w) p b.now

/-! ## How the queue and the counters react -/

/-- **The pipeline's reaction to a verdict.** -/
structure Reacts {N Q : Nat} (p p' : Pipeline N Q) (v : Verdict) : Prop where
  queued : p'.queued = p.queued ++ v.admitted p.ringbuf.queue.isFull
  counter : ∀ k, p'.stats.counter k
    = p.stats.counter k + if v.counter p.ringbuf.queue.isFull = some k then 1 else 0
  writeFail : p'.stats.writeFail = p.stats.writeFail

variable {N Q : Nat}

theorem RingBuf.push_of_full (rb : RingBuf Q) (r : StoredRecord) (h : rb.queue.isFull = true) :
    rb.push r = ({ rb with overflowCount := rb.overflowCount + 1 }, .error ()) := if_pos h

theorem RingBuf.push_of_not_full (rb : RingBuf Q) (r : StoredRecord) (h : rb.queue.isFull = false) :
    ∃ rb', rb.push r = (rb', .ok ()) ∧ rb'.queue.toList = rb.queue.toList ++ [r] := by
  unfold push
  rw [h, Heapless.Deque.pushBack_of_not_full rb.queue r h]
  exact ⟨_, rfl, rfl⟩

theorem reacts_quiet {p p' : Pipeline N Q} (hr : p'.ringbuf = p.ringbuf) (hs : p'.stats = p.stats) :
    Reacts p p' .quiet := by
  refine ⟨?_, ?_, congrArg Stats.writeFail hs⟩
  · rw [Pipeline.queued, hr]
    exact (List.append_nil _).symm
  · intro k
    rw [hs]
    exact (UInt64.add_zero _).symm

theorem reacts_bump {p p' : Pipeline N Q} {v : Verdict} {k : Counter} (hk : ∀ full, v.counter full = some k)
    (hv : ∀ full, v.admitted full = []) (hr : p'.ringbuf = p.ringbuf) (hs : p'.stats = p.stats.bump k) :
    Reacts p p' v := by
  refine ⟨?_, ?_, ?_⟩
  · rw [hv, Pipeline.queued, hr]
    exact (List.append_nil _).symm
  · intro k'
    rw [hs, hk, Stats.counter_bump]
  · rw [hs, Stats.writeFail_bump]

theorem reacts_enqueue (p : Pipeline N Q) (f : Frame) (now : UInt64) :
    Reacts p (p.enqueue f now) (.offer (recordOf f now)) := by
  unfold Pipeline.enqueue
  cases hfull : p.ringbuf.queue.isFull with
  | true =>
    rw [RingBuf.push_of_full _ _ hfull]
    refine ⟨?_, ?_, rfl⟩
    · rw [hfull]
      exact (List.append_nil _).symm
    · intro k
      rw [hfull]
      exact Stats.counter_bump .dropped k p.stats
  | false =>
    obtain ⟨rb, hpush, hqueue⟩ := RingBuf.push_of_not_full p.ringbuf (recordOf f now) hfull
    rw [hpush]
    refine ⟨?_, ?_, ?_⟩
    · rw [hfull]
      exact hqueue
    · intro k
      rw [hfull]
      refine Eq.trans ?_ (Stats.counter_bump .ok k p.stats)
      simp only
      split <;> cases k <;> rfl
    · simp only
      split <;> rfl

theorem front_enqueue (p : Pipeline N Q) (f : Frame) (now : UInt64) :
    (p.enqueue f now).framer = p.framer ∧ (p.enqueue f now).validator = p.validator ∧
      (p.enqueue f now).filter = p.filter := by
  unfold Pipeline.enqueue
  split <;> exact ⟨rfl, rfl, rfl⟩

/-! ## A complete frame -/

def Reason.counter : Reason → Counter
  | .crc _ _ => .crcFail
  | .badLength => .crcFail
  | .sequenceGap _ _ => .seqGap
  | .filtered => .filtered

theorem onComplete_of_rejected {c : Crates} {p : Pipeline N Q} {f : Frame} {now : UInt64} {v : Validator}
    {reason : Reason} (h : p.validator.check c f = (v, .rejected reason)) :
    p.onComplete c f now = { p with validator := v, stats := p.stats.bump reason.counter } := by
  unfold Pipeline.onComplete
  rw [h]
  cases reason <;> rfl

theorem onComplete_of_accepted {c : Crates} {p : Pipeline N Q} {f : Frame} {now : UInt64} {v : Validator}
    (h : p.validator.check c f = (v, .accepted f)) :
    p.onComplete c f now = if p.filter.allow f then ({ p with validator := v } : Pipeline N Q).enqueue f now
      else { p with validator := v, stats := p.stats.bump .filtered } := by
  unfold Pipeline.onComplete
  rw [h]
  rfl

/-- What a complete frame does to the pipeline: the reaction, and the front afterwards. -/
structure Completes (c : Crates) (p p' : Pipeline N Q) (f : Frame) (v : Verdict) : Prop where
  reacts : Reacts p p' v
  framer : p'.framer = p.framer
  filter : p'.filter = p.filter
  validator : p'.validator = if Counted c f then ⟨some f.header.sequence⟩ else p.validator

theorem completes_of_fault {c : Crates} {p : Pipeline N Q} {f : Frame} {now : UInt64} {reason : Reason} {v : Verdict}
    (h : firstFault c f = some reason) (hk : ∀ full, v.counter full = some reason.counter)
    (hv : ∀ full, v.admitted full = []) : Completes c p (p.onComplete c f now) f v := by
  have hnot : ¬ Counted c f := by
    rw [counted_iff, h]
    exact Option.some_ne_none _
  rw [onComplete_of_rejected (check_of_fault p.validator h)]
  exact ⟨reacts_bump hk hv rfl rfl, rfl, rfl, (if_neg hnot).symm⟩

theorem completes_of_gap {c : Crates} {p : Pipeline N Q} {f : Frame} {now : UInt64} (h : Counted c f) {l : UInt32}
    (hlast : p.validator.lastSeq = some l) (hseq : f.header.sequence ≠ l + 1) :
    Completes c p (p.onComplete c f now) f .seqGap := by
  have hcheck := check_of_counted p.validator h
  rw [hlast, sequenceOutcome, if_neg hseq] at hcheck
  rw [onComplete_of_rejected hcheck]
  exact ⟨reacts_bump (fun _ => rfl) (fun _ => rfl) rfl rfl, rfl, rfl, (if_pos h).symm⟩

theorem completes_of_accepted {c : Crates} {p : Pipeline N Q} {f : Frame} {now : UInt64} (h : Counted c f)
    (hseq : sequenceOutcome p.validator.lastSeq f = .accepted f) :
    Completes c p (p.onComplete c f now) f (if p.filter.allow f then .offer (recordOf f now) else .filtered) := by
  have hcheck := check_of_counted p.validator h
  rw [hseq] at hcheck
  rw [onComplete_of_accepted hcheck]
  split
  · obtain ⟨hfr, hval, hfil⟩ := front_enqueue { p with validator := ⟨some f.header.sequence⟩ } f now
    obtain ⟨hq, hk, hw⟩ := reacts_enqueue { p with validator := ⟨some f.header.sequence⟩ } f now
    exact ⟨⟨hq, hk, hw⟩, hfr, hfil, hval.trans (if_pos h).symm⟩
  · exact ⟨reacts_bump (fun _ => rfl) (fun _ => rfl) rfl rfl, rfl, rfl, (if_pos h).symm⟩

/-- **A complete frame gets its verdict.**  Its length field is right, as the framer's are, so `BadLength` does not
occur. -/
theorem onComplete_completes (c : Crates) (p : Pipeline N Q) (f : Frame) (now : UInt64)
    (hlen : f.header.payloadLen.toNat = f.payload.len) :
    Completes c p (p.onComplete c f now) f (judgeFrame c p.filter p.validator.lastSeq f now) := by
  unfold judgeFrame
  by_cases hcrc : computedCrc c f ≠ ofLeBytes f.crcBytes
  · rw [if_pos hcrc]
    have hfault : firstFault c f = some (.crc (computedCrc c f) (ofLeBytes f.crcBytes)) := by
      rw [firstFault, if_pos hcrc]
    exact completes_of_fault hfault (fun _ => rfl) (fun _ => rfl)
  rw [if_neg hcrc]
  by_cases hknown :
      ((PacketType.tryFrom f.header.packetType).isNone || (Severity.tryFrom f.header.severity).isNone) = true
  · rw [if_pos hknown]
    have hfault : firstFault c f = some .filtered := by
      rw [firstFault, if_neg hcrc]
      by_cases htype : (PacketType.tryFrom f.header.packetType).isNone = true
      · rw [if_pos htype]
      · rw [if_neg htype, if_pos ((Bool.or_eq_true_iff.1 hknown).resolve_left htype)]
    exact completes_of_fault hfault (fun _ => rfl) (fun _ => rfl)
  rw [if_neg hknown]
  rw [Bool.or_eq_true_iff, not_or] at hknown
  have hcounted : Counted c f := by
    rw [counted_iff, firstFault, if_neg hcrc, if_neg hknown.1, if_neg hknown.2, if_neg (not_not.2 hlen)]
  cases hlast : p.validator.lastSeq with
  | none => exact completes_of_accepted hcounted (by rw [hlast]; rfl)
  | some l =>
    by_cases hseq : f.header.sequence = l + 1
    · have hany : (some l).any (fun l => f.header.sequence != l + 1) = false := by
        rw [Option.any_some, hseq, bne_self_eq_false]
      rw [hany, if_neg Bool.false_ne_true]
      exact completes_of_accepted hcounted (by rw [hlast, sequenceOutcome, if_pos hseq])
    · have hany : (some l).any (fun l => f.header.sequence != l + 1) = true := by
        rw [Option.any_some, bne_iff_ne]
        exact hseq
      rw [hany, if_pos rfl]
      exact completes_of_gap hcounted hlast hseq

theorem judgeFrame_of_counted {c : Crates} {f : Frame} (h : Counted c f) (filter : FilterConfig) (last : Option UInt32)
    (now : UInt64) : judgeFrame c filter last f now = if last.any (fun l => f.header.sequence != l + 1) then .seqGap
      else if filter.allow f then .offer (recordOf f now) else .filtered := by
  have hknown :
      ((PacketType.tryFrom f.header.packetType).isNone || (Severity.tryFrom f.header.severity).isNone) = false := by
    rw [← Option.not_isSome, ← Option.not_isSome, h.packetType, h.severity]
    rfl
  rw [judgeFrame, if_neg (not_not.2 h.crc), hknown, if_neg Bool.false_ne_true]

/-! ## The front tracks the stream -/

/-- **The front after the stream `w`**: the framer holds the open segment, and the validator the sequence number of the
last segment that reached it. -/
structure Tracks (c : Crates) (filter : FilterConfig) (w : List UInt8) (p : Pipeline N Q) : Prop where
  framer : ∃ r, p.framer = Reference.stateAt N (Split.opened 0 w) r
  validator : p.validator.lastSeq = lastReached c N w
  filter : p.filter = filter

theorem tracks_new (c : Crates) (filter : FilterConfig) : Tracks c filter [] (Pipeline.new filter : Pipeline N Q) := by
  refine ⟨⟨0, ?_⟩, ?_, rfl⟩
  · rw [Split.opened_nil]
    rfl
  · rw [lastReached, Split.closed_nil]
    rfl

theorem lastReached_snoc (c : Crates) (N : Nat) (w : List UInt8) {b : UInt8} (hb : b ≠ 0) :
    lastReached c N (w ++ [b]) = lastReached c N w := by
  rw [lastReached, Split.closed_snoc 0 w hb, ← lastReached]

theorem lastReached_snoc_zero (c : Crates) (N : Nat) (w : List UInt8) :
    lastReached c N (w ++ [0])
      = ((reached c N (Split.opened 0 w)).map (·.header.sequence)).or (lastReached c N w) := by
  rw [lastReached, Split.closed_snoc_sep, List.filterMap_append, lastReached]
  cases h : reached c N (Split.opened 0 w) with
  | none =>
    rw [List.filterMap_cons_none h, List.filterMap_nil, List.append_nil]
    rfl
  | some f =>
    rw [List.filterMap_cons_some h, List.filterMap_nil, List.getLast?_concat]
    rfl

theorem ingestByte_incomplete {c : Crates} {p : Pipeline N Q} {b : TimedByte} {framer : Framer N}
    (h : p.framer.feed c b.byte = (framer, .incomplete)) : p.ingestByte c b = { p with framer := framer } := by
  unfold Pipeline.ingestByte
  rw [h]

theorem ingestByte_bad {c : Crates} {p : Pipeline N Q} {b : TimedByte} {framer : Framer N} {o : FrameOutput}
    (h : p.framer.feed c b.byte = (framer, o)) (ho : o = .overflow ∨ o = .cobsError ∨ o = .parseError) :
    p.ingestByte c b = { p with framer := framer, stats := p.stats.bump .crcFail } := by
  unfold Pipeline.ingestByte
  rw [h]
  rcases ho with rfl | rfl | rfl <;> rfl

theorem ingestByte_complete {c : Crates} {p : Pipeline N Q} {b : TimedByte} {framer : Framer N} {f : Frame}
    (h : p.framer.feed c b.byte = (framer, .complete f)) :
    p.ingestByte c b = ({ p with framer := framer } : Pipeline N Q).onComplete c f b.now := by
  unfold Pipeline.ingestByte
  rw [h]

theorem Tracks.of_front {c : Crates} {filter : FilterConfig} {w w' : List UInt8} {p p' : Pipeline N Q}
    (h : Tracks c filter w p) {r : UInt32} (hfr : p'.framer = Reference.stateAt N (Split.opened 0 w') r)
    (hlast : lastReached c N w' = lastReached c N w) (hv : p'.validator = p.validator) (hf : p'.filter = p.filter) :
    Tracks c filter w' p' :=
  ⟨⟨r, hfr⟩, by rw [hv, h.validator, hlast], by rw [hf, h.filter]⟩

/-- What the framer does with the next byte, once it tracks the stream. -/
theorem Tracks.feed {c : Crates} {filter : FilterConfig} {w : List UInt8} {p : Pipeline N Q} (h : Tracks c filter w p)
    (byte : UInt8) : ∃ r, p.framer.feed c byte
      = (Reference.stateAt N (Split.opened 0 (w ++ [byte])) (Reference.nextResync r
          (Reference.answer c N (Split.opened 0 w) byte)), Reference.answer c N (Split.opened 0 w) byte) := by
  obtain ⟨r, hfr⟩ := h.framer
  have hfeed := Reference.feed_stateAt c N (Split.opened 0 w) r byte
  rw [← hfr, ← Reference.opened_snoc] at hfeed
  exact ⟨r, hfeed⟩

/-- A byte of the open segment. -/
theorem ingestByte_of_ne {c : Crates} {filter : FilterConfig} {w : List UInt8} {p : Pipeline N Q}
    (h : Tracks c filter w p) {b : TimedByte} (hb : b.byte ≠ 0) :
    Tracks c filter (w ++ [b.byte]) (p.ingestByte c b) ∧ Reacts p (p.ingestByte c b) (verdictAt c N filter w b) := by
  obtain ⟨r, hfeed⟩ := h.feed b.byte
  have hlast := lastReached_snoc c N w hb
  unfold Reference.answer at hfeed
  unfold verdictAt
  rw [if_neg hb] at hfeed
  simp only [if_pos hb]
  by_cases hlen : (Split.opened 0 w).length = N
  · rw [if_pos hlen] at hfeed ⊢
    rw [ingestByte_bad hfeed (Or.inl rfl)]
    exact ⟨h.of_front rfl hlast rfl rfl, reacts_bump (fun _ => rfl) (fun _ => rfl) rfl rfl⟩
  · rw [if_neg hlen] at hfeed ⊢
    rw [ingestByte_incomplete hfeed]
    exact ⟨h.of_front rfl hlast rfl rfl, reacts_quiet rfl rfl⟩

/-- **The delimiter of a segment of 1 to `N` bytes**: the segment is judged. -/
theorem ingestByte_of_segment {c : Crates} {filter : FilterConfig} {w : List UInt8} {p : Pipeline N Q}
    (h : Tracks c filter w p) (now : UInt64) (hseg : ¬ (Split.opened 0 w = [] ∨ N < (Split.opened 0 w).length)) :
    Tracks c filter (w ++ [0]) (p.ingestByte c ⟨0, now⟩) ∧
      Reacts p (p.ingestByte c ⟨0, now⟩) (judge c filter (lastReached c N w) (Split.opened 0 w) now) := by
  obtain ⟨r, hfeed⟩ := h.feed 0
  have hlast := lastReached_snoc_zero c N w
  unfold Reference.answer Reference.onDelimiter Reference.decodeSegment at hfeed
  unfold reached at hlast
  unfold judge
  rw [if_pos rfl, if_neg hseg] at hfeed
  rw [if_neg hseg] at hlast
  cases hd : c.cobsDecode (Split.opened 0 w) with
  | none =>
    rw [hd] at hfeed hlast
    rw [ingestByte_bad hfeed (Or.inr (Or.inl rfl))]
    exact ⟨h.of_front rfl hlast rfl rfl, reacts_bump (fun _ => rfl) (fun _ => rfl) rfl rfl⟩
  | some d =>
    rw [hd] at hfeed hlast
    simp only at hfeed hlast ⊢
    by_cases hsz : WellSized d
    · rw [dif_pos hsz] at hfeed hlast ⊢
      rw [ingestByte_complete hfeed]
      have hdone := onComplete_completes c
        ({ p with framer :=
            Reference.stateAt N (Split.opened 0 (w ++ [0])) (Reference.nextResync r (.complete (frameOf d hsz))) }
          : Pipeline N Q) (frameOf d hsz) now (payloadLen_frameOf d hsz)
      refine ⟨⟨⟨_, hdone.framer⟩, ?_, hdone.filter.trans h.filter⟩, ?_⟩
      · rw [hdone.validator, hlast]
        split
        · rfl
        · exact h.validator
      · rw [← h.filter, ← h.validator]
        exact ⟨hdone.reacts.queued, hdone.reacts.counter, hdone.reacts.writeFail⟩
    · rw [dif_neg hsz] at hfeed hlast ⊢
      rw [ingestByte_bad hfeed (Or.inr (Or.inr rfl))]
      exact ⟨h.of_front rfl hlast rfl rfl, reacts_bump (fun _ => rfl) (fun _ => rfl) rfl rfl⟩

/-- **One byte**: the front goes on tracking the stream, and the queue and the counters react to the verdict. -/
theorem ingestByte_tracks {c : Crates} {filter : FilterConfig} {w : List UInt8} {p : Pipeline N Q}
    (h : Tracks c filter w p) (b : TimedByte) :
    Tracks c filter (w ++ [b.byte]) (p.ingestByte c b) ∧ Reacts p (p.ingestByte c b) (verdictAt c N filter w b) := by
  obtain ⟨byte, now⟩ := b
  by_cases hb : byte = 0
  case neg => exact ingestByte_of_ne h hb
  subst hb
  unfold verdictAt
  simp only [ne_eq, not_true_eq_false, if_false]
  by_cases hseg : Split.opened 0 w = [] ∨ N < (Split.opened 0 w).length
  · -- nothing is left of the segment: it is empty, or it overflowed before
    obtain ⟨r, hfeed⟩ := h.feed 0
    have hlast := lastReached_snoc_zero c N w
    unfold Reference.answer Reference.onDelimiter at hfeed
    unfold reached at hlast
    rw [if_pos rfl, if_pos hseg] at hfeed
    rw [if_pos hseg] at hlast ⊢
    rw [ingestByte_incomplete hfeed]
    exact ⟨h.of_front rfl hlast rfl rfl, reacts_quiet rfl rfl⟩
  · rw [if_neg hseg]
    exact ingestByte_of_segment h now hseg

end Telemetry
