import TelemetryLogger.Framer
import TelemetryLogger.Lib.Split
import Mathlib.Data.List.Induction
/-!
# Reference — the batch splitter the framer refines

The reference cuts a whole stream at its delimiters and decodes each segment by itself.  The framer, fed byte by byte,
is at any point in the state the open segment determines (`stateAt`), and answers what the reference does
(`feedAll_new`).
-/
namespace Telemetry
namespace Reference

/-- What a segment decodes to by itself. -/
def decodeSegment (c : Crates) (p : List UInt8) : FrameOutput :=
  match c.cobsDecode p with
  | none => .cobsError
  | some d => if h : WellSized d then .complete (frameOf d h) else .parseError

/-- The outputs on the bytes of a segment: one overflow, on byte `N + 1`, if there is such a byte. -/
def onBytes (N : Nat) (p : List UInt8) : List FrameOutput :=
  (List.range p.length).map (fun i => if i = N then .overflow else .incomplete)

/-- The output on the delimiter of a segment. -/
def onDelimiter (c : Crates) (N : Nat) (p : List UInt8) : FrameOutput :=
  if p = [] ∨ N < p.length then .incomplete else decodeSegment c p

/-- **The reference outputs**, one for each byte of `w`. -/
def outputs (c : Crates) (N : Nat) (w : List UInt8) : List FrameOutput :=
  (Split.closed 0 w).flatMap (fun p => onBytes N p ++ [onDelimiter c N p]) ++ onBytes N (Split.opened 0 w)

def isResync : FrameOutput → Bool
  | .overflow | .cobsError => true
  | _ => false

/-! ## The framer's state is its open segment -/

/-- The framer after the open segment `p`. -/
def stateAt (N : Nat) (p : List UInt8) (r : UInt32) : Framer N :=
  if h : p.length ≤ N then ⟨⟨p, h⟩, .collecting, r⟩ else ⟨Heapless.Vec.new, .discarding, r⟩

def answer (c : Crates) (N : Nat) (p : List UInt8) (byte : UInt8) : FrameOutput :=
  if byte = 0 then onDelimiter c N p else if p.length = N then .overflow else .incomplete

def nextOpen (p : List UInt8) (byte : UInt8) : List UInt8 := if byte = 0 then [] else p ++ [byte]

def nextResync (r : UInt32) (o : FrameOutput) : UInt32 := if isResync o then saturatingSucc r else r

variable (c : Crates) (N : Nat)

theorem stateAt_of_le {p : List UInt8} (h : p.length ≤ N) (r : UInt32) : stateAt N p r = ⟨⟨p, h⟩, .collecting, r⟩ :=
  dif_pos h

theorem stateAt_of_lt {p : List UInt8} (h : N < p.length) (r : UInt32) :
    stateAt N p r = ⟨Heapless.Vec.new, .discarding, r⟩ := dif_neg (Nat.not_le.2 h)

theorem isResync_parseDecoded (d : List UInt8) : isResync (parseDecoded d) = false := by
  rw [parseDecoded_eq]
  split <;> rfl

theorem process_stateAt {p : List UInt8} (h : p.length ≤ N) (r : UInt32) :
    (stateAt N p r).process c = (stateAt N p (nextResync r (decodeSegment c p)), decodeSegment c p) := by
  rw [stateAt_of_le N h, stateAt_of_le N h, Framer.process, decodeSegment]
  simp only
  cases c.cobsDecode p with
  | none => rfl
  | some d =>
    simp only
    rw [← parseDecoded_eq, nextResync, isResync_parseDecoded]
    rfl

/-- **One byte**: the framer moves from the open segment to the next one and answers what the reference does. -/
theorem feed_stateAt (p : List UInt8) (r : UInt32) (byte : UInt8) :
    (stateAt N p r).feed c byte
      = (stateAt N (nextOpen p byte) (nextResync r (answer c N p byte)), answer c N p byte) := by
  by_cases hb : byte = 0
  · subst hb
    simp only [answer, nextOpen, if_true]
    by_cases hlong : N < p.length
    · -- a delimiter ends the discarding
      rw [stateAt_of_lt N hlong, onDelimiter, if_pos (Or.inr hlong)]
      rfl
    · have hle : p.length ≤ N := Nat.not_lt.1 hlong
      by_cases hp : p = []
      · subst hp
        rw [onDelimiter, if_pos (Or.inl rfl)]
        rfl
      · have hproc := process_stateAt c N hle r
        rw [onDelimiter, if_neg (not_or.2 ⟨hp, hlong⟩)]
        rw [stateAt_of_le N hle] at hproc ⊢
        have hempty : (⟨p, hle⟩ : Heapless.Vec UInt8 N).isEmpty = false := by
          cases p with
          | nil => exact absurd rfl hp
          | cons x xs => rfl
        simp only [Framer.feed, ne_eq, not_true_eq_false, if_false, hempty, Bool.false_eq_true, hproc,
          stateAt_of_le N hle]
        rfl
  · simp only [answer, nextOpen, hb, if_false]
    rcases Nat.lt_trichotomy p.length N with hlt | heq | hgt
    · have hle : (p ++ [byte]).length ≤ N := Heapless.length_snoc_le byte hlt
      have hpush := Heapless.Vec.push_of_lt (⟨p, Nat.le_of_lt hlt⟩ : Heapless.Vec UInt8 N) byte hlt
      rw [stateAt_of_le N (Nat.le_of_lt hlt), if_neg (Nat.ne_of_lt hlt), stateAt_of_le N hle]
      simp only [Framer.feed, ne_eq, hb, not_false_eq_true, if_true, hpush]
      rfl
    · have hgt : N < (p ++ [byte]).length := by rw [List.length_append, ← heq]; exact Nat.lt_succ_self _
      have hpush := Heapless.Vec.push_of_full (⟨p, Nat.le_of_eq heq⟩ : Heapless.Vec UInt8 N) byte heq
      rw [stateAt_of_le N (Nat.le_of_eq heq), if_pos heq, stateAt_of_lt N hgt]
      simp only [Framer.feed, ne_eq, hb, not_false_eq_true, if_true, hpush]
      rfl
    · have hgt' : N < (p ++ [byte]).length := by rw [List.length_append]; exact Nat.lt_add_right _ hgt
      rw [stateAt_of_lt N hgt, if_neg (Nat.ne_of_gt hgt), stateAt_of_lt N hgt']
      simp only [Framer.feed, hb, if_false]
      rfl

/-! ## The whole stream -/

theorem onBytes_snoc (p : List UInt8) (byte : UInt8) :
    onBytes N (p ++ [byte]) = onBytes N p ++ [if p.length = N then .overflow else .incomplete] := by
  rw [onBytes, List.length_append, List.length_singleton, List.range_succ, List.map_append]
  rfl

/-- **The reference, one byte further.** -/
theorem outputs_snoc (w : List UInt8) (byte : UInt8) :
    outputs c N (w ++ [byte]) = outputs c N w ++ [answer c N (Split.opened 0 w) byte] := by
  by_cases hb : byte = 0
  · subst hb
    rw [outputs, Split.closed_snoc_sep, Split.opened_snoc_sep, List.flatMap_append, List.flatMap_singleton, answer,
      if_pos rfl, outputs]
    simp only [List.append_assoc]
    rfl
  · rw [outputs, Split.closed_snoc 0 w hb, Split.opened_snoc 0 w hb, onBytes_snoc, ← List.append_assoc, answer,
      if_neg hb]
    rfl

theorem opened_snoc (w : List UInt8) (byte : UInt8) :
    Split.opened 0 (w ++ [byte]) = nextOpen (Split.opened 0 w) byte := by
  by_cases hb : byte = 0
  · subst hb
    exact Split.opened_snoc_sep 0 w
  · rw [Split.opened_snoc 0 w hb, nextOpen, if_neg hb]

/-- **The framer after a whole stream**: in the state of the open segment, having answered as the reference does and
counted every resynchronisation, up to saturation. -/
theorem feedAll_new (w : List UInt8) : ∃ r : UInt32,
    (Framer.new : Framer N).feedAll c w = (stateAt N (Split.opened 0 w) r, outputs c N w) ∧
      r.toNat = min (2 ^ 32 - 1) ((outputs c N w).countP isResync) := by
  induction w using List.reverseRecOn with
  | nil => exact ⟨0, by rw [Split.opened_nil]; rfl, rfl⟩
  | append_singleton w byte ih =>
    obtain ⟨r, hrun, hr⟩ := ih
    refine ⟨nextResync r (answer c N (Split.opened 0 w) byte), ?_, ?_⟩
    · refine Prod.ext ?_ ?_
      · rw [Framer.feedAll, Machine.run_snoc_fst, ← Framer.feedAll, hrun, feed_stateAt, opened_snoc]
      · rw [Framer.feedAll, Machine.run_snoc_snd, ← Framer.feedAll, hrun, feed_stateAt, outputs_snoc]
    · rw [outputs_snoc, List.countP_append, List.countP_singleton, nextResync]
      split
      · rw [toNat_saturatingSucc, hr]
        omega
      · exact hr

theorem feedAll_stateAt_congr (p u : List UInt8) (r r' : UInt32) :
    ((stateAt N p r).feedAll c u).2 = ((stateAt N p r').feedAll c u).2 := by
  refine (Machine.run_sim (R := fun s t => ∃ p r r', s = stateAt N p r ∧ t = stateAt N p r') (Framer.feed c) ?_ u _ _
    ⟨p, r, r', rfl, rfl⟩).2
  rintro _ _ byte ⟨p, r, r', rfl, rfl⟩
  rw [feed_stateAt, feed_stateAt]
  exact ⟨⟨_, _, _, rfl, rfl⟩, rfl⟩

theorem countP_isResync (os : List FrameOutput) : os.countP isResync = os.count .overflow + os.count .cobsError := by
  induction os with
  | nil => rfl
  | cons o os ih =>
    rw [List.countP_cons, List.count_cons, List.count_cons, ih]
    cases o <;> simp [isResync] <;> omega

/-- **The byte-at-a-time framer refines the batch splitter**: its outputs are the reference's, its resync count is the
number of overflows and `COBS` errors up to saturation, and after a delimiter it answers as a fresh framer does. -/
theorem framer_refines_reference (w : List UInt8) :
    ((Framer.new : Framer N).feedAll c w).2 = outputs c N w ∧
    ((Framer.new : Framer N).feedAll c w).1.resyncCount.toNat
      = min (2 ^ 32 - 1) ((outputs c N w).count .overflow + (outputs c N w).count .cobsError) ∧
    ∀ u, (((Framer.new : Framer N).feedAll c (w ++ [0])).1.feedAll c u).2
      = ((Framer.new : Framer N).feedAll c u).2 := by
  obtain ⟨r, hrun, hr⟩ := feedAll_new c N w
  refine ⟨by rw [hrun], ?_, ?_⟩
  · have hcount : (stateAt N (Split.opened 0 w) r).resyncCount = r := by
      unfold stateAt
      split <;> rfl
    rw [hrun, hcount, hr, countP_isResync]
  · intro u
    obtain ⟨r', hrun', -⟩ := feedAll_new c N (w ++ [0])
    rw [hrun', Split.opened_snoc_sep]
    exact feedAll_stateAt_congr c N [] u r' 0

end Reference
end Telemetry
