import TelemetryLogger.Frame
import TelemetryLogger.Lib.Machine
import Mathlib.Data.List.Induction
/-!
# Validator — CRC, known bytes, length and sequence (`validator.rs`)

A frame is `Counted` when it passes the four checks that look at it alone.  The validator's state is the sequence number
of the last counted frame (`checkAll_new_fst`), so over a whole run the outcome of a frame depends on it and on the last
counted frame before it (`outcome_of_run`).
-/
namespace Telemetry

open Bytes (u16ToLe u32ToLe)

structure Validator where
  lastSeq : Option UInt32
  deriving DecidableEq

/-- The CRC the validator computes from the fields, by its own serialisation. -/
def computedCrc (c : Crates) (frame : Frame) : UInt16 :=
  c.crc16 ([frame.header.version, frame.header.packetType, frame.header.severity] ++ u32ToLe frame.header.sequence
    ++ u16ToLe frame.header.payloadLen ++ frame.payload.toList)

namespace Validator

def new : Validator := ⟨none⟩

def check (c : Crates) (v : Validator) (frame : Frame) : Validator × Outcome Frame :=
  let computed := computedCrc c frame
  let stored := ofLeBytes frame.crcBytes
  if computed ≠ stored then (v, .rejected (.crc computed stored))
  else if (PacketType.tryFrom frame.header.packetType).isNone then (v, .rejected .filtered)
  else if (Severity.tryFrom frame.header.severity).isNone then (v, .rejected .filtered)
  else if frame.header.payloadLen.toNat ≠ frame.payload.len then (v, .rejected .badLength)
  else
    let seq := frame.header.sequence
    match v.lastSeq with
    | some last =>
      let expected := last + 1
      if seq ≠ expected then (⟨some seq⟩, .rejected (.sequenceGap expected seq)) else (⟨some seq⟩, .accepted frame)
    | none => (⟨some seq⟩, .accepted frame)

def checkAll (c : Crates) (v : Validator) (frames : List Frame) : Validator × List (Outcome Frame) :=
  Machine.run (check c) v frames

end Validator

/-- The validator's CRC and the encoder's agree, though each serialises the fields itself. -/
theorem computeCrc_eq_computedCrc (c : Crates) (f : Frame) : f.computeCrc c = leBytes (computedCrc c f) := rfl

/-! ## Frames that count -/

/-- **A frame that passes every check but the sequence check.** -/
structure Counted (c : Crates) (f : Frame) : Prop where
  crc : computedCrc c f = ofLeBytes f.crcBytes
  packetType : (PacketType.tryFrom f.header.packetType).isSome = true
  severity : (Severity.tryFrom f.header.severity).isSome = true
  length : f.header.payloadLen.toNat = f.payload.len

/-- The reason of the first check a frame fails by itself, in the documented order. -/
def firstFault (c : Crates) (f : Frame) : Option Reason :=
  if computedCrc c f ≠ ofLeBytes f.crcBytes then some (.crc (computedCrc c f) (ofLeBytes f.crcBytes))
  else if (PacketType.tryFrom f.header.packetType).isNone then some .filtered
  else if (Severity.tryFrom f.header.severity).isNone then some .filtered
  else if f.header.payloadLen.toNat ≠ f.payload.len then some .badLength
  else none

theorem counted_iff (c : Crates) (f : Frame) : Counted c f ↔ firstFault c f = none := by
  unfold firstFault
  constructor
  · intro h
    have htype : ¬ (PacketType.tryFrom f.header.packetType).isNone = true := by
      rw [Option.isNone_iff_eq_none, ← ne_eq, Option.ne_none_iff_isSome]
      exact h.packetType
    have hsev : ¬ (Severity.tryFrom f.header.severity).isNone = true := by
      rw [Option.isNone_iff_eq_none, ← ne_eq, Option.ne_none_iff_isSome]
      exact h.severity
    rw [if_neg (not_not.2 h.crc), if_neg htype, if_neg hsev, if_neg (not_not.2 h.length)]
  · intro h
    split at h
    · cases h
    split at h
    · cases h
    split at h
    · cases h
    split at h
    · cases h
    rename_i hcrc htype hsev hlen
    refine ⟨not_not.1 hcrc, ?_, ?_, not_not.1 hlen⟩
    · rwa [Option.isNone_iff_eq_none, ← ne_eq, Option.ne_none_iff_isSome] at htype
    · rwa [Option.isNone_iff_eq_none, ← ne_eq, Option.ne_none_iff_isSome] at hsev

instance (c : Crates) (f : Frame) : Decidable (Counted c f) := decidable_of_iff _ (counted_iff c f).symm

/-- What the sequence check says of a counted frame after the sequence number `last`. -/
def sequenceOutcome (last : Option UInt32) (f : Frame) : Outcome Frame :=
  match last with
  | none => .accepted f
  | some last =>
    if f.header.sequence = last + 1 then .accepted f else .rejected (.sequenceGap (last + 1) f.header.sequence)

/-- **One check**: the first fault leaves the state alone; a counted frame becomes the reference, accepted or not. -/
theorem check_eq (c : Crates) (v : Validator) (f : Frame) :
    v.check c f = match firstFault c f with
      | some reason => (v, .rejected reason)
      | none => (⟨some f.header.sequence⟩, sequenceOutcome v.lastSeq f) := by
  unfold Validator.check firstFault
  by_cases hcrc : computedCrc c f ≠ ofLeBytes f.crcBytes
  · simp only [if_pos hcrc]
  by_cases htype : (PacketType.tryFrom f.header.packetType).isNone
  · simp only [if_neg hcrc, if_pos htype]
  by_cases hsev : (Severity.tryFrom f.header.severity).isNone
  · simp only [if_neg hcrc, if_neg htype, if_pos hsev]
  by_cases hlen : f.header.payloadLen.toNat ≠ f.payload.len
  · simp only [if_neg hcrc, if_neg htype, if_neg hsev, if_pos hlen]
  simp only [if_neg hcrc, if_neg htype, if_neg hsev, if_neg hlen]
  cases v.lastSeq with
  | none => rfl
  | some last =>
    simp only [sequenceOutcome]
    by_cases hseq : f.header.sequence = last + 1
    · rw [if_neg (not_not.2 hseq), if_pos hseq]
    · rw [if_pos hseq, if_neg hseq]

theorem check_of_fault {c : Crates} {f : Frame} {reason : Reason} (v : Validator) (h : firstFault c f = some reason) :
    v.check c f = (v, .rejected reason) := by
  rw [check_eq, h]

theorem check_of_counted {c : Crates} {f : Frame} (v : Validator) (h : Counted c f) :
    v.check c f = (⟨some f.header.sequence⟩, sequenceOutcome v.lastSeq f) := by
  rw [check_eq, (counted_iff c f).1 h]

/-! ## Whole runs -/

/-- The last counted frame of a run. -/
def lastCounted (c : Crates) (frames : List Frame) : Option Frame :=
  (frames.filter (fun f => decide (Counted c f))).getLast?

theorem lastCounted_snoc_of_counted {c : Crates} {f : Frame} (frames : List Frame) (h : Counted c f) :
    lastCounted c (frames ++ [f]) = some f := by
  unfold lastCounted
  rw [List.filter_append, List.filter_singleton, decide_eq_true h]
  exact List.getLast?_concat

theorem lastCounted_snoc_of_not {c : Crates} {f : Frame} (frames : List Frame) (h : ¬ Counted c f) :
    lastCounted c (frames ++ [f]) = lastCounted c frames := by
  unfold lastCounted
  rw [List.filter_append, List.filter_singleton, decide_eq_false h]
  exact congrArg List.getLast? (List.append_nil _)

/-- **The validator's state after a run is the last counted frame's sequence number.** -/
theorem checkAll_new_fst (c : Crates) (frames : List Frame) :
    (Validator.new.checkAll c frames).1 = ⟨(lastCounted c frames).map (·.header.sequence)⟩ := by
  induction frames using List.reverseRecOn with
  | nil => rfl
  | append_singleton frames f ih =>
    rw [Validator.checkAll, Machine.run_snoc_fst, ← Validator.checkAll, ih]
    by_cases h : Counted c f
    · rw [check_of_counted _ h, lastCounted_snoc_of_counted frames h]
      rfl
    · obtain ⟨reason, hr⟩ := Option.ne_none_iff_exists'.1 (fun hn => h ((counted_iff c f).2 hn))
      rw [check_of_fault _ hr, lastCounted_snoc_of_not frames h]

def outcomes (c : Crates) (frames : List Frame) : List (Outcome Frame) := (Validator.new.checkAll c frames).2

theorem outcomes_split (c : Crates) (pre post : List Frame) (f : Frame) :
    outcomes c (pre ++ f :: post) = outcomes c pre
      ++ (Validator.check c ⟨(lastCounted c pre).map (·.header.sequence)⟩ f).2
        :: (Validator.checkAll c (Validator.check c ⟨(lastCounted c pre).map (·.header.sequence)⟩ f).1 post).2 := by
  rw [outcomes, Validator.checkAll, Machine.run_append_snd, Machine.run_cons, ← Validator.checkAll, checkAll_new_fst]
  rfl

@[simp] theorem length_outcomes (c : Crates) (frames : List Frame) : (outcomes c frames).length = frames.length :=
  Machine.length_run _ _ _

theorem outcome_at (c : Crates) (pre post : List Frame) (f : Frame) :
    (outcomes c (pre ++ f :: post))[pre.length]?
      = some (Validator.check c ⟨(lastCounted c pre).map (·.header.sequence)⟩ f).2 := by
  rw [outcomes_split, List.getElem?_append_right (Nat.le_of_eq (length_outcomes c pre)), length_outcomes, Nat.sub_self]
  rfl

/-- A frame that does not count can be left out of a run: the others' outcomes are as they were. -/
theorem outcomes_without {c : Crates} {f : Frame} (pre post : List Frame) (h : ¬ Counted c f) :
    outcomes c (pre ++ post) = (outcomes c (pre ++ f :: post)).eraseIdx pre.length := by
  obtain ⟨reason, hr⟩ := Option.ne_none_iff_exists'.1 (fun hn => h ((counted_iff c f).2 hn))
  have hlen := length_outcomes c pre
  rw [outcomes_split, check_of_fault _ hr, List.eraseIdx_append_of_length_le (Nat.le_of_eq hlen), hlen, Nat.sub_self,
    List.eraseIdx_cons_zero, ← checkAll_new_fst]
  exact Machine.run_append_snd _ pre post _

/-- **The validator over whole runs.**  At every position of every run, with the frames `pre` before it: the frame is
accepted, unchanged, exactly when it counts and follows the last counted frame, if there is one; a counted frame that
does not follow it is a gap; a frame that does not count gets the reason of its first fault and could be left out. -/
theorem outcome_of_run (c : Crates) (pre post : List Frame) (f : Frame) :
    ((outcomes c (pre ++ f :: post))[pre.length]? = some (.accepted f) ↔
      Counted c f ∧ ∀ g, lastCounted c pre = some g → f.header.sequence = g.header.sequence + 1) ∧
    (∀ f', (outcomes c (pre ++ f :: post))[pre.length]? = some (.accepted f') → f' = f) ∧
    (∀ g, Counted c f → lastCounted c pre = some g → f.header.sequence ≠ g.header.sequence + 1 →
      (outcomes c (pre ++ f :: post))[pre.length]?
        = some (.rejected (.sequenceGap (g.header.sequence + 1) f.header.sequence))) ∧
    (¬ Counted c f → ∃ reason, firstFault c f = some reason ∧
      (outcomes c (pre ++ f :: post))[pre.length]? = some (.rejected reason) ∧
      outcomes c (pre ++ post) = (outcomes c (pre ++ f :: post)).eraseIdx pre.length) := by
  rw [outcome_at]
  by_cases h : Counted c f
  · rw [check_of_counted _ h]
    simp only [Option.some.injEq, h, true_and, not_true_eq_false, false_imp_iff, and_true]
    cases lastCounted c pre with
    | none => simp [sequenceOutcome]
    | some g =>
      by_cases hseq : f.header.sequence = g.header.sequence + 1
      · simp [sequenceOutcome, hseq]
      · simp [sequenceOutcome, hseq]
  · obtain ⟨reason, hr⟩ := Option.ne_none_iff_exists'.1 (fun hn => h ((counted_iff c f).2 hn))
    rw [check_of_fault _ hr]
    refine ⟨?_, ?_, fun g hc => absurd hc h, fun _ => ⟨reason, hr, rfl, outcomes_without pre post h⟩⟩
    · simp [h]
    · simp

end Telemetry
