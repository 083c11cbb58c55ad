import TelemetryLogger.Logbook
import TelemetryLogger.Lib.Throttle
/-!
# Reports — what `telemetry-host` prints while it runs

The loop prints a line for each drain that fails, and a line of statistics whenever enough frames have been counted since
the last one.  The statistics shown are then far enough apart, and never late (`host_reports`).
-/
namespace Telemetry

open Throttle (throttle shown)

variable {σ ε : Type}

def Line.stats? : Line → Option Stats
  | .drainError _ => none
  | .stats s => some s

def Line.error? : Line → Option Error
  | .drainError e => some e
  | .stats _ => none

/-- The error of a drain, in the answer to a call. -/
def failure? : Option (Except Error Nat) → Option Error
  | some (.error e) => some e
  | _ => none

/-- The statistics after each read. -/
def snapshots (c : Crates) (S : Storage σ ε) : DefaultPipeline × σ → List Chunk → List Stats
  | _, [] => []
  | x, chunk :: chunks =>
    (after c S x [.ingest chunk.1, .drain]).1.stats
      :: snapshots c S (after c S x [.ingest chunk.1, .drain]) chunks

def okOf (s : Stats) : Nat := s.ok.toNat

/-- The statistics printed in the loop, after those with `last` frames counted. -/
def periodic (k : UInt64) (last : Nat) (snaps : List Stats) : List Stats :=
  if 0 < k then throttle k.toNat okOf last snaps else []

theorem iterate_printed (c : Crates) (S : Storage σ ε) (k : UInt64) (l : Loop σ) (bytes : List TimedByte) :
    let x := after c S (l.pipeline, l.storage) [.ingest bytes, .drain]
    let errors := ((Machine.run (step c S) (l.pipeline, l.storage) [.ingest bytes, .drain]).2.filterMap failure?)
    l.iterate c S k bytes = if 0 < k ∧ l.lastPrintOk + k ≤ x.1.stats.ok
      then ⟨x.1, x.2, x.1.stats.ok, l.printed ++ errors.map .drainError ++ [.stats x.1.stats]⟩
      else ⟨x.1, x.2, l.lastPrintOk, l.printed ++ errors.map .drainError⟩ := by
  intro x errors
  have hx : x = (((l.pipeline.ingest c bytes).drain c S l.storage).1,
      ((l.pipeline.ingest c bytes).drain c S l.storage).2.1) := rfl
  have herrors : errors
      = [none, some ((l.pipeline.ingest c bytes).drain c S l.storage).2.2].filterMap failure? := rfl
  unfold Loop.iterate
  rw [hx, herrors]
  generalize (l.pipeline.ingest c bytes).drain c S l.storage = y
  obtain ⟨p, s, res⟩ := y
  rw [ite_and]
  cases res with
  | error e => rfl
  | ok n =>
    rw [show [none, some (Except.ok n)].filterMap failure? = [] from rfl, List.map_nil, List.append_nil]

/-! ## The whole run -/

theorem stats_errors (es : List Error) : (es.map Line.drainError).filterMap Line.stats? = [] := by
  rw [List.filterMap_map]
  exact List.filterMap_eq_nil_iff.2 (fun _ _ => rfl)

theorem errors_errors (es : List Error) : (es.map Line.drainError).filterMap Line.error? = es := by
  rw [List.filterMap_map]
  exact List.filterMap_some

/-- One more snapshot: it is shown if it is due. -/
theorem periodic_cons {k : UInt64} {last : UInt64} (hroom : last.toNat + k.toNat < 2 ^ 64) (s : Stats)
    (snaps : List Stats) : periodic k last.toNat (s :: snaps)
      = if 0 < k ∧ last + k ≤ s.ok then s :: periodic k s.ok.toNat snaps else periodic k last.toNat snaps := by
  have hdue : last + k ≤ s.ok ↔ last.toNat + k.toNat ≤ okOf s := by
    rw [UInt64.le_iff_toNat_le, UInt64.toNat_add, Nat.mod_eq_of_lt hroom]
    rfl
  rw [ite_and]
  unfold periodic
  by_cases hk : 0 < k
  · rw [if_pos hk, if_pos hk, if_pos hk, if_pos hk, throttle, if_congr hdue rfl rfl]
    rfl
  · rw [if_neg hk, if_neg hk, if_neg hk]

theorem periodic_sublist (k : UInt64) (last : Nat) (snaps : List Stats) : (periodic k last snaps).Sublist snaps := by
  unfold periodic
  split
  · exact Throttle.throttle_sublist _ _ _ _
  · exact List.nil_sublist _

theorem finish_printed (S : Storage σ ε) (l : Loop σ) :
    (l.finish S).1.printed.filterMap Line.stats? = l.printed.filterMap Line.stats?
        ++ (if (l.finish S).2.isOk then [(l.finish S).1.pipeline.stats] else []) ∧
      (l.finish S).1.printed.filterMap Line.error? = l.printed.filterMap Line.error? := by
  unfold Loop.finish
  split
  · exact ⟨(List.append_nil _).symm, rfl⟩
  · exact ⟨List.filterMap_append, (List.filterMap_append).trans (List.append_nil _)⟩

/-- **What the loop prints**, while the count of frames does not wrap. -/
theorem run_printed (c : Crates) (S : Storage σ ε) (k : UInt64) :
    ∀ (reads : List (Except IoErrorKind Chunk)) (l : Loop σ), l.lastPrintOk.toNat + k.toNat < 2 ^ 64 →
      (∀ s ∈ snapshots c S (l.pipeline, l.storage) (consumed reads), okOf s + k.toNat < 2 ^ 64) →
      (l.run c S k reads).1.printed.filterMap Line.stats? = l.printed.filterMap Line.stats?
          ++ (periodic k l.lastPrintOk.toNat (snapshots c S (l.pipeline, l.storage) (consumed reads))
          ++ if (l.run c S k reads).2.isOk then [(l.run c S k reads).1.pipeline.stats] else []) ∧
      (l.run c S k reads).1.printed.filterMap Line.error? = l.printed.filterMap Line.error?
          ++ (Machine.run (step c S) (l.pipeline, l.storage) (callsOf (consumed reads))).2.filterMap failure? := by
  have hnil : ∀ last, periodic k last [] = [] := fun last => ite_self _
  have hfinish : ∀ l : Loop σ, (l.finish S).1.printed.filterMap Line.stats? = l.printed.filterMap Line.stats?
        ++ (periodic k l.lastPrintOk.toNat [] ++ if (l.finish S).2.isOk then [(l.finish S).1.pipeline.stats] else []) ∧
      (l.finish S).1.printed.filterMap Line.error? = l.printed.filterMap Line.error? ++ [] := by
    intro l
    rw [hnil, List.nil_append, List.append_nil]
    exact finish_printed S l
  intro reads
  induction reads with
  | nil => exact fun l _ _ => hfinish l
  | cons read reads ih =>
    intro l hroom hsnaps
    cases read with
    | error e =>
      cases e with
      | connectionReset => exact hfinish l
      | unexpectedEof => exact hfinish l
      | other =>
        have hnone : consumed (.error .other :: reads) = [] := rfl
        rw [hnone, snapshots, hnil]
        exact ⟨(List.append_nil _).symm, (List.append_nil _).symm⟩
    | ok chunk =>
      rw [Loop.run]
      rw [consumed] at hsnaps ⊢
      by_cases h0 : chunk.1.length = 0
      · rw [if_pos h0, if_pos h0]
        exact hfinish l
      · rw [if_neg h0] at hsnaps
        rw [if_neg h0, if_neg h0]
        rw [snapshots, List.forall_mem_cons] at hsnaps
        have hcalls : callsOf (chunk :: consumed reads) = [.ingest chunk.1, .drain] ++ callsOf (consumed reads) := rfl
        have hnext := iterate_printed c S k l chunk.1
        have hafter : (Machine.run (step c S) (l.pipeline, l.storage) [.ingest chunk.1, .drain]).1
            = after c S (l.pipeline, l.storage) [.ingest chunk.1, .drain] := rfl
        rw [hcalls, Machine.run_append_snd, List.filterMap_append, hafter, snapshots, periodic_cons hroom]
        generalize after c S (l.pipeline, l.storage) [.ingest chunk.1, .drain] = x at hnext hsnaps ⊢
        generalize (Machine.run (step c S) (l.pipeline, l.storage) [.ingest chunk.1, .drain]).2.filterMap failure?
          = errors at hnext ⊢
        simp only at hnext
        by_cases hdue : 0 < k ∧ l.lastPrintOk + k ≤ x.1.stats.ok
        · rw [if_pos hdue] at hnext ⊢
          obtain ⟨hstats, herrors⟩ := ih (l.iterate c S k chunk.1) (hnext ▸ hsnaps.1) (hnext ▸ hsnaps.2)
          rw [hstats, herrors, hnext]
          constructor
          · simp only [List.filterMap_append, stats_errors, List.append_assoc]
            rfl
          · simp only [List.filterMap_append, errors_errors, List.append_assoc]
            rfl
        · rw [if_neg hdue] at hnext ⊢
          obtain ⟨hstats, herrors⟩ := ih (l.iterate c S k chunk.1) (hnext ▸ hroom) (hnext ▸ hsnaps.2)
          rw [hstats, herrors, hnext]
          constructor
          · rw [List.filterMap_append, stats_errors, List.append_nil]
          · rw [List.filterMap_append, errors_errors, List.append_assoc]

theorem snapshots_snoc (c : Crates) (S : Storage σ ε) (chunk : Chunk) : ∀ (chunks : List Chunk)
    (x : DefaultPipeline × σ), snapshots c S x (chunks ++ [chunk])
      = snapshots c S x chunks ++ [(after c S x (callsOf (chunks ++ [chunk]))).1.stats]
  | [], _ => rfl
  | first :: chunks, x => by
    have ih := snapshots_snoc c S chunk chunks (after c S x [.ingest first.1, .drain])
    rw [← after_append] at ih
    rw [List.cons_append, snapshots, ih, snapshots, List.cons_append]
    rfl

/-- A snapshot counts no more frames than bytes were read. -/
theorem okOf_snapshot_le (c : Crates) (S : Storage σ ε) (filter : FilterConfig) (s : σ) (chunks : List Chunk) :
    ∀ snap ∈ snapshots c S (Pipeline.new filter, s) chunks, okOf snap ≤ (stream (callsOf chunks)).length := by
  induction chunks using List.reverseRecOn with
  | nil => exact fun snap h => by cases h
  | append_singleton chunks chunk ih =>
    rw [snapshots_snoc]
    intro snap hsnap
    rcases List.mem_append.1 hsnap with hsnap | hsnap
    · refine Nat.le_trans (ih snap hsnap) ?_
      rw [stream_callsOf, stream_callsOf, List.flatMap_append, List.length_append]
      exact Nat.le_add_right _ _
    · rw [List.mem_singleton.1 hsnap]
      have hcounter := counter_after (N := defaultMaxFrame) (Q := hostQueueDepth) c S filter s
        (callsOf (chunks ++ [chunk])) .ok
      rw [count_ok_classes] at hcounter
      have hle := length_admitted_le (c := c) S filter (callsOf (chunks ++ [chunk]))
        ((Pipeline.new filter : DefaultPipeline), s) []
      have hcount : delimiters (stream (callsOf (chunks ++ [chunk]))) ≤ _ := List.countP_le_length
      refine Nat.le_trans (Nat.le_of_eq (congrArg UInt64.toNat hcounter)) ?_
      rw [UInt64.toNat_ofNat']
      exact Nat.le_trans (Nat.mod_le _ _) (Nat.le_trans hle hcount)

/-- **What the host reports.**  Whatever the storage does and however the loop ends, if fewer than `2 ^ 64 - k` bytes
are read: the loop prints each drain error, and statistics as they are after some of the reads, at least `k` counted
frames apart; after no read are there `k` frames or more that have not been shown.  It prints none for `k = 0`.  If the
final flush goes well, the final statistics are printed once more. -/
theorem host_reports (c : Crates) (S : Storage σ ε) (filter : FilterConfig) (s : σ) (k : UInt64)
    (reads : List (Except IoErrorKind Chunk)) (hroom : (stream (callsOf (consumed reads))).length + k.toNat < 2 ^ 64) :
    let out := runLoop c S k (Pipeline.new filter) s reads
    let x₀ : DefaultPipeline × σ := (Pipeline.new filter, s)
    ∃ reports : List Stats,
      out.1.printed.filterMap Line.stats? = reports ++ (if out.2.isOk then [out.1.pipeline.stats] else []) ∧
      out.1.printed.filterMap Line.error?
        = (Machine.run (step c S) x₀ (callsOf (consumed reads))).2.filterMap failure? ∧
      reports.Sublist (snapshots c S x₀ (consumed reads)) ∧ (k = 0 → reports = []) ∧
      (0 < k → (0 :: reports.map okOf).IsChain (fun m n => m + k.toNat ≤ n) ∧
        ∀ pre snap post, snapshots c S x₀ (consumed reads) = pre ++ snap :: post →
          ∃ before later, reports = before ++ later ∧ before.Sublist (pre ++ [snap]) ∧ later.Sublist post ∧
            okOf snap < (before.map okOf).getLast?.getD 0 + k.toNat) := by
  intro out x₀
  have hk : (0 : UInt64).toNat + k.toNat < 2 ^ 64 := Nat.lt_of_le_of_lt (Nat.add_le_add_right (Nat.zero_le _) _) hroom
  have hsnaps := okOf_snapshot_le c S filter s (consumed reads)
  obtain ⟨hstats, herrors⟩ := run_printed c S k reads ⟨Pipeline.new filter, s, 0, []⟩ hk
    (fun snap hsnap => Nat.lt_of_le_of_lt (Nat.add_le_add_right (hsnaps snap hsnap) _) hroom)
  refine ⟨_, hstats, herrors, periodic_sublist _ _ _, ?_, fun hpos => ?_⟩
  · rintro rfl
    rfl
  · have hpos' : 0 < k.toNat := UInt64.lt_iff_toNat_lt.1 hpos
    rw [periodic, if_pos hpos]
    refine ⟨Throttle.isChain_throttle _ _ _ _, fun pre snap post hsplit => ?_⟩
    refine ⟨_, _, ?_, Throttle.throttle_sublist k.toNat okOf (pre ++ [snap]) 0,
      Throttle.throttle_sublist k.toNat okOf post (shown k.toNat okOf 0 (pre ++ [snap])), ?_⟩
    · rw [← Throttle.throttle_append, List.append_assoc]
      exact congrArg (throttle k.toNat okOf 0) hsplit
    · rw [← Throttle.shown_eq]
      exact Throttle.lt_shown_snoc okOf hpos' pre snap 0

/-- A line for the frame, and the last one; no error. -/
theorem host_reports_run :
    let out := runLoop Crates.documented (FileStorage.storage fun _ => healthyIo).traced 1 (Pipeline.new .allowAll)
      ((.new 1048576, fun _ => none, 0), []) [.ok oneFrame]
    ∃ reports : List Stats, out.1.printed.filterMap Line.stats? = reports ++ [out.1.pipeline.stats] ∧
      out.1.printed.filterMap Line.error? = [] ∧ reports = [⟨1, 0, 0, 0, 0, 0, 1⟩] ∧
      (0 :: reports.map okOf).IsChain (fun m n => m + 1 ≤ n) := by
  intro out
  have hok : out.2.isOk = true := by decide +kernel
  have hprinted : out.1.printed.filterMap Line.stats? = [⟨1, 0, 0, 0, 0, 0, 1⟩] ++ [out.1.pipeline.stats] := by
    decide +kernel
  have hquiet : (Machine.run (step Crates.documented (FileStorage.storage fun _ => healthyIo).traced)
      ((Pipeline.new .allowAll : DefaultPipeline), (.new 1048576, fun _ => none, 0), [])
      (callsOf (consumed [.ok oneFrame]))).2.filterMap failure? = [] := by decide +kernel
  obtain ⟨reports, hstats, herrors, -, -, hpos⟩ := host_reports Crates.documented
    (FileStorage.storage fun _ => healthyIo).traced .allowAll ((.new 1048576, fun _ => none, 0), []) 1 [.ok oneFrame]
    (by decide)
  rw [if_pos hok] at hstats
  exact ⟨reports, hstats, herrors.trans hquiet, List.append_cancel_right (hstats.symm.trans hprinted),
    (hpos (by decide)).1⟩

end Telemetry
