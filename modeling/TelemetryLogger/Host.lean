import TelemetryLogger.Delivery
/-!
# Host — the loop of the host binary (`telemetry-host`, `run_loop`)

The loop reads into a buffer, ingests what it read, drains, and stops at the end of input with a flush but no drain.  It
is generic in the storage here; the binary fixes `FileStorage`.  A source is the list of its answers, then end of input.
-/
namespace Telemetry

open Record (encode image)

variable {σ ε : Type}

def readBufLen : Nat := 4096

/-- What one read leaves in the buffer. -/
abbrev Chunk : Type := { bytes : List TimedByte // bytes.length ≤ readBufLen }

inductive IoErrorKind
  | connectionReset | unexpectedEof | other
  deriving DecidableEq

inductive HostError (ε : Type)
  | read (kind : IoErrorKind)
  | finalFlush (e : ε)
  deriving DecidableEq

inductive Line
  | drainError (e : Error)
  | stats (s : Stats)
  deriving DecidableEq

structure Loop (σ : Type) where
  pipeline : DefaultPipeline
  storage : σ
  lastPrintOk : UInt64
  printed : List Line

namespace Loop

/-- The body of the loop, after a read of some bytes. -/
def iterate (c : Crates) (S : Storage σ ε) (statsInterval : UInt64) (l : Loop σ) (bytes : List TimedByte) : Loop σ :=
  match (l.pipeline.ingest c bytes).drain c S l.storage with
  | (pipeline, storage, res) =>
    let printed := match res with
      | .error e => l.printed ++ [.drainError e]
      | .ok _ => l.printed
    if statsInterval > 0 then
      let ok := pipeline.stats.ok
      if ok ≥ l.lastPrintOk + statsInterval then ⟨pipeline, storage, ok, printed ++ [.stats pipeline.stats]⟩
      else ⟨pipeline, storage, l.lastPrintOk, printed⟩
    else ⟨pipeline, storage, l.lastPrintOk, printed⟩

/-- After the loop: the final flush and the last statistics. -/
def finish (S : Storage σ ε) (l : Loop σ) : Loop σ × Except (HostError ε) Unit :=
  match S.flush l.storage with
  | (storage, .error e) => ({ l with storage := storage }, .error (.finalFlush e))
  | (storage, .ok _) => ({ l with storage := storage, printed := l.printed ++ [.stats l.pipeline.stats] }, .ok ())

def run (c : Crates) (S : Storage σ ε) (statsInterval : UInt64) :
    Loop σ → List (Except IoErrorKind Chunk) → Loop σ × Except (HostError ε) Unit
  | l, [] => l.finish S
  | l, .ok chunk :: reads =>
    if chunk.1.length = 0 then l.finish S else run c S statsInterval (l.iterate c S statsInterval chunk.1) reads
  | l, .error .connectionReset :: _ => l.finish S
  | l, .error .unexpectedEof :: _ => l.finish S
  | l, .error kind :: _ => (l, .error (.read kind))

end Loop

def runLoop (c : Crates) (S : Storage σ ε) (statsInterval : UInt64) (pipeline : DefaultPipeline) (storage : σ)
    (reads : List (Except IoErrorKind Chunk)) : Loop σ × Except (HostError ε) Unit :=
  Loop.run c S statsInterval ⟨pipeline, storage, 0, []⟩ reads

/-! ## The loop as a run of calls -/

/-- The chunks read before the loop ends. -/
def consumed : List (Except IoErrorKind Chunk) → List Chunk
  | .ok chunk :: reads => if chunk.1.length = 0 then [] else chunk :: consumed reads
  | _ => []

/-- The calls the loop makes for these chunks. -/
def callsOf (chunks : List Chunk) : List Call := chunks.flatMap (fun chunk => [.ingest chunk.1, .drain])

theorem consumed_map_ok : ∀ {chunks : List Chunk}, (∀ chunk ∈ chunks, chunk.1 ≠ []) → consumed (chunks.map .ok) = chunks
  | [], _ => rfl
  | chunk :: chunks, h => by
    have hne : ¬ chunk.1.length = 0 := fun h0 => h chunk List.mem_cons_self (List.length_eq_zero_iff.1 h0)
    rw [List.map_cons, consumed, if_neg hne, consumed_map_ok (fun x hx => h x (List.mem_cons_of_mem _ hx))]

theorem stream_callsOf (chunks : List Chunk) : stream (callsOf chunks) = chunks.flatMap (·.1) := by
  rw [stream, callsOf, List.flatMap_assoc]
  refine congrArg (fun f => chunks.flatMap f) (funext fun chunk => ?_)
  exact List.append_nil _

theorem iterate_eq (c : Crates) (S : Storage σ ε) (k : UInt64) (l : Loop σ) (bytes : List TimedByte) :
    ((l.iterate c S k bytes).pipeline, (l.iterate c S k bytes).storage)
      = after c S (l.pipeline, l.storage) [.ingest bytes, .drain] := by
  unfold Loop.iterate
  simp only
  split
  · split <;> rfl
  · rfl

theorem finish_ok {S : Storage σ ε} {l : Loop σ} (h : (l.finish S).2 = .ok ()) :
    (l.finish S).1.pipeline = l.pipeline ∧ (l.finish S).1.storage = (S.flush l.storage).1 := by
  unfold Loop.finish at h ⊢
  split at h
  · cases h
  · rename_i s u hflush
    rw [hflush]
    exact ⟨rfl, rfl⟩

/-- **A loop that ends well is a run of its calls, and a flush.** -/
theorem run_ok (c : Crates) (S : Storage σ ε) (k : UInt64) : ∀ (reads : List (Except IoErrorKind Chunk)) {l : Loop σ},
    (l.run c S k reads).2 = .ok () →
      (l.run c S k reads).1.pipeline = (after c S (l.pipeline, l.storage) (callsOf (consumed reads))).1 ∧
      (l.run c S k reads).1.storage
        = (S.flush (after c S (l.pipeline, l.storage) (callsOf (consumed reads))).2).1
  | [], l, h => finish_ok h
  | .ok chunk :: reads, l, h => by
    rw [Loop.run] at h
    rw [Loop.run, consumed]
    by_cases h0 : chunk.1.length = 0
    · rw [if_pos h0] at h
      rw [if_pos h0, if_pos h0]
      exact finish_ok h
    · rw [if_neg h0] at h
      rw [if_neg h0, if_neg h0]
      have ih := run_ok c S k reads h
      rw [iterate_eq] at ih
      exact ih
  | .error .connectionReset :: _, l, h => finish_ok h
  | .error .unexpectedEof :: _, l, h => finish_ok h
  | .error .other :: _, l, h => by cases h

theorem runLoop_ok {c : Crates} {S : Storage σ ε} {k : UInt64} {p : DefaultPipeline} {s : σ}
    {reads : List (Except IoErrorKind Chunk)} (h : (runLoop c S k p s reads).2 = .ok ()) :
    (runLoop c S k p s reads).1.pipeline = (after c S (p, s) (callsOf (consumed reads))).1 ∧
      (runLoop c S k p s reads).1.storage = (S.flush (after c S (p, s) (callsOf (consumed reads))).2).1 :=
  run_ok c S k reads h

theorem paced_callsOf {Q : Nat} : ∀ {chunks : List Chunk}, (∀ chunk ∈ chunks, delimiters chunk.1 ≤ Q) →
    Paced Q 0 (callsOf chunks)
  | [], _ => trivial
  | chunk :: _, h => ⟨Nat.le_trans (Nat.le_of_eq (Nat.zero_add _)) (h chunk List.mem_cons_self),
      paced_callsOf (fun x hx => h x (List.mem_cons_of_mem _ hx))⟩

/-! ## What the loop loses on a healthy storage -/

section Healthy

variable {N Q : Nat} {c : Crates} (hc : c.Standard) {S : Storage σ ε} (hS : Healthy S)

theorem delimiters_append (bytes more : List TimedByte) :
    delimiters (bytes ++ more) = delimiters bytes + delimiters more :=
  List.countP_append

theorem length_admitted_bytes_le (filter : FilterConfig) :
    ∀ (bytes : List TimedByte) (p : Pipeline N Q) (w : List UInt8),
      (admitted (byteHistory c filter p w bytes)).length ≤ delimiters bytes
  | [], _, _ => Nat.le_refl 0
  | b :: bytes, p, w => by
    have hb := length_admitted_verdictAt_le c N filter w b p.ringbuf.queue.isFull
    have ih := length_admitted_bytes_le filter bytes (p.ingestByte c b) (w ++ [b.byte])
    rw [byteHistory, admitted, List.flatMap_cons, ← admitted, List.length_append, delimiters, List.countP_cons,
      ← delimiters, Nat.add_comm (delimiters bytes)]
    exact Nat.add_le_add hb ih

theorem length_admitted_le (S : Storage σ ε) (filter : FilterConfig) : ∀ (calls : List Call) (x : Pipeline N Q × σ)
    (w : List UInt8), (admitted (history c S filter x w calls)).length ≤ delimiters (stream calls)
  | [], _, _ => Nat.le_refl 0
  | call :: calls, x, w => by
    rw [history, admitted_append, List.length_append, stream, List.flatMap_cons, delimiters_append]
    exact Nat.add_le_add (length_admitted_bytes_le filter call.bytes x.1 w) (length_admitted_le S filter calls _ _)

include hc hS

theorem queued_callsOf : ∀ (chunks : List Chunk) {x : Pipeline N Q × σ}, x.1.queued = [] →
    (after c S x (callsOf chunks)).1.queued = []
  | [], _, h => h
  | chunk :: chunks, x, _ => queued_callsOf chunks (x := (step c S (x.1.ingest c chunk.1, x.2) .drain).1)
      (drain_healthy hc hS (x.1.ingest c chunk.1) x.2).1

/-- **If as many records are admitted as there are delimiters, no chunk has more of them than the queue has slots.** -/
theorem delimiters_le_of_admitted {filter : FilterConfig} :
    ∀ (chunks : List Chunk) {x : Pipeline N Q × σ} {w : List UInt8}, Tracks c filter w x.1 → x.1.queued = [] →
    delimiters (chunks.flatMap (·.1)) ≤ (admitted (history c S filter x w (callsOf chunks))).length →
    ∀ chunk ∈ chunks, delimiters chunk.1 ≤ Q
  | [], _, _, _, _, _ => fun _ h => absurd h List.not_mem_nil
  | chunk :: chunks, x, w, ht, hq, hadm => by
    obtain ⟨ht', hr⟩ := ingest_reports chunk.1 ht
    have hdrain := drain_healthy hc hS (x.1.ingest c chunk.1) x.2
    have hu := drain_untouched c S (x.1.ingest c chunk.1) x.2
    have hhist : history c S filter x w (callsOf (chunk :: chunks)) = byteHistory c filter x.1 w chunk.1
        ++ history c S filter (step c S (x.1.ingest c chunk.1, x.2) .drain).1 (w ++ untimed chunk.1) (callsOf chunks) :=
      congrArg (byteHistory c filter x.1 w chunk.1 ++ ·) (history_drain c S filter _ _ _)
    rw [hhist, admitted_append, List.length_append, List.flatMap_cons, delimiters_append] at hadm
    have hfirst := length_admitted_bytes_le (c := c) filter chunk.1 x.1 w
    have hrest := length_admitted_le (c := c) S filter (callsOf chunks)
      (step c S (x.1.ingest c chunk.1, x.2) .drain).1 (w ++ untimed chunk.1)
    rw [stream_callsOf] at hrest
    have hroom : (x.1.ingest c chunk.1).queued.length ≤ Q := (x.1.ingest c chunk.1).ringbuf.queue.length_le
    rw [hr.queued, hq, List.nil_append] at hroom
    have ih := delimiters_le_of_admitted chunks (x := (step c S (x.1.ingest c chunk.1, x.2) .drain).1)
      (ht'.drain S x.2) hdrain.1 (by omega)
    intro chunk' hmem
    rcases List.mem_cons.1 hmem with rfl | hmem
    · omega
    · exact ih chunk' hmem

end Healthy

/-! ## Healthy runs -/

theorem finish_healthy {S : Storage σ ε} (hS : Healthy S) (l : Loop σ) : (l.finish S).2 = .ok () := by
  have hok := hS.flush l.storage
  unfold Loop.finish
  split
  · rename_i s e hflush
    rw [hflush] at hok
    cases hok
  · rfl

theorem run_healthy (c : Crates) {S : Storage σ ε} (hS : Healthy S) (k : UInt64) : ∀ (chunks : List Chunk) (l : Loop σ),
    (l.run c S k (chunks.map .ok)).2 = .ok ()
  | [], l => finish_healthy hS l
  | chunk :: chunks, l => by
    rw [List.map_cons, Loop.run]
    split
    · exact finish_healthy hS l
    · exact run_healthy c hS k chunks _

theorem delimiters_eq (bytes : List TimedByte) : delimiters bytes = (completions bytes).length := by
  rw [delimiters, List.countP_eq_length_filter, completions, List.length_map]

theorem filterMap_data_flush (S : Storage σ ε) (x : σ × List Op) :
    (S.traced.flush x).1.2.filterMap Op.data = x.2.filterMap Op.data := by
  rw [traced_flush, List.filterMap_append]
  exact List.append_nil _

theorem delimiters_frames {c : Crates} (hc : c.Standard) {frames : List Frame} (hframes : Sendable frames)
    {bytes : List TimedByte} (hbytes : untimed bytes = frames.flatMap (Frame.wire c)) :
    delimiters bytes = frames.length := by
  rw [delimiters_eq]
  exact (verdicts_frames (N := defaultMaxFrame) hc (by decide) frames (Split.opened_nil 0) hframes.wellFormed
    hframes.sequence (by rw [lastReached, Split.closed_nil]; exact fun l hl => by cases hl) hbytes).1

theorem wire_of_encoded {c : Crates} (hc : c.Standard) {frames : List Frame} {encoded : List (List UInt8)}
    (h : frames.mapM (fun f => f.encodeCobs c maxCobsFrameBytes) = some encoded) :
    encoded.flatten = frames.flatMap (Frame.wire c) := by
  rw [mapM_eq_pure (fun f => f.encodeCobs_eq_some hc (Nat.le_refl _)) frames] at h
  rw [← Option.some.inj h]
  rfl

theorem runLoop_conserved {c : Crates} (hc : c.Standard) {S : Storage σ ε} {s : σ} {k : UInt64} {filter : FilterConfig}
    {reads : List (Except IoErrorKind Chunk)}
    (h : (runLoop c S.traced k (Pipeline.new filter) (s, []) reads).2 = .ok ()) :
    ∃ written, (runLoop c S.traced k (Pipeline.new filter) (s, []) reads).1.storage.2.filterMap Op.data
        = written.map (image c) ∧
      written ++ (runLoop c S.traced k (Pipeline.new filter) (s, []) reads).1.pipeline.queued
        = admitted (history c S.traced filter ((Pipeline.new filter : DefaultPipeline), s, []) []
          (callsOf (consumed reads))) := by
  obtain ⟨hpipe, hstore⟩ := runLoop_ok h
  obtain ⟨⟨written, hdata, hrec⟩, -⟩ := conserved_after (N := defaultMaxFrame) (Q := hostQueueDepth) hc S filter s
    (callsOf (consumed reads))
  refine ⟨written, ?_, ?_⟩
  · rw [hstore, filterMap_data_flush]
    exact hdata
  · rw [hpipe]
    exact hrec

theorem delimiters_le_of_written {c : Crates} (hc : c.Standard) {S : Storage σ ε} (hS : Healthy S) (s : σ) (k : UInt64)
    {frames : List Frame} (hframes : Sendable frames) {chunks : List Chunk} (hchunks : ∀ chunk ∈ chunks, chunk.1 ≠ [])
    (hwire : untimed (chunks.flatMap (·.1)) = frames.flatMap (Frame.wire c))
    (hwritten : ((runLoop c S.traced k (Pipeline.new .allowAll) (s, []) (chunks.map .ok)).1.storage.2.filterMap
      Op.data).length = frames.length) : ∀ chunk ∈ chunks, delimiters chunk.1 ≤ hostQueueDepth := by
  obtain ⟨written, hlogged, hrec⟩ := runLoop_conserved hc
    (run_healthy c hS.traced k chunks ⟨Pipeline.new .allowAll, (s, []), 0, []⟩)
  have ht : Tracks c .allowAll [] (Pipeline.new .allowAll : DefaultPipeline) := tracks_new c .allowAll
  refine delimiters_le_of_admitted hc hS.traced chunks
    (x := ((Pipeline.new .allowAll : DefaultPipeline), s, [])) ht rfl ?_
  rw [consumed_map_ok hchunks] at hrec
  rw [← hrec, List.length_append, delimiters_frames hc hframes hwire, ← hwritten]
  refine Nat.le_trans (Nat.le_of_eq ?_) (Nat.le_add_right _ _)
  exact (congrArg List.length hlogged).trans (List.length_map _)

/-- **When the host loop loses nothing.**  A good sender's stream is read in chunks of 1 to 4096 bytes, onto a storage
that does not fail.  The loop ends with nothing dropped and every frame written in order if and only if no read holds
more delimiters than the queue has slots. -/
theorem host_delivers_iff {c : Crates} (hc : c.Standard) {S : Storage σ ε} (hS : Healthy S) (s : σ)
    (statsInterval : UInt64) {frames : List Frame} (hframes : Sendable frames) {encoded : List (List UInt8)}
    (hencoded : frames.mapM (fun f => f.encodeCobs c maxCobsFrameBytes) = some encoded) {chunks : List Chunk}
    (hchunks : ∀ chunk ∈ chunks, chunk.1 ≠ []) (hstream : untimed (chunks.flatMap (·.1)) = encoded.flatten) :
    let run := runLoop c S.traced statsInterval (Pipeline.new .allowAll) (s, []) (chunks.map .ok)
    (run.2 = .ok () ∧ run.1.pipeline.stats.dropped = 0 ∧
      (List.zipWith recordOf frames (completions (chunks.flatMap (·.1)))).mapM
        (fun r => encode c r maxStoredRecordBytes) = .ok (run.1.storage.2.filterMap Op.data)) ↔
    ∀ chunk ∈ chunks, delimiters chunk.1 ≤ hostQueueDepth := by
  intro run
  have hwire := hstream.trans (wire_of_encoded hc hencoded)
  have hok : run.2 = .ok () := run_healthy c hS.traced statsInterval chunks _
  rw [mapM_eq_pure (fun r => Record.encode_eq_ok hc r (by decide))]
  constructor
  · rintro ⟨-, -, hwritten⟩
    refine delimiters_le_of_written hc hS s statsInterval hframes hchunks hwire ?_
    have hlen := (delimiters_eq (chunks.flatMap (·.1))).symm.trans (delimiters_frames hc hframes hwire)
    refine (congrArg List.length (Except.ok.inj hwritten)).symm.trans ?_
    rw [List.length_map, List.length_zipWith, hlen, Nat.min_self]
  · intro hroom
    rw [← stream_callsOf] at hwire
    obtain ⟨-, hadm, hcounter, -, -⟩ := after_frames (N := defaultMaxFrame) (Q := hostQueueDepth) hc (by decide)
      hS.traced (s, []) hframes.wellFormed hframes.sequence hwire (paced_callsOf hroom)
    obtain ⟨written, hlogged, hrec⟩ := runLoop_conserved hc hok
    obtain ⟨hpipe, -⟩ : run.1.pipeline = _ ∧ _ := runLoop_ok hok
    rw [consumed_map_ok hchunks] at hpipe hrec
    have hempty : run.1.pipeline.queued = [] := by
      rw [hpipe]
      exact queued_callsOf hc hS.traced chunks rfl
    refine ⟨hok, ?_, ?_⟩
    · rw [hpipe]
      exact hcounter .dropped
    · rw [show written = _ from (List.append_nil written).symm.trans (hempty ▸ hrec), hadm, stream_callsOf] at hlogged
      exact congrArg Except.ok hlogged.symm

/-- Two frames, numbered across the wrap and cut over three reads. -/
theorem host_delivers_run :
    let f₀ : Frame := ⟨⟨1, 1, 0, 0xFFFFFFFF, 0⟩, Heapless.Vec.new, (0, 0)⟩
    let f₁ : Frame := ⟨⟨1, 1, 0, 0, 0⟩, Heapless.Vec.new, (0, 0)⟩
    let chunks : List Chunk := [⟨[3, 1, 1, 5, 255, 255, 255].map (⟨·, 5⟩), by decide⟩,
      ⟨[255, 1, 3, 244, 118, 0, 3, 1].map (⟨·, 6⟩), by decide⟩,
      ⟨[1, 1, 1, 1, 1, 1, 1, 3, 165, 125, 0].map (⟨·, 7⟩), by decide⟩]
    let run := runLoop Crates.documented capturingStorage.traced 0 (Pipeline.new .allowAll) (([], 0), [])
      (chunks.map .ok)
    run.2 = .ok () ∧ run.1.pipeline.stats.dropped = 0 ∧
      [recordOf f₀ 6, recordOf f₁ 7].mapM (fun r => encode Crates.documented r maxStoredRecordBytes)
        = .ok (run.1.storage.2.filterMap Op.data) := by
  intro f₀ f₁ chunks run
  have hnew : ∀ f ∈ [f₀, f₁], ∃ packetType severity sequence payload,
      Frame.new packetType severity sequence payload = some f :=
    List.forall_mem_cons.2 ⟨⟨1, 0, 0xFFFFFFFF, [], rfl⟩, List.forall_mem_cons.2 ⟨⟨1, 0, 0, [], rfl⟩, by simp⟩⟩
  have hframes : Sendable [f₀, f₁] := ⟨hnew, by decide, by decide, List.isChain_pair.2 (by decide)⟩
  have hbytes : [f₀, f₁].mapM (fun f => f.encodeCobs Crates.documented maxCobsFrameBytes)
      = some [[3, 1, 1, 5, 255, 255, 255, 255, 1, 3, 244, 118, 0], [3, 1, 1, 1, 1, 1, 1, 1, 1, 3, 165, 125, 0]] := by
    decide +kernel
  exact (host_delivers_iff Crates.documented_standard (S := capturingStorage) ⟨fun _ _ => rfl, fun _ => rfl⟩ ([], 0) 0
    hframes hbytes (by decide : ∀ chunk ∈ chunks, chunk.1 ≠ []) rfl).2 (by decide)

/-- Sixty-five heartbeats without payload, numbered from 0. -/
def heartbeats : List Frame := (List.range 65).map (fun i => ⟨⟨1, 1, 0, UInt32.ofNat i, 0⟩, Heapless.Vec.new, (0, 0)⟩)

theorem sendable_heartbeats : Sendable heartbeats := by
  refine ⟨?_, ?_, ?_, ?_⟩
  · exact List.forall_mem_map.2 (fun i _ => ⟨1, 0, UInt32.ofNat i, [], rfl⟩)
  · exact List.forall_mem_map.2 (fun i _ => (by decide : 1 ≤ (1 : UInt8).toNat ∧ (1 : UInt8).toNat ≤ 5))
  · exact List.forall_mem_map.2 (fun i _ => (by decide : (0 : UInt8).toNat ≤ 4))
  · unfold InSequence heartbeats
    decide +kernel

theorem length_flatMap_le {α β : Type} {g : α → List β} {k : Nat} : ∀ {as : List α}, (∀ a ∈ as, (g a).length ≤ k) →
    (as.flatMap g).length ≤ as.length * k
  | [], _ => Nat.zero_le _
  | a :: as, h => by
    rw [List.flatMap_cons, List.length_append, List.length_cons, Nat.succ_mul, Nat.add_comm]
    exact Nat.add_le_add (length_flatMap_le (fun b hb => h b (List.mem_cons_of_mem a hb))) (h a List.mem_cons_self)

theorem length_wire_heartbeats {c : Crates} (hc : c.Standard) :
    (heartbeats.flatMap (Frame.wire c)).length ≤ readBufLen := by
  have hall : ∀ f ∈ heartbeats, (Frame.wire c f).length ≤ 13 := by
    refine List.forall_mem_map.2 (fun i _ => ?_)
    rw [Frame.wire, List.length_append]
    refine Nat.add_le_add_right (Nat.le_trans (hc.length_encode_le (Frame.raw_ne_nil _ _)) ?_) 1
    rw [Frame.length_raw]
    exact (by decide : Cobs.maxLength 11 ≤ 12)
  exact Nat.le_trans (length_flatMap_le hall) (by decide)

/-- Read at once, they are not all written. -/
theorem host_loses_heartbeats : ∃ (encoded : List (List UInt8)) (chunk : Chunk), Sendable heartbeats ∧
    heartbeats.mapM (fun f => f.encodeCobs Crates.documented maxCobsFrameBytes) = some encoded ∧ chunk.1 ≠ [] ∧
    untimed chunk.1 = encoded.flatten ∧
    let run := runLoop Crates.documented capturingStorage.traced 0 (Pipeline.new .allowAll) (([], 0), []) [.ok chunk]
    ¬ (run.1.pipeline.stats.dropped = 0 ∧
      (List.zipWith recordOf heartbeats (completions chunk.1)).mapM
        (fun r => encode Crates.documented r maxStoredRecordBytes) = .ok (run.1.storage.2.filterMap Op.data)) := by
  have hc := Crates.documented_standard
  have hS : Healthy capturingStorage := ⟨fun _ _ => rfl, fun _ => rfl⟩
  have hencoded : heartbeats.mapM (fun f => f.encodeCobs Crates.documented maxCobsFrameBytes) = some _ :=
    mapM_eq_pure (fun f => f.encodeCobs_eq_some hc (Nat.le_refl _)) heartbeats
  obtain ⟨bytes, hwire⟩ : ∃ bytes : List TimedByte, untimed bytes = heartbeats.flatMap (Frame.wire Crates.documented) :=
    ⟨(heartbeats.flatMap (Frame.wire Crates.documented)).map (⟨·, 0⟩), List.map_map.trans (List.map_id _)⟩
  have hfit : bytes.length ≤ readBufLen := by
    rw [← List.length_map (·.byte), ← untimed, hwire]
    exact length_wire_heartbeats hc
  have hdel := delimiters_frames hc sendable_heartbeats hwire
  have hne : bytes ≠ [] := fun h => by
    rw [h] at hdel
    cases hdel
  refine ⟨_, ⟨bytes, hfit⟩, sendable_heartbeats, hencoded, hne, hwire, ?_⟩
  intro run
  rintro ⟨-, hwritten⟩
  rw [mapM_eq_pure (fun r => Record.encode_eq_ok hc r (by decide))] at hwritten
  have hlen := congrArg List.length (Except.ok.inj hwritten)
  rw [List.length_map, List.length_zipWith, ← delimiters_eq, hdel, Nat.min_self] at hlen
  have hchunks : ∀ chunk ∈ [(⟨bytes, hfit⟩ : Chunk)], chunk.1 ≠ [] := List.forall_mem_singleton.2 hne
  have hle := delimiters_le_of_written hc hS ([], 0) 0 sendable_heartbeats hchunks
    ((congrArg untimed (List.append_nil bytes)).trans hwire) hlen.symm
  have h65 := hle _ List.mem_cons_self
  rw [hdel] at h65
  exact absurd h65 (by decide)

/-! ## What the loop leaves behind when writes fail -/

/-- **Nothing is left of a queue exactly when all writes but the last one succeed.** -/
theorem writeOut_eq_nil_iff (c : Crates) (S : Storage σ ε) : ∀ (rs : List StoredRecord) (s : σ),
    (S.writeOut c s rs).2.1 = [] ↔ (S.writeOut c s rs.dropLast).2.2 = true
  | [], _ => ⟨fun _ => rfl, fun _ => rfl⟩
  | [r], s => by
    rw [List.dropLast_singleton, Storage.writeOut, Storage.writeOut]
    refine ⟨fun _ => rfl, fun _ => ?_⟩
    cases S.write s (image c r) with
    | mk s' res => cases res <;> rfl
  | r :: r' :: rs, s => by
    have hrest : ∀ s', _ ↔ _ := writeOut_eq_nil_iff c S (r' :: rs)
    rw [List.dropLast_cons_of_ne_nil (List.cons_ne_nil r' rs)]
    unfold Storage.writeOut
    cases S.write s (image c r) with
    | mk s' res =>
      cases res with
      | error e => exact iff_of_false (List.cons_ne_nil r' rs) Bool.false_ne_true
      | ok u => exact hrest s'

theorem writeOut_storage {c : Crates} {S : Storage σ ε} {I : σ → Prop} (hw : ∀ s data, I s → I (S.write s data).1) :
    ∀ (rs : List StoredRecord) (s : σ), I s → I (S.writeOut c s rs).1
  | [], _, h => h
  | r :: rs, s, h => by
    have hwrite := hw s (image c r) h
    rw [Storage.writeOut]
    split
    · rename_i heq
      rw [heq] at hwrite
      exact hwrite
    · rename_i heq
      rw [heq] at hwrite
      exact writeOut_storage hw rs _ hwrite

/-- What writes and flushes keep, a drain keeps. -/
theorem drain_storage {c : Crates} (hc : c.Standard) {N Q : Nat} {S : Storage σ ε} {I : σ → Prop}
    (hw : ∀ s data, I s → I (S.write s data).1) (hf : ∀ s, I s → I (S.flush s).1) (p : Pipeline N Q) (s : σ)
    (hs : I s) : I (p.drain c S s).2.1 := by
  have hwritten := writeOut_storage (c := c) hw p.queued s hs
  rw [(drain_eq hc S p s).2.1]
  split
  · exact hf _ hwritten
  · exact hwritten

def Op.stored : Op → Bool
  | .write _ ok => ok
  | .flush _ => false

def Flushed (ops : List Op) : Prop := ∀ op ∈ ops, op ≠ .flush false

theorem Flushed.snoc {ops : List Op} {op : Op} (h : Flushed ops) (hop : op ≠ .flush false) : Flushed (ops ++ [op]) := by
  intro op' hmem
  rcases List.mem_append.1 hmem with hmem | hmem
  · exact h op' hmem
  · rw [List.mem_singleton.1 hmem]
    exact hop

theorem Flushed.length_data : ∀ {ops : List Op}, Flushed ops →
    (ops.filterMap Op.data).length = ops.countP Op.stored + ops.countP Op.failed
  | [], _ => rfl
  | op :: ops, h => by
    have hops : Flushed ops := fun x hx => h x (List.mem_cons_of_mem op hx)
    have ih := hops.length_data
    rw [List.filterMap_cons, List.countP_cons, List.countP_cons]
    cases op with
    | write data ok =>
      rw [show (Op.write data ok).data = some data from rfl]
      cases ok <;> simp only [List.length_cons, ih, Op.stored, Op.failed] <;> simp <;> omega
    | flush ok =>
      cases ok with
      | false => exact absurd rfl (h _ List.mem_cons_self)
      | true => exact ih

theorem after_flushed {c : Crates} (hc : c.Standard) {N Q : Nat} {S : Storage σ ε}
    (hflush : ∀ s, (S.flush s).2.isOk = true) (calls : List Call) (x : Pipeline N Q × σ × List Op) (hx : Flushed x.2.2) :
    Flushed (after c S.traced x calls).2.2 := by
  refine Machine.run_invariant (I := fun x : Pipeline N Q × σ × List Op => Flushed x.2.2) (step c S.traced) ?_ calls x
    hx
  intro x call hx
  cases call with
  | ingest bytes => exact hx
  | drain =>
    refine drain_storage hc (I := fun y : σ × List Op => Flushed y.2) ?_ ?_ x.1 x.2 hx
    · exact fun y data hy => hy.snoc (fun h => by cases h)
    · intro y hy
      refine hy.snoc ?_
      rw [hflush]
      exact fun h => by cases h

theorem callsOf_eq_snoc {chunks : List Chunk} (h : chunks ≠ []) :
    callsOf chunks = (callsOf chunks).dropLast ++ [.drain] := by
  rcases List.eq_nil_or_concat chunks with rfl | ⟨init, chunk, rfl⟩
  · exact absurd rfl h
  · have hcalls : callsOf (init ++ [chunk]) = (callsOf init ++ [.ingest chunk.1]) ++ [.drain] := by
      rw [callsOf, List.flatMap_append, List.append_assoc]
      rfl
    rw [List.concat_eq_append, hcalls, List.dropLast_concat]

/-- **The queue is empty after the last drain exactly when all its writes but the last one succeed.** -/
theorem queued_nil_iff {c : Crates} (hc : c.Standard) (S : Storage σ ε) {N Q : Nat} (x₀ : Pipeline N Q × σ)
    (h₀ : x₀.1.queued = []) (chunks : List Chunk) :
    (after c S x₀ (callsOf chunks)).1.queued = [] ↔
      (S.writeOut c (after c S x₀ (callsOf chunks).dropLast).2
        (after c S x₀ (callsOf chunks).dropLast).1.queued.dropLast).2.2 = true := by
  by_cases hne : chunks = []
  · subst hne
    refine ⟨fun _ => ?_, fun _ => h₀⟩
    have hnil : (after c S x₀ (callsOf []).dropLast).1.queued = [] := h₀
    rw [hnil]
    rfl
  · have hlast : (after c S x₀ (callsOf chunks)).1
        = ((after c S x₀ (callsOf chunks).dropLast).1.drain c S (after c S x₀ (callsOf chunks).dropLast).2).1 := by
      conv_lhs => rw [callsOf_eq_snoc hne, after_append]
      rfl
    rw [hlast, (drain_eq hc S _ _).1]
    exact writeOut_eq_nil_iff c S _ _

theorem runLoop_writeFail {c : Crates} (hc : c.Standard) {S : Storage σ ε} (hflush : ∀ s, (S.flush s).2.isOk = true)
    {s : σ} {k : UInt64} {filter : FilterConfig} {reads : List (Except IoErrorKind Chunk)}
    (h : (runLoop c S.traced k (Pipeline.new filter) (s, []) reads).2 = .ok ()) :
    let run := runLoop c S.traced k (Pipeline.new filter) (s, []) reads
    UInt64.ofNat (run.1.storage.2.filterMap Op.data).length
      = UInt64.ofNat (run.1.storage.2.countP Op.stored) + run.1.pipeline.stats.writeFail := by
  intro run
  obtain ⟨hpipe, hstore⟩ := runLoop_ok h
  generalize hx : after c S.traced ((Pipeline.new filter : DefaultPipeline), s, []) (callsOf (consumed reads)) = x
    at hpipe hstore
  have hops : run.1.storage.2 = x.2.2 ++ [.flush true] := by
    refine (congrArg Prod.snd hstore).trans ?_
    rw [traced_flush, hflush]
  have hflushed : Flushed x.2.2 := by
    have hrun := after_flushed hc hflush (callsOf (consumed reads))
      ((Pipeline.new filter : DefaultPipeline), s, []) (fun op hop => absurd hop List.not_mem_nil)
    rwa [hx] at hrun
  have hcount : run.1.pipeline.stats.writeFail = UInt64.ofNat (x.2.2.countP Op.failed) := by
    have hfail := (conserved_after (N := defaultMaxFrame) (Q := hostQueueDepth) hc S filter s
      (callsOf (consumed reads))).2
    rw [hx] at hfail
    exact (congrArg (fun p : DefaultPipeline => p.stats.writeFail) hpipe).trans hfail
  rw [hops, List.filterMap_append, List.countP_append, hcount, ← UInt64.ofNat_add]
  refine congrArg UInt64.ofNat ?_
  rw [List.length_append, hflushed.length_data]
  rfl

/-- **When the host loop leaves nothing behind.**  Whatever it reads and whichever writes fail, a loop that ends well
leaves an empty queue, with every record counted in `ok` passed to `write` once, if and only if in its last drain no
write fails before the write of the last record queued. -/
theorem host_leaves_nothing_iff {c : Crates} (hc : c.Standard) {S : Storage σ ε}
    (hflush : ∀ s, (S.flush s).2.isOk = true) (s : σ) (filter : FilterConfig) (statsInterval : UInt64)
    (reads : List (Except IoErrorKind Chunk)) :
    let x₀ : DefaultPipeline × σ × List Op := (Pipeline.new filter, s, [])
    let calls := callsOf (consumed reads)
    let counted := admitted (history c S.traced filter x₀ [] calls)
    let beforeLast := after c S.traced x₀ calls.dropLast
    let run := runLoop c S.traced statsInterval x₀.1 x₀.2 reads
    run.2 = .ok () →
    ((run.1.pipeline.queued = [] ∧ run.1.pipeline.stats.ok = UInt64.ofNat counted.length ∧
      counted.mapM (fun r => encode c r maxStoredRecordBytes) = .ok (run.1.storage.2.filterMap Op.data) ∧
      run.1.pipeline.stats.ok
        = UInt64.ofNat (run.1.storage.2.countP Op.stored) + run.1.pipeline.stats.writeFail) ↔
    (S.traced.writeOut c beforeLast.2 beforeLast.1.queued.dropLast).2.2 = true) := by
  intro x₀ calls counted beforeLast run hok
  obtain ⟨hpipe, -⟩ := runLoop_ok hok
  have hqueue := queued_nil_iff hc S.traced x₀ rfl (consumed reads)
  constructor
  · rintro ⟨hempty, -⟩
    exact hqueue.1 ((congrArg Pipeline.queued hpipe).symm.trans hempty)
  · intro hlast
    have hempty : run.1.pipeline.queued = [] := (congrArg Pipeline.queued hpipe).trans (hqueue.2 hlast)
    obtain ⟨written, hdata, hrec⟩ := runLoop_conserved hc hok
    have hwritten : written = counted := (List.append_nil _).symm.trans (hempty ▸ hrec)
    have hcounted : run.1.pipeline.stats.ok = UInt64.ofNat counted.length := by
      have hcounter := counter_after (N := defaultMaxFrame) (Q := hostQueueDepth) c S.traced filter (s, []) calls .ok
      rw [count_ok_classes] at hcounter
      exact (congrArg (fun p : DefaultPipeline => p.stats.ok) hpipe).trans hcounter
    refine ⟨hempty, hcounted, ?_, ?_⟩
    · rw [mapM_eq_pure (fun r => Record.encode_eq_ok hc r (by decide)), hdata, hwritten]
      rfl
    · rw [hcounted, ← runLoop_writeFail hc hflush hok, hdata, List.length_map, hwritten]

/-- One frame, or two, without payload. -/
def oneFrame : Chunk := ⟨[3, 1, 1, 1, 1, 1, 1, 1, 1, 3, 165, 125, 0].map (⟨·, 7⟩), by decide⟩

def twoFrames : Chunk :=
  ⟨[3, 1, 1, 1, 1, 1, 1, 1, 1, 3, 165, 125, 0, 3, 1, 1, 2, 1, 1, 1, 1, 1, 3, 142, 121, 0].map (⟨·, 7⟩), by decide⟩

/-- One record, whose write fails: it is counted twice over, as ok and as a failed write, and nothing stays queued. -/
theorem host_leaves_nothing_run :
    let run := runLoop Crates.documented failFirst.traced 0 (Pipeline.new .allowAll) (false, []) [.ok oneFrame]
    run.1.pipeline.queued = [] ∧ run.1.pipeline.stats.ok = 1 ∧
      run.1.pipeline.stats.ok = UInt64.ofNat (run.1.storage.2.countP Op.stored) + run.1.pipeline.stats.writeFail := by
  obtain ⟨hempty, -, -, hsum⟩ := (host_leaves_nothing_iff Crates.documented_standard (S := failFirst) (fun _ => rfl)
    false .allowAll 0 [.ok oneFrame] (by decide +kernel)).2 (by decide +kernel)
  exact ⟨hempty, by decide +kernel, hsum⟩

/-- The write of the first of two records fails: the second stays in the queue, and the loop ends well. -/
theorem host_leaves_a_record :
    let run := runLoop Crates.documented failFirst.traced 0 (Pipeline.new .allowAll) (false, []) [.ok twoFrames]
    run.2 = .ok () ∧ run.1.pipeline.queued ≠ [] ∧
      run.1.pipeline.stats.ok
        ≠ UInt64.ofNat (run.1.storage.2.countP Op.stored) + run.1.pipeline.stats.writeFail := by
  decide +kernel

end Telemetry
