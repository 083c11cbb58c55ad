import TelemetryLogger.Host
/-!
# Udp — the host loop on a datagram source (`telemetry-host`, `UdpSource`)

A datagram is one read.  The loop takes a read of no bytes for the end of input, and an empty datagram is such a read:
the host takes every datagram exactly when none but the last is empty (`udp_ingests_iff`).  The slices are recorded
beside the loop; that it ingested these and no others is read off the pipeline and the storage it reached (`Accounts`).
-/
namespace Telemetry

variable {σ ε : Type}

/-! ## The loop with its reads and its calls of `ingest` -/

/-- What the loop did besides: the slices it passed to `ingest`, and how often it read. -/
structure Traced (σ ε : Type) where
  result : Loop σ × Except (HostError ε) Unit
  ingested : List (List TimedByte)
  reads : Nat

namespace Loop

def runTraced (c : Crates) (S : Storage σ ε) (statsInterval : UInt64) :
    Loop σ → List (Except IoErrorKind Chunk) → Traced σ ε
  | l, [] => ⟨l.finish S, [], 0⟩
  | l, .ok chunk :: reads =>
    if chunk.1.length = 0 then ⟨l.finish S, [], 1⟩
    else
      let rest := runTraced c S statsInterval (l.iterate c S statsInterval chunk.1) reads
      ⟨rest.result, chunk.1 :: rest.ingested, rest.reads + 1⟩
  | l, .error .connectionReset :: _ => ⟨l.finish S, [], 1⟩
  | l, .error .unexpectedEof :: _ => ⟨l.finish S, [], 1⟩
  | l, .error kind :: _ => ⟨(l, .error (.read kind)), [], 1⟩

end Loop

/-! ## The calls behind a trace -/

/-- A loop that ingests these slices, and drains after each. -/
def ingestCalls (slices : List (List TimedByte)) : List Call := slices.flatMap (fun bytes => [.ingest bytes, .drain])

/-- **A trace accounts for a run of the loop.**  From the loop's own pipeline and storage, ingesting the slices with a
drain after each reaches those of the result; a read error ends the loop there, any other end comes behind one flush.
The reads behind the counted ones make no difference. -/
structure Traced.Accounts (c : Crates) (S : Storage σ ε) (statsInterval : UInt64) (l : Loop σ)
    (reads : List (Except IoErrorKind Chunk)) (run : Traced σ ε) : Prop where
  result : run.result = l.run c S statsInterval reads
  pipeline : run.result.1.pipeline = (after c S (l.pipeline, l.storage) (ingestCalls run.ingested)).1
  stopped : ∀ kind, run.result.2 = .error (.read kind) →
    run.result.1.storage = (after c S (l.pipeline, l.storage) (ingestCalls run.ingested)).2
  flushed : (∀ kind, run.result.2 ≠ .error (.read kind)) →
    run.result.1.storage = (S.flush (after c S (l.pipeline, l.storage) (ingestCalls run.ingested)).2).1
  reads : l.run c S statsInterval (reads.take run.reads) = run.result

namespace Loop

variable (c : Crates) (S : Storage σ ε) (k : UInt64)

/-- The final flush, and nothing else. -/
theorem accounts_finish (l : Loop σ) {reads : List (Except IoErrorKind Chunk)} {n : Nat}
    (hrun : l.run c S k reads = l.finish S) (htake : l.run c S k (reads.take n) = l.finish S) :
    Traced.Accounts c S k l reads ⟨l.finish S, [], n⟩ := by
  refine ⟨hrun.symm, ?_, fun kind h => ?_, fun _ => ?_, htake⟩ <;> unfold Loop.finish at *
  · split <;> rfl
  · split at h <;> cases h
  · split <;> rename_i h <;> exact (congrArg Prod.fst h).symm

/-- One slice in front: `iterate` makes its two calls. -/
theorem accounts_iterate (l : Loop σ) {chunk : Chunk} (hne : ¬ chunk.1.length = 0)
    {reads : List (Except IoErrorKind Chunk)} {rest : Traced σ ε}
    (h : Traced.Accounts c S k (l.iterate c S k chunk.1) reads rest) :
    Traced.Accounts c S k l (.ok chunk :: reads) ⟨rest.result, chunk.1 :: rest.ingested, rest.reads + 1⟩ := by
  obtain ⟨hresult, hpipe, hstop, hflush, hreads⟩ := h
  rw [iterate_eq] at hpipe hstop hflush
  refine ⟨?_, hpipe, hstop, hflush, ?_⟩
  · rw [hresult, run, if_neg hne]
  · rw [← hreads, List.take_succ_cons, run, if_neg hne]

/-- **The trace accounts for the loop**, on any reads. -/
theorem accounts_runTraced : ∀ (reads : List (Except IoErrorKind Chunk)) (l : Loop σ),
    Traced.Accounts c S k l reads (l.runTraced c S k reads)
  | [], l => accounts_finish c S k l rfl rfl
  | .ok chunk :: reads, l => by
    rw [runTraced]
    by_cases h0 : chunk.1.length = 0
    · have hrun (more : List (Except IoErrorKind Chunk)) : l.run c S k (.ok chunk :: more) = l.finish S := by
        rw [run, if_pos h0]
      rw [if_pos h0]
      exact accounts_finish c S k l (hrun reads) (hrun [])
    · rw [if_neg h0]
      exact accounts_iterate c S k l h0 (accounts_runTraced reads _)
  | .error .connectionReset :: _, l => accounts_finish c S k l rfl rfl
  | .error .unexpectedEof :: _, l => accounts_finish c S k l rfl rfl
  | .error .other :: _, l => ⟨rfl, rfl, fun _ _ => rfl, fun h => absurd rfl (h .other), rfl⟩

end Loop

/-! ## Datagrams -/

/-- `UdpSource::read`: `recv_from` leaves the datagram in the buffer, cut to its size. -/
def UdpSource.read (datagram : List TimedByte) : Chunk := ⟨datagram.take readBufLen, List.length_take_le _ _⟩

theorem udpRead_of_le {datagram : List TimedByte} (h : datagram.length ≤ readBufLen) :
    (UdpSource.read datagram).1 = datagram := List.take_of_length_le h

/-- What the loop does with datagrams, before the socket reports an error. -/
theorem runTraced_udp (c : Crates) (S : Storage σ ε) (k : UInt64) (kind : IoErrorKind)
    (later : List (Except IoErrorKind Chunk)) : ∀ (datagrams : List (List TimedByte)) (l : Loop σ),
    (∀ d ∈ datagrams, d.length ≤ readBufLen) →
    let run := l.runTraced c S k (datagrams.map (fun d => .ok (UdpSource.read d)) ++ .error kind :: later)
    run.ingested = datagrams.takeWhile (· ≠ []) ∧ run.reads = (datagrams.takeWhile (· ≠ [])).length + 1
  | [], l, _ => by cases kind <;> exact ⟨rfl, rfl⟩
  | d :: datagrams, l, h => by
    have hd : (UdpSource.read d).1 = d := udpRead_of_le (h d List.mem_cons_self)
    intro run
    have hrun : run = Loop.runTraced c S k l (.ok (UdpSource.read d)
      :: (datagrams.map (fun d => .ok (UdpSource.read d)) ++ .error kind :: later)) := rfl
    rw [hrun, Loop.runTraced, hd]
    by_cases hnil : d = []
    · subst hnil
      exact ⟨rfl, rfl⟩
    · rw [if_neg (fun h0 => hnil (List.length_eq_zero_iff.1 h0)), List.takeWhile_cons_of_pos (by simpa using hnil)]
      obtain ⟨hin, hreads⟩ := runTraced_udp c S k kind later datagrams (l.iterate c S k d)
        (fun x hx => h x (List.mem_cons_of_mem d hx))
      exact ⟨congrArg (d :: ·) hin, congrArg (· + 1) hreads⟩

/-! ## Where the loop stops -/

section TakeWhile

variable {α : Type}

theorem length_le_takeWhile_iff : ∀ ds : List (List α),
    ds.length ≤ (ds.takeWhile (· ≠ [])).length + 1 ↔ ∀ d ∈ ds.dropLast, d ≠ []
  | [] => by simp
  | [d] => by simp
  | d :: d' :: ds => by
    have ih := length_le_takeWhile_iff (d' :: ds)
    by_cases hd : d = []
    · subst hd
      simp
    · rw [List.takeWhile_cons_of_pos (by simpa using hd), List.dropLast_cons_of_ne_nil (List.cons_ne_nil d' ds),
        List.forall_mem_cons, ← ih, List.length_cons, List.length_cons (a := d)]
      exact ⟨fun h => ⟨hd, Nat.le_of_succ_le_succ h⟩, fun h => Nat.succ_le_succ h.2⟩

theorem flatten_takeWhile : ∀ {ds : List (List α)}, (∀ d ∈ ds.dropLast, d ≠ []) →
    (ds.takeWhile (· ≠ [])).flatten = ds.flatten
  | [], _ => rfl
  | [d], _ => by cases d <;> rfl
  | d :: d' :: ds, h => by
    rw [List.dropLast_cons_of_ne_nil (List.cons_ne_nil d' ds), List.forall_mem_cons] at h
    rw [List.takeWhile_cons_of_pos (by simpa using h.1), List.flatten_cons, flatten_takeWhile h.2]
    rfl

end TakeWhile

/-- **The host ingests every datagram exactly when none but the last is empty.**  Whatever the storage does, the slices
its loop ingests (the pipeline and the storage it reaches account for them) are then the datagrams in order, and it
reads them all; behind an empty datagram it reads no further. -/
theorem udp_ingests_iff (c : Crates) (S : Storage σ ε) (statsInterval : UInt64) (l : Loop σ)
    {datagrams : List (List TimedByte)} (hlen : ∀ d ∈ datagrams, d.length ≤ 4096) (kind : IoErrorKind)
    (later : List (Except IoErrorKind Chunk)) :
    let reads := datagrams.map (fun d => .ok (UdpSource.read d)) ++ .error kind :: later
    let run := l.runTraced c S statsInterval reads
    run.Accounts c S statsInterval l reads ∧
    ((run.ingested.flatten = datagrams.flatten ∧ datagrams.length ≤ run.reads) ↔ ∀ d ∈ datagrams.dropLast, d ≠ []) := by
  intro reads run
  obtain ⟨hin, hreads⟩ := runTraced_udp c S statsInterval kind later datagrams l hlen
  refine ⟨Loop.accounts_runTraced c S statsInterval reads l, ?_⟩
  rw [hin, hreads, length_le_takeWhile_iff]
  exact ⟨fun h => h.2, fun h => ⟨flatten_takeWhile h, h⟩⟩

/-- A datagram of one heartbeat. -/
def heartbeatDatagram : List TimedByte := [3, 1, 1, 1, 1, 1, 1, 1, 1, 3, 165, 125, 0].map (⟨·, 7⟩)

/-- A host on an empty capturing storage. -/
def capturingLoop : Loop (List UInt8 × UInt32) := ⟨Pipeline.new .allowAll, ([], 0), 0, []⟩

/-- A heartbeat, and an empty datagram behind it: the heartbeat is counted, and flushed by its drain and at the end. -/
theorem udp_ingests_heartbeat :
    let run := capturingLoop.runTraced Crates.documented capturingStorage 0
      ([heartbeatDatagram, []].map (fun d => .ok (UdpSource.read d)) ++ [.error .other])
    run.ingested.flatten = heartbeatDatagram ∧ 2 ≤ run.reads ∧
    run.result.1.pipeline = (after Crates.documented capturingStorage (Pipeline.new .allowAll, ([], 0))
      (ingestCalls run.ingested)).1 ∧
    run.result.1.pipeline.stats = { Stats.default with ok := 1, queueHighWater := 1 } ∧
    run.result.1.storage.2 = 2 := by
  obtain ⟨haccounts, hiff⟩ := udp_ingests_iff Crates.documented capturingStorage 0 capturingLoop
    (by decide : ∀ d ∈ [heartbeatDatagram, []], d.length ≤ 4096) .other []
  obtain ⟨hin, hreads⟩ := hiff.2 (by decide)
  refine ⟨hin, hreads, haccounts.pipeline, ?_⟩
  decide +kernel

/-- **An empty datagram stops the host.**  The heartbeat behind it is never read, and the loop ends well; without the
empty datagram it is counted. -/
theorem empty_datagram_stops :
    let reads := [[], heartbeatDatagram].map (fun d => .ok (UdpSource.read d)) ++ [.error .other]
    let run := capturingLoop.runTraced Crates.documented capturingStorage 0 reads
    (∀ d ∈ [[], heartbeatDatagram], d.length ≤ 4096) ∧
    run.ingested.flatten ≠ [[], heartbeatDatagram].flatten ∧ run.reads = 1 ∧
    (runLoop Crates.documented capturingStorage 0 (Pipeline.new .allowAll) ([], 0) reads).2 = .ok () ∧
    (runLoop Crates.documented capturingStorage 0 (Pipeline.new .allowAll) ([], 0) reads).1.pipeline
      = Pipeline.new .allowAll ∧
    (runLoop Crates.documented capturingStorage 0 (Pipeline.new .allowAll) ([], 0) (reads.drop 1)).1.pipeline.stats.ok
      = 1 := by
  decide +kernel

end Telemetry
