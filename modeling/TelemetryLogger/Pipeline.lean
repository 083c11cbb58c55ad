import TelemetryLogger.Framer
import TelemetryLogger.Record
import TelemetryLogger.Validator
/-!
# Pipeline — filter, queue, counters, `ingest` and `drain` (`filter.rs`, `ringbuf.rs`, `stats.rs`, `pipeline.rs`)

A byte comes with the reading the clock gives while the byte is processed; it is used only when the byte completes an
accepted frame.  `ingestByte` is the body of the loop of `ingest`, `drainLoop` the loop of `drain`.  Counters are `u64`
and wrap.
-/
namespace Telemetry

def defaultMaxFrame : Nat := 512
def hostQueueDepth : Nat := 64

/-! ## The filter -/

def maxFilterTypes : Nat := 8

structure FilterConfig where
  minSeverity : UInt8
  typeAllowlist : Option (Heapless.Vec UInt8 maxFilterTypes)
  deriving DecidableEq

namespace FilterConfig

def allowAll : FilterConfig := ⟨0x00, none⟩

def allow (filter : FilterConfig) (frame : Frame) : Bool :=
  if frame.header.severity < filter.minSeverity then false
  else
    match filter.typeAllowlist with
    | some list => if !list.toList.contains frame.header.packetType then false else true
    | none => true

@[simp] theorem allow_allowAll (frame : Frame) : allowAll.allow frame = true := by
  unfold allow allowAll
  rw [if_neg UInt8.not_lt_zero]

end FilterConfig

/-! ## Counters -/

structure Stats where
  ok : UInt64
  dropped : UInt64
  crcFail : UInt64
  seqGap : UInt64
  filtered : UInt64
  writeFail : UInt64
  queueHighWater : UInt32
  deriving DecidableEq

/-- `u64::saturating_add`. -/
def saturatingAdd (a b : UInt64) : UInt64 := if a.toNat + b.toNat < 2 ^ 64 then a + b else 0xFFFFFFFFFFFFFFFF

namespace Stats

def default : Stats := ⟨0, 0, 0, 0, 0, 0, 0⟩

def totalFramesSeen (s : Stats) : UInt64 :=
  saturatingAdd (saturatingAdd (saturatingAdd (saturatingAdd s.ok s.dropped) s.crcFail) s.seqGap) s.filtered

end Stats

/-! ## The ring buffer -/

structure RingBuf (N : Nat) where
  queue : Heapless.Deque StoredRecord N
  overflowCount : UInt64
  highWater : UInt32
  deriving DecidableEq

namespace RingBuf

variable {N : Nat}

def new : RingBuf N := ⟨Heapless.Deque.new, 0, 0⟩

def push (rb : RingBuf N) (record : StoredRecord) : RingBuf N × Except Unit Unit :=
  if rb.queue.isFull then ({ rb with overflowCount := rb.overflowCount + 1 }, .error ())
  else
    match rb.queue.pushBack record with
    | none => (rb, .error ())
    | some queue =>
      let len := UInt32.ofNat queue.len
      ({ rb with queue := queue, highWater := if len > rb.highWater then len else rb.highWater }, .ok ())

def pop (rb : RingBuf N) : Option (StoredRecord × RingBuf N) :=
  match rb.queue.popFront with
  | none => none
  | some (record, queue) => some (record, { rb with queue := queue })

def len (rb : RingBuf N) : Nat := rb.queue.len

end RingBuf

/-! ## Storage -/

/-- An implementation of the `Storage` trait with states `σ` and errors `ε`. -/
structure Storage (σ ε : Type) where
  write : σ → List UInt8 → σ × Except ε Unit
  flush : σ → σ × Except ε Unit

def capturingStorage : Storage (List UInt8 × UInt32) Unit where
  write s data := ((s.1 ++ data, s.2), .ok ())
  flush s := ((s.1, s.2 + 1), .ok ())

/-- `test_support::FailStorage`. -/
def failStorage : Storage Unit Unit where
  write s _ := (s, .error ())
  flush s := (s, .error ())

/-! ## The pipeline -/

structure TimedByte where
  byte : UInt8
  now : UInt64
  deriving DecidableEq

structure Pipeline (maxFrame queueDepth : Nat) where
  framer : Framer maxFrame
  validator : Validator
  filter : FilterConfig
  ringbuf : RingBuf queueDepth
  stats : Stats
  deriving DecidableEq

abbrev DefaultPipeline : Type := Pipeline defaultMaxFrame hostQueueDepth

def recordOf (frame : Frame) (now : UInt64) : StoredRecord :=
  .v1 ⟨now, frame.header.sequence, frame.header.packetType, frame.header.severity, frame.payload⟩

namespace Pipeline

variable {N Q : Nat}

def new (filter : FilterConfig) : Pipeline N Q := ⟨Framer.new, Validator.new, filter, RingBuf.new, Stats.default⟩

/-- `ingest` on a frame the validator accepted and the filter allows. -/
def enqueue (p : Pipeline N Q) (frame : Frame) (now : UInt64) : Pipeline N Q :=
  match p.ringbuf.push (recordOf frame now) with
  | (ringbuf, .ok _) =>
    let stats := { p.stats with ok := p.stats.ok + 1 }
    let hw := ringbuf.highWater
    { p with
      ringbuf := ringbuf
      stats := if hw > stats.queueHighWater then { stats with queueHighWater := hw } else stats }
  | (ringbuf, .error _) => { p with ringbuf := ringbuf, stats := { p.stats with dropped := p.stats.dropped + 1 } }

/-- `ingest` on a complete frame. -/
def onComplete (c : Crates) (p : Pipeline N Q) (frame : Frame) (now : UInt64) : Pipeline N Q :=
  match p.validator.check c frame with
  | (validator, .accepted frame) =>
    let p := { p with validator := validator }
    if p.filter.allow frame then p.enqueue frame now
    else { p with stats := { p.stats with filtered := p.stats.filtered + 1 } }
  | (validator, .rejected reason) =>
    let p := { p with validator := validator }
    match reason with
    | .crc _ _ | .badLength => { p with stats := { p.stats with crcFail := p.stats.crcFail + 1 } }
    | .sequenceGap _ _ => { p with stats := { p.stats with seqGap := p.stats.seqGap + 1 } }
    | .filtered => { p with stats := { p.stats with filtered := p.stats.filtered + 1 } }

def ingestByte (c : Crates) (p : Pipeline N Q) (b : TimedByte) : Pipeline N Q :=
  match p.framer.feed c b.byte with
  | (framer, .complete frame) => onComplete c { p with framer := framer } frame b.now
  | (framer, .overflow) | (framer, .cobsError) | (framer, .parseError) =>
    { p with framer := framer, stats := { p.stats with crcFail := p.stats.crcFail + 1 } }
  | (framer, .incomplete) => { p with framer := framer }

def ingest (c : Crates) (p : Pipeline N Q) (bytes : List TimedByte) : Pipeline N Q := bytes.foldl (ingestByte c) p

/-- The records waiting for a drain, oldest first. -/
def queued (p : Pipeline N Q) : List StoredRecord := p.ringbuf.queue.toList

theorem queue_of_pop {rb rb' : RingBuf Q} {record : StoredRecord} (h : rb.pop = some (record, rb')) :
    rb.queue.toList = record :: rb'.queue.toList := by
  obtain ⟨⟨queue, hle⟩, oc, hw⟩ := rb
  cases queue with
  | nil => cases h
  | cons a as =>
    cases h
    rfl

def drainLoop {σ ε : Type} (c : Crates) (S : Storage σ ε) (p : Pipeline N Q) (s : σ) (count : Nat) :
    Pipeline N Q × σ × Except Error Nat :=
  match _hpop : p.ringbuf.pop with
  | none => (p, s, .ok count)
  | some (record, ringbuf) =>
    match Record.encode c record maxStoredRecordBytes with
    | .error _ => ({ p with ringbuf := ringbuf }, s, .error .codec)
    | .ok data =>
      match S.write s data with
      | (s, .error _) =>
        ({ p with ringbuf := ringbuf, stats := { p.stats with writeFail := p.stats.writeFail + 1 } }, s,
          .error .storage)
      | (s, .ok _) => drainLoop c S { p with ringbuf := ringbuf } s (count + 1)
  termination_by p.ringbuf.len
  decreasing_by
    rw [RingBuf.len, RingBuf.len, Heapless.Deque.len, Heapless.Deque.len, queue_of_pop _hpop]
    exact Nat.lt_succ_self _

def drain {σ ε : Type} (c : Crates) (S : Storage σ ε) (p : Pipeline N Q) (s : σ) :
    Pipeline N Q × σ × Except Error Nat :=
  match drainLoop c S p s 0 with
  | (p, s, .error e) => (p, s, .error e)
  | (p, s, .ok count) =>
    match S.flush s with
    | (s, .error _) => ({ p with stats := { p.stats with writeFail := p.stats.writeFail + 1 } }, s, .error .storage)
    | (s, .ok _) => (p, s, .ok count)

end Pipeline
end Telemetry
