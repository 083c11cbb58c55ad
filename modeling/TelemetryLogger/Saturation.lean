import TelemetryLogger.Occupancy
/-!
# Saturation — the counters at the end of their range

The `u64` counters are incremented by `+= 1`: a release build wraps, a debug build aborts.  The code is written here
once more with the increment of the build profile; `stepIn_release` says it is the pipeline's code.  In either profile a
call keeps every counter from going back exactly when no counter is incremented past its range
(`counters_never_go_back_iff`).
-/
namespace Telemetry

variable {N Q : Nat} {σ ε : Type}

/-! ## The code under a build profile -/

inductive Profile
  | debug
  | release
  deriving DecidableEq

def u64Max : UInt64 := 0xFFFFFFFFFFFFFFFF

/-- `n += 1`: `none` is an abort. -/
def Profile.increment : Profile → UInt64 → Option UInt64
  | .debug, n => if n = u64Max then none else some (n + 1)
  | .release, n => some (n + 1)

def RingBuf.pushIn (profile : Profile) (rb : RingBuf Q) (record : StoredRecord) :
    Option (RingBuf Q × Except Unit Unit) :=
  if rb.queue.isFull then
    (profile.increment rb.overflowCount).map fun n => ({ rb with overflowCount := n }, .error ())
  else
    match rb.queue.pushBack record with
    | none => some (rb, .error ())
    | some queue =>
      let len := UInt32.ofNat queue.len
      some ({ rb with queue := queue, highWater := if len > rb.highWater then len else rb.highWater }, .ok ())

namespace Pipeline

def enqueueIn (profile : Profile) (p : Pipeline N Q) (frame : Frame) (now : UInt64) : Option (Pipeline N Q) :=
  (p.ringbuf.pushIn profile (recordOf frame now)).bind fun
    | (ringbuf, .ok _) =>
      (profile.increment p.stats.ok).map fun n =>
        let stats := { p.stats with ok := n }
        let hw := ringbuf.highWater
        { p with
          ringbuf := ringbuf
          stats := if hw > stats.queueHighWater then { stats with queueHighWater := hw } else stats }
    | (ringbuf, .error _) =>
      (profile.increment p.stats.dropped).map fun n =>
        { p with ringbuf := ringbuf, stats := { p.stats with dropped := n } }

def onCompleteIn (profile : Profile) (c : Crates) (p : Pipeline N Q) (frame : Frame) (now : UInt64) :
    Option (Pipeline N Q) :=
  match p.validator.check c frame with
  | (validator, .accepted frame) =>
    let p := { p with validator := validator }
    if p.filter.allow frame then p.enqueueIn profile frame now
    else (profile.increment p.stats.filtered).map fun n => { p with stats := { p.stats with filtered := n } }
  | (validator, .rejected reason) =>
    let p := { p with validator := validator }
    match reason with
    | .crc _ _ | .badLength =>
      (profile.increment p.stats.crcFail).map fun n => { p with stats := { p.stats with crcFail := n } }
    | .sequenceGap _ _ =>
      (profile.increment p.stats.seqGap).map fun n => { p with stats := { p.stats with seqGap := n } }
    | .filtered =>
      (profile.increment p.stats.filtered).map fun n => { p with stats := { p.stats with filtered := n } }

def ingestByteIn (profile : Profile) (c : Crates) (p : Pipeline N Q) (b : TimedByte) : Option (Pipeline N Q) :=
  match p.framer.feed c b.byte with
  | (framer, .complete frame) => onCompleteIn profile c { p with framer := framer } frame b.now
  | (framer, .overflow) | (framer, .cobsError) | (framer, .parseError) =>
    (profile.increment p.stats.crcFail).map fun n =>
      { p with framer := framer, stats := { p.stats with crcFail := n } }
  | (framer, .incomplete) => some { p with framer := framer }

def ingestIn (profile : Profile) (c : Crates) : Pipeline N Q → List TimedByte → Option (Pipeline N Q)
  | p, [] => some p
  | p, b :: bytes => (p.ingestByteIn profile c b).bind fun p => ingestIn profile c p bytes

def drainLoopIn (profile : Profile) (c : Crates) (S : Storage σ ε) (p : Pipeline N Q) (s : σ) (count : Nat) :
    Option (Pipeline N Q × σ × Except Error Nat) :=
  match _hpop : p.ringbuf.pop with
  | none => some (p, s, .ok count)
  | some (record, ringbuf) =>
    match Record.encode c record maxStoredRecordBytes with
    | .error _ => some ({ p with ringbuf := ringbuf }, s, .error .codec)
    | .ok data =>
      match S.write s data with
      | (s, .error _) =>
        (profile.increment p.stats.writeFail).map fun n =>
          ({ p with ringbuf := ringbuf, stats := { p.stats with writeFail := n } }, s, .error .storage)
      | (s, .ok _) => drainLoopIn profile c S { p with ringbuf := ringbuf } s (count + 1)
  termination_by p.ringbuf.len
  decreasing_by
    rw [RingBuf.len, RingBuf.len, Heapless.Deque.len, Heapless.Deque.len, queue_of_pop _hpop]
    exact Nat.lt_succ_self _

def drainIn (profile : Profile) (c : Crates) (S : Storage σ ε) (p : Pipeline N Q) (s : σ) :
    Option (Pipeline N Q × σ × Except Error Nat) :=
  (p.drainLoopIn profile c S s 0).bind fun
    | (p, s, .error e) => some (p, s, .error e)
    | (p, s, .ok count) =>
      match S.flush s with
      | (s, .error _) =>
        (profile.increment p.stats.writeFail).map fun n =>
          ({ p with stats := { p.stats with writeFail := n } }, s, .error .storage)
      | (s, .ok _) => some (p, s, .ok count)

end Pipeline

def stepIn (profile : Profile) (c : Crates) (S : Storage σ ε) (x : Pipeline N Q × σ) :
    Call → Option (Pipeline N Q × σ)
  | .ingest bytes => (x.1.ingestIn profile c bytes).map fun p => (p, x.2)
  | .drain => (x.1.drainIn profile c S x.2).map fun r => (r.1, r.2.1)

/-! ## What a call increments -/

inductive Tally
  | ok | dropped | crcFail | seqGap | filtered | writeFail | overflow
  deriving DecidableEq

def Pipeline.tally (p : Pipeline N Q) : Tally → UInt64
  | .ok => p.stats.ok
  | .dropped => p.stats.dropped
  | .crcFail => p.stats.crcFail
  | .seqGap => p.stats.seqGap
  | .filtered => p.stats.filtered
  | .writeFail => p.stats.writeFail
  | .overflow => p.ringbuf.overflowCount

/-- The counters a complete frame increments. -/
def frameTicks (c : Crates) (p : Pipeline N Q) (f : Frame) : List Tally :=
  match (p.validator.check c f).2 with
  | .accepted f =>
    if p.filter.allow f then (if p.ringbuf.queue.isFull then [.overflow, .dropped] else [.ok]) else [.filtered]
  | .rejected (.crc _ _) | .rejected .badLength => [.crcFail]
  | .rejected (.sequenceGap _ _) => [.seqGap]
  | .rejected .filtered => [.filtered]

def byteTicks (c : Crates) (p : Pipeline N Q) (b : TimedByte) : List Tally :=
  match (p.framer.feed c b.byte).2 with
  | .complete f => frameTicks c p f
  | .overflow | .cobsError | .parseError => [.crcFail]
  | .incomplete => []

def ingestTicks (c : Crates) : Pipeline N Q → List TimedByte → List Tally
  | _, [] => []
  | p, b :: bytes => byteTicks c p b ++ ingestTicks c (p.ingestByte c b) bytes

/-- A drain of these records meets a failing write or flush. -/
def storageFails (c : Crates) (S : Storage σ ε) : List StoredRecord → σ → Bool
  | [], s => !(S.flush s).2.isOk
  | record :: rest, s =>
    match Record.encode c record maxStoredRecordBytes with
    | .error _ => false
    | .ok data =>
      match S.write s data with
      | (_, .error _) => true
      | (s, .ok _) => storageFails c S rest s

def callTicks (c : Crates) (S : Storage σ ε) (x : Pipeline N Q × σ) : Call → List Tally
  | .ingest bytes => ingestTicks c x.1 bytes
  | .drain => if storageFails c S x.1.queued x.2 then [.writeFail] else []

/-- **Room for these increments**: no counter leaves its range. -/
def Room (p : Pipeline N Q) (ks : List Tally) : Prop := ∀ k, (p.tally k).toNat + ks.count k < 2 ^ 64

/-- **No counter goes back**, and one at the end of its range stays there. -/
def NeverBack (p p' : Pipeline N Q) : Prop :=
  ∀ k, p.tally k ≤ p'.tally k ∧ (p.tally k = u64Max → p'.tally k = u64Max)

/-! ## One increment, and many -/

/-- **What code that increments the counters `ks` does**: it aborts in a debug build when there is no room for them, and
goes from `p` to `p'` otherwise. -/
structure Increments (profile : Profile) (p p' : Pipeline N Q) (result : Option (Pipeline N Q)) (ks : List Tally) :
    Prop where
  done : (profile = .debug → Room p ks) → result = some p'
  abort : profile = .debug → ¬ Room p ks → result = none
  tally : ∀ k, p'.tally k = p.tally k + UInt64.ofNat (ks.count k)

variable {profile : Profile} {p p' p'' : Pipeline N Q} {r : Option (Pipeline N Q)} {ks ks' : List Tally}

theorem toNat_lt_max {n : UInt64} (h : n ≠ u64Max) : n.toNat + 1 < 2 ^ 64 := by
  have hlt := n.toNat_lt
  have hne : n.toNat ≠ 2 ^ 64 - 1 := fun he => h (UInt64.toNat_inj.1 he)
  omega

theorem room_nil (p : Pipeline N Q) : Room p [] := fun k => (p.tally k).toNat_lt

theorem room_singleton (p : Pipeline N Q) (k : Tally) : Room p [k] ↔ p.tally k ≠ u64Max := by
  constructor
  · intro h hmax
    have hk := h k
    rw [hmax, List.count_singleton_self] at hk
    exact absurd hk (by decide)
  · intro h j
    rw [List.count_singleton]
    split
    · rename_i hj
      rw [← beq_iff_eq.1 hj]
      exact toNat_lt_max h
    · exact (p.tally j).toNat_lt

theorem Increments.toNat_tally (h : Increments profile p p' r ks) (hroom : Room p ks) (k : Tally) :
    (p'.tally k).toNat = (p.tally k).toNat + ks.count k := by
  have hk := hroom k
  rw [h.tally, UInt64.toNat_add, UInt64.toNat_ofNat', Nat.add_mod_mod, Nat.mod_eq_of_lt hk]

theorem Increments.room_append (h : Increments profile p p' r ks) :
    Room p (ks ++ ks') ↔ Room p ks ∧ Room p' ks' := by
  constructor
  · intro hroom
    have hks : Room p ks := fun k => by
      have := hroom k
      rw [List.count_append] at this
      omega
    refine ⟨hks, fun k => ?_⟩
    have := hroom k
    rw [List.count_append] at this
    rw [h.toNat_tally hks]
    omega
  · rintro ⟨hks, hks'⟩ k
    have := hks' k
    rw [h.toNat_tally hks] at this
    rw [List.count_append]
    omega

/-- **One piece of code after another.** -/
theorem Increments.bind {f : Pipeline N Q → Option (Pipeline N Q)} (h : Increments profile p p' r ks)
    (h' : Increments profile p' p'' (f p') ks') : Increments profile p p'' (r.bind f) (ks ++ ks') where
  done hroom := by
    have hrooms := fun hd => h.room_append.1 (hroom hd)
    rw [h.done (fun hd => (hrooms hd).1), Option.bind_some, h'.done (fun hd => (hrooms hd).2)]
  abort hd hroom := by
    by_cases hks : Room p ks
    · rw [h.done (fun _ => hks), Option.bind_some, h'.abort hd (fun hks' => hroom (h.room_append.2 ⟨hks, hks'⟩))]
    · rw [h.abort hd hks, Option.bind_none]
  tally k := by rw [h'.tally, h.tally, List.count_append, UInt64.ofNat_add, UInt64.add_assoc]

theorem increments_none (h : ∀ k, p'.tally k = p.tally k) : Increments profile p p' (some p') [] where
  done _ := rfl
  abort _ hroom := absurd (room_nil p) hroom
  tally k := (h k).trans (UInt64.add_zero _).symm

theorem Profile.map_increment {α : Type} (profile : Profile) (n : UInt64) (f : UInt64 → α) :
    (profile.increment n).map f = (profile.increment n).map fun _ => f (n + 1) := by
  cases profile with
  | debug =>
    rw [increment]
    split <;> rfl
  | release => rfl

theorem increments_tally {k : Tally} (hr : r = (profile.increment (p.tally k)).map fun _ => p')
    (ht : ∀ j, p'.tally j = if j = k then p.tally k + 1 else p.tally j) : Increments profile p p' r [k] := by
  subst hr
  refine ⟨fun hroom => ?_, fun hd hroom => ?_, fun j => ?_⟩
  · cases profile with
    | release => rfl
    | debug =>
      rw [Profile.increment, if_neg ((room_singleton p k).1 (hroom rfl))]
      rfl
  · subst hd
    rw [Profile.increment, if_pos (Decidable.not_not.1 fun h => hroom ((room_singleton p k).2 h))]
    rfl
  · rw [ht, List.count_singleton]
    by_cases hj : j = k
    · subst hj
      rw [if_pos rfl, beq_self_eq_true, if_pos rfl]
      rfl
    · rw [if_neg hj, if_neg (fun h => hj (beq_iff_eq.1 h).symm)]
      exact (UInt64.add_zero _).symm

theorem increments_one {k : Tally} {f : UInt64 → Pipeline N Q} (hr : r = (profile.increment (p.tally k)).map f)
    (hp : p' = f (p.tally k + 1)) (hf : ∀ m j, (f m).tally j = if j = k then m else p.tally j) :
    Increments profile p p' r [k] := by
  subst hp
  rw [profile.map_increment] at hr
  exact increments_tally hr (hf _)

/-! ## The calls -/

theorem RingBuf.pushIn_of_not_full (profile : Profile) (rb : RingBuf Q) (r : StoredRecord)
    (h : rb.queue.isFull = false) : ∃ rb', rb.push r = (rb', .ok ()) ∧ rb.pushIn profile r = some (rb', .ok ()) ∧
      rb'.overflowCount = rb.overflowCount := by
  unfold push pushIn
  rw [h, Heapless.Deque.pushBack_of_not_full rb.queue r h]
  exact ⟨_, rfl, rfl, rfl⟩

theorem enqueueIn_increments (profile : Profile) (p : Pipeline N Q) (f : Frame) (now : UInt64) :
    Increments profile p (p.enqueue f now) (p.enqueueIn profile f now)
      (if p.ringbuf.queue.isFull then [.overflow, .dropped] else [.ok]) := by
  unfold Pipeline.enqueue Pipeline.enqueueIn
  cases hfull : p.ringbuf.queue.isFull with
  | true =>
    -- the ring buffer counts first, then the statistics
    let counted := fun n => { p with ringbuf := { p.ringbuf with overflowCount := n } }
    let dropped := fun (p : Pipeline N Q) n => { p with stats := { p.stats with dropped := n } }
    have hoverflow : Increments profile p (counted (p.ringbuf.overflowCount + 1))
        ((profile.increment p.ringbuf.overflowCount).map counted) [.overflow] :=
      increments_one rfl rfl (fun _ j => by cases j <;> rfl)
    have hdropped : Increments profile (counted (p.ringbuf.overflowCount + 1)) (dropped _ (p.stats.dropped + 1)) _
        [.dropped] := increments_one (f := dropped _) rfl rfl (fun _ j => by cases j <;> rfl)
    have hboth := hoverflow.bind (f := fun p => (profile.increment p.stats.dropped).map (dropped p)) hdropped
    rw [RingBuf.push_of_full _ _ hfull, RingBuf.pushIn, hfull]
    simp only [if_true]
    refine ⟨fun h => Eq.trans ?_ (hboth.done h), fun hd h => Eq.trans ?_ (hboth.abort hd h), hboth.tally⟩ <;>
      cases profile.increment p.ringbuf.overflowCount <;> rfl
  | false =>
    obtain ⟨rb, hpush, hpushIn, hoverflow⟩ := p.ringbuf.pushIn_of_not_full profile (recordOf f now) hfull
    let stored := fun n => { p with
      ringbuf := rb
      stats := if rb.highWater > p.stats.queueHighWater then { p.stats with ok := n, queueHighWater := rb.highWater }
        else { p.stats with ok := n } }
    rw [hpush, hpushIn]
    refine increments_one (k := .ok) (f := stored) rfl rfl (fun m j => ?_)
    by_cases hgt : rb.highWater > p.stats.queueHighWater <;>
      cases j <;> simp [stored, Pipeline.tally, hgt, hoverflow]

theorem onCompleteIn_increments (profile : Profile) (c : Crates) (p : Pipeline N Q) (f : Frame) (now : UInt64) :
    Increments profile p (p.onComplete c f now) (p.onCompleteIn profile c f now) (frameTicks c p f) := by
  unfold Pipeline.onComplete Pipeline.onCompleteIn frameTicks
  rcases p.validator.check c f with ⟨v, outcome⟩
  cases outcome with
  | accepted g =>
    simp only
    split
    · have h := enqueueIn_increments profile { p with validator := v } g now
      exact ⟨h.done, h.abort, h.tally⟩
    · exact increments_one (k := .filtered) rfl rfl (fun _ j => by cases j <;> rfl)
  | rejected reason =>
    simp only
    cases reason with
    | crc expected actual | badLength =>
      exact increments_one (k := .crcFail) rfl rfl (fun _ j => by cases j <;> rfl)
    | sequenceGap expected got =>
      exact increments_one (k := .seqGap) rfl rfl (fun _ j => by cases j <;> rfl)
    | filtered =>
      exact increments_one (k := .filtered) rfl rfl (fun _ j => by cases j <;> rfl)

/-- **One byte** increments what its frame says, in order. -/
theorem ingestByteIn_increments (profile : Profile) (c : Crates) (p : Pipeline N Q) (b : TimedByte) :
    Increments profile p (p.ingestByte c b) (p.ingestByteIn profile c b) (byteTicks c p b) := by
  unfold Pipeline.ingestByte Pipeline.ingestByteIn byteTicks
  rcases p.framer.feed c b.byte with ⟨framer, o⟩
  cases o with
  | complete f =>
    have h := onCompleteIn_increments profile c { p with framer := framer } f b.now
    exact ⟨h.done, h.abort, h.tally⟩
  | incomplete => exact increments_none (fun k => by cases k <;> rfl)
  | overflow | cobsError | parseError =>
    exact increments_one (k := .crcFail) rfl rfl (fun _ j => by cases j <;> rfl)

theorem ingestIn_increments (profile : Profile) (c : Crates) : ∀ (bytes : List TimedByte) (p : Pipeline N Q),
    Increments profile p (p.ingest c bytes) (p.ingestIn profile c bytes) (ingestTicks c p bytes)
  | [], _ => increments_none (fun _ => rfl)
  | b :: bytes, p =>
    (ingestByteIn_increments profile c p b).bind (ingestIn_increments profile c bytes (p.ingestByte c b))

/-- A byte increments a counter at most once. -/
theorem count_byteTicks_le (c : Crates) (p : Pipeline N Q) (b : TimedByte) (k : Tally) :
    (byteTicks c p b).count k ≤ 1 := by
  have hone : ∀ j : Tally, [j].count k ≤ 1 := fun j => List.count_le_length
  have htwo : [Tally.overflow, Tally.dropped].count k ≤ 1 := by cases k <;> decide
  unfold byteTicks frameTicks
  repeat' split
  all_goals first | exact hone _ | exact htwo | exact Nat.zero_le 1

theorem count_ingestTicks_le (c : Crates) (k : Tally) : ∀ (bytes : List TimedByte) (p : Pipeline N Q),
    (ingestTicks c p bytes).count k ≤ bytes.length
  | [], _ => Nat.le_refl 0
  | b :: bytes, p => by
    have hb := count_byteTicks_le c p b k
    have hrest := count_ingestTicks_le c k bytes (p.ingestByte c b)
    rw [ingestTicks, List.count_append, List.length_cons]
    omega

/-! ## A drain -/

def storageFailed : Except Error Nat → Bool
  | .error .storage => true
  | _ => false

/-- Before the flush, the loop has met a failing write or goes on to flush. -/
def endsFailing (S : Storage σ ε) (s : σ) (result : Except Error Nat) : Bool :=
  match result with
  | .ok _ => !(S.flush s).2.isOk
  | .error .storage => true
  | .error _ => false

theorem drainLoop_of_pop {c : Crates} {S : Storage σ ε} {p : Pipeline N Q} {s : σ} {count : Nat} {record : StoredRecord}
    {rb : RingBuf Q} (h : p.ringbuf.pop = some (record, rb)) :
    p.drainLoop c S s count = match Record.encode c record maxStoredRecordBytes with
      | .error _ => ({ p with ringbuf := rb }, s, .error .codec)
      | .ok data =>
        match S.write s data with
        | (s, .error _) =>
          ({ p with ringbuf := rb, stats := { p.stats with writeFail := p.stats.writeFail + 1 } }, s, .error .storage)
        | (s, .ok _) => ({ p with ringbuf := rb } : Pipeline N Q).drainLoop c S s (count + 1) := by
  rw [Pipeline.drainLoop]
  split
  · rename_i hpop
    rw [h] at hpop
    cases hpop
  · rename_i record' rb' hpop
    rw [h] at hpop
    cases hpop
    rfl

theorem drainLoopIn_of_none {c : Crates} {S : Storage σ ε} {p : Pipeline N Q} {s : σ} {count : Nat}
    (h : p.ringbuf.pop = none) : p.drainLoopIn profile c S s count = some (p, s, .ok count) := by
  rw [Pipeline.drainLoopIn]
  split
  · rfl
  · rename_i hpop
    rw [h] at hpop
    cases hpop

theorem drainLoopIn_of_pop {c : Crates} {S : Storage σ ε} {p : Pipeline N Q} {s : σ} {count : Nat}
    {record : StoredRecord} {rb : RingBuf Q} (h : p.ringbuf.pop = some (record, rb)) :
    p.drainLoopIn profile c S s count = match Record.encode c record maxStoredRecordBytes with
      | .error _ => some ({ p with ringbuf := rb }, s, .error .codec)
      | .ok data =>
        match S.write s data with
        | (s, .error _) =>
          (profile.increment p.stats.writeFail).map fun n =>
            ({ p with ringbuf := rb, stats := { p.stats with writeFail := n } }, s, .error .storage)
        | (s, .ok _) => ({ p with ringbuf := rb } : Pipeline N Q).drainLoopIn profile c S s (count + 1) := by
  rw [Pipeline.drainLoopIn]
  split
  · rename_i hpop
    rw [h] at hpop
    cases hpop
  · rename_i record' rb' hpop
    rw [h] at hpop
    cases hpop
    rfl

/-- **The loop of a drain**: a failing write increments `writeFail` and ends it, and nothing else counts. -/
theorem drainLoopIn_spec (profile : Profile) (c : Crates) (S : Storage σ ε) :
    ∀ (records : List StoredRecord) (p : Pipeline N Q) (s : σ) (count : Nat), p.queued = records →
      p.drainLoopIn profile c S s count = (if storageFailed (p.drainLoop c S s count).2.2 then
          (profile.increment p.stats.writeFail).map fun _ => p.drainLoop c S s count
        else some (p.drainLoop c S s count)) ∧
      (∀ k, (p.drainLoop c S s count).1.tally k = if k = .writeFail ∧ storageFailed (p.drainLoop c S s count).2.2 then
        p.stats.writeFail + 1 else p.tally k) ∧
      storageFails c S records s = endsFailing S (p.drainLoop c S s count).2.1 (p.drainLoop c S s count).2.2
  | [], p, s, count, h => by
    rw [drainLoopIn_of_none (pop_of_nil h), drainLoop_of_none (pop_of_nil h)]
    exact ⟨rfl, fun k => by simp [storageFailed], rfl⟩
  | record :: rest, p, s, count, h => by
    obtain ⟨rb, hpop, hrb⟩ := pop_of_cons h
    have htally : ∀ k, ({ p with ringbuf := rb } : Pipeline N Q).tally k = p.tally k := by
      intro k
      cases k <;> first | rfl | exact (gauges_of_pop hpop).2
    rw [drainLoopIn_of_pop hpop, drainLoop_of_pop hpop, storageFails]
    cases Record.encode c record maxStoredRecordBytes with
    | error e => exact ⟨rfl, fun k => by simpa [storageFailed] using htally k, rfl⟩
    | ok data =>
      obtain ⟨s', result, hwrite⟩ : ∃ s' result, S.write s data = (s', result) := ⟨_, _, rfl⟩
      simp only [hwrite]
      cases result with
      | error e =>
        refine ⟨?_, fun k => ?_, rfl⟩
        · rw [storageFailed, if_pos rfl]
          exact profile.map_increment _ _
        · cases k with
          | overflow => simpa [storageFailed, Pipeline.tally] using htally .overflow
          | _ => simp [storageFailed, Pipeline.tally]
      | ok u =>
        obtain ⟨hloop, hk, hfails⟩ := drainLoopIn_spec profile c S rest { p with ringbuf := rb } s' (count + 1) hrb
        refine ⟨hloop, fun k => ?_, hfails⟩
        rw [hk, htally]

/-- **A drain** increments `writeFail` exactly when a write or the flush fails. -/
theorem drainIn_spec (profile : Profile) (c : Crates) (S : Storage σ ε) (p : Pipeline N Q) (s : σ) :
    p.drainIn profile c S s = (if storageFails c S p.queued s then
        (profile.increment p.stats.writeFail).map fun _ => p.drain c S s
      else some (p.drain c S s)) ∧
    ∀ k, (p.drain c S s).1.tally k
      = if k = .writeFail ∧ storageFails c S p.queued s then p.stats.writeFail + 1 else p.tally k := by
  obtain ⟨hloop, hk, hfails⟩ := drainLoopIn_spec profile c S p.queued p s 0 rfl
  rw [hfails]
  unfold Pipeline.drainIn Pipeline.drain
  rw [hloop]
  obtain ⟨p', s', result, hout⟩ : ∃ p' s' result, p.drainLoop c S s 0 = (p', s', result) := ⟨_, _, _, rfl⟩
  rw [hout] at hk ⊢
  cases result with
  | error e =>
    cases e with
    | storage =>
      refine ⟨?_, hk⟩
      cases profile.increment p.stats.writeFail <;> rfl
    | _ => exact ⟨rfl, hk⟩
  | ok count =>
    have hsame : ∀ k, p'.tally k = p.tally k := fun k => by simpa [storageFailed] using hk k
    obtain ⟨s'', flushed, hflush⟩ : ∃ s'' flushed, S.flush s' = (s'', flushed) := ⟨_, _, rfl⟩
    simp only [storageFailed, endsFailing, hflush, Option.bind_some, Bool.false_eq_true, if_false]
    cases flushed with
    | error e =>
      have hfail : p'.stats.writeFail = p.stats.writeFail := hsame .writeFail
      refine ⟨?_, fun k => ?_⟩
      · rw [hfail]
        exact profile.map_increment _ _
      · have hthis := hsame k
        cases k <;> simp_all [Pipeline.tally, Except.isOk, Except.toBool]
    | ok u => exact ⟨rfl, fun k => by simpa [Except.isOk, Except.toBool] using hsame k⟩

theorem stepIn_increments (profile : Profile) (c : Crates) (S : Storage σ ε) (x : Pipeline N Q × σ) (call : Call) :
    Increments profile x.1 (step c S x call).1.1 ((stepIn profile c S x call).map Prod.fst) (callTicks c S x call) := by
  cases call with
  | ingest bytes =>
    have h := ingestIn_increments profile c bytes x.1
    have hres : (stepIn profile c S x (.ingest bytes)).map Prod.fst = x.1.ingestIn profile c bytes := by
      rw [stepIn, Option.map_map]
      exact congrFun Option.map_id _
    rw [hres]
    exact h
  | drain =>
    obtain ⟨hres, htally⟩ := drainIn_spec profile c S x.1 x.2
    rw [stepIn, hres, callTicks]
    cases hfails : storageFails c S x.1.queued x.2 with
    | true =>
      rw [hfails] at htally
      refine increments_tally (k := .writeFail) ?_ (fun j => (htally j).trans ?_)
      · simp only [if_true, Option.map_map]
        rfl
      · simp [Pipeline.tally]
    | false =>
      rw [hfails] at htally
      exact increments_none (fun k => (htally k).trans (by simp))

/-- **In a release build this is the pipeline's code.** -/
theorem stepIn_release (c : Crates) (S : Storage σ ε) (x : Pipeline N Q × σ) (call : Call) :
    stepIn .release c S x call = some (step c S x call).1 := by
  cases call with
  | ingest bytes =>
    rw [stepIn, (ingestIn_increments .release c bytes x.1).done (fun h => by cases h)]
    rfl
  | drain =>
    rw [stepIn, (drainIn_spec .release c S x.1 x.2).1]
    split <;> rfl

theorem count_callTicks_le (c : Crates) (S : Storage σ ε) (x : Pipeline N Q × σ) (call : Call) (k : Tally) :
    (callTicks c S x call).count k ≤ max 1 call.bytes.length := by
  cases call with
  | ingest bytes => exact Nat.le_trans (count_ingestTicks_le c k bytes x.1) (Nat.le_max_right _ _)
  | drain =>
    refine Nat.le_trans ?_ (Nat.le_max_left _ _)
    rw [callTicks]
    split
    · exact List.count_le_length
    · exact Nat.zero_le 1

/-- **The counters never go back exactly when a call has room for its increments.**  In a debug build the call otherwise
aborts; in a release build a counter wraps, a slice having fewer than `2 ^ 64` bytes. -/
theorem counters_never_go_back_iff (profile : Profile) (c : Crates) (S : Storage σ ε) (x : Pipeline N Q × σ)
    (call : Call) (hlen : call.bytes.length < 2 ^ 64) :
    (∃ y, stepIn profile c S x call = some y ∧ NeverBack x.1 y.1) ↔ Room x.1 (callTicks c S x call) := by
  have h := stepIn_increments profile c S x call
  constructor
  · rintro ⟨y, hy, hback⟩
    by_contra hroom
    cases profile with
    | debug =>
      have habort := h.abort rfl hroom
      rw [hy] at habort
      cases habort
    | release =>
      have hdone := h.done (fun hd => by cases hd)
      rw [hy, Option.map_some, Option.some.injEq] at hdone
      obtain ⟨k, hk⟩ := not_forall.1 hroom
      -- the counter wraps once, because the call is too short to wrap it twice
      have hcount := count_callTicks_le c S x call k
      have hlt := (x.1.tally k).toNat_lt
      have hwrapped : (y.1.tally k).toNat = (x.1.tally k).toNat + (callTicks c S x call).count k - 2 ^ 64 := by
        rw [hdone, h.tally, UInt64.toNat_add, UInt64.toNat_ofNat']
        omega
      have hle := UInt64.le_iff_toNat_le.1 (hback k).1
      omega
  · intro hroom
    obtain ⟨y, hy, hyp⟩ := Option.map_eq_some_iff.1 (h.done (fun _ => hroom))
    refine ⟨y, hy, fun k => ?_⟩
    have hk := h.toNat_tally hroom k
    rw [hyp]
    refine ⟨UInt64.le_iff_toNat_le.2 (by omega), fun hmax => UInt64.toNat_inj.1 ?_⟩
    have hlt := ((step c S x call).1.1.tally k).toNat_lt
    have hto : u64Max.toNat = 2 ^ 64 - 1 := rfl
    rw [hmax, hto] at hk
    omega

theorem counters_never_go_back_run : ∃ y, stepIn .release Crates.documented capturingStorage
      ((Pipeline.new .allowAll : DefaultPipeline), ([], 0)) (.ingest [⟨1, 0⟩, ⟨0, 0⟩]) = some y ∧
    NeverBack (Pipeline.new .allowAll : DefaultPipeline) y.1 :=
  (counters_never_go_back_iff .release Crates.documented capturingStorage (Pipeline.new .allowAll, ([], 0))
    (.ingest [⟨1, 0⟩, ⟨0, 0⟩]) (by decide)).2 (fun k => by cases k <;> decide +kernel)

/-- One good frame, with `ok` installed at the end of its range: `ok` goes back to zero, or the build aborts. -/
theorem ok_wraps : ∃ (p : DefaultPipeline) (call : Call), p.stats.ok = u64Max ∧
    (stepIn .release Crates.documented capturingStorage (p, ([], 0)) call).map (fun y => y.1.stats.ok) = some 0 ∧
    (stepIn .debug Crates.documented capturingStorage (p, ([], 0)) call).isNone = true :=
  ⟨{ Pipeline.new .allowAll with stats := { Stats.default with ok := u64Max } },
    .ingest ([3, 1, 1, 2, 7, 1, 1, 1, 1, 3, 116, 97, 0].map fun b => ⟨b, 0⟩), rfl, by decide +kernel, by decide +kernel⟩

end Telemetry
