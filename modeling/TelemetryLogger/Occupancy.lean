import TelemetryLogger.Conserve
/-!
# Occupancy — what the queue's statistics say of its history

The ring buffer and `Stats` each keep the peak of the queue and the number of records it rejected.  Over every run of
calls the two agree, the peak is the greatest length the queue has at any point, inside a call too, and the rejections
are the frames offered to a full queue (`queue_statistics`).
-/
namespace Telemetry

variable {N Q : Nat} {σ ε : Type}

/-! ## The lengths of a run -/

/-- The lengths of the queue after each byte. -/
def ingestLengths (c : Crates) : Pipeline N Q → List TimedByte → List Nat
  | _, [] => []
  | p, b :: bytes => (p.ingestByte c b).queued.length :: ingestLengths c (p.ingestByte c b) bytes

/-- The lengths of the queue after each pop of a drain, which stops at the first failure. -/
def drainLengths (c : Crates) (S : Storage σ ε) : List StoredRecord → σ → List Nat
  | [], _ => []
  | record :: rest, s =>
    rest.length :: match Record.encode c record maxStoredRecordBytes with
      | .error _ => []
      | .ok data =>
        match S.write s data with
        | (_, .error _) => []
        | (s, .ok _) => drainLengths c S rest s

def callLengths (c : Crates) (S : Storage σ ε) (x : Pipeline N Q × σ) : Call → List Nat
  | .ingest bytes => ingestLengths c x.1 bytes
  | .drain => drainLengths c S x.1.queued x.2

/-- **The lengths of the queue at every point of a run.** -/
def lengths (c : Crates) (S : Storage σ ε) : Pipeline N Q × σ → List Call → List Nat
  | x, [] => [x.1.queued.length]
  | x, call :: calls => x.1.queued.length :: (callLengths c S x call ++ lengths c S (step c S x call).1 calls)

/-- **The frames offered to a full queue.** -/
def rejections (h : List (Verdict × Bool)) : Nat :=
  h.countP fun x => match x with
    | (.offer _, full) => full
    | _ => false

theorem rejections_eq_count (h : List (Verdict × Bool)) : rejections h = (classes h).count .dropped := by
  induction h with
  | nil => rfl
  | cons x h ih =>
    obtain ⟨v, full⟩ := x
    rw [classes_cons, ← ih, rejections, List.countP_cons, ← rejections, Nat.add_comm]
    cases v <;> cases full <;> rfl

/-! ## One push -/

theorem RingBuf.push_cases (rb : RingBuf Q) (r : StoredRecord) :
    rb.queue.isFull = true ∧ rb.push r = ({ rb with overflowCount := rb.overflowCount + 1 }, .error ()) ∨
    ∃ queue : Heapless.Deque StoredRecord Q, queue.toList = rb.queue.toList ++ [r] ∧
      rb.push r = (⟨queue, rb.overflowCount,
        if UInt32.ofNat queue.len > rb.highWater then UInt32.ofNat queue.len else rb.highWater⟩, .ok ()) := by
  cases hfull : rb.queue.isFull with
  | true => exact Or.inl ⟨rfl, RingBuf.push_of_full rb r hfull⟩
  | false =>
    refine Or.inr ⟨⟨rb.queue.toList ++ [r], Heapless.length_snoc_le r (rb.queue.length_lt_of_not_full hfull)⟩, rfl, ?_⟩
    unfold RingBuf.push
    rw [hfull, Heapless.Deque.pushBack_of_not_full rb.queue r hfull]
    rfl

/-- **A rejected push leaves the queue as it was.** -/
theorem RingBuf.queue_of_push_error {rb : RingBuf Q} {r : StoredRecord} (h : (rb.push r).2 = .error ()) :
    (rb.push r).1.queue = rb.queue := by
  rcases rb.push_cases r with ⟨-, hpush⟩ | ⟨queue, -, hpush⟩
  · rw [hpush]
  · rw [hpush] at h
    cases h

/-! ## Peaks -/

/-- **From the peak `a` over the lengths `ls` to the peak `b`.** -/
structure Peaks (a b : Nat) (ls : List Nat) : Prop where
  mono : a ≤ b
  bound : ∀ n ∈ ls, n ≤ b
  reached : b = a ∨ b ∈ ls

theorem Peaks.refl {a : Nat} {ls : List Nat} (h : ∀ n ∈ ls, n ≤ a) : Peaks a a ls := ⟨Nat.le_refl a, h, Or.inl rfl⟩

theorem Peaks.stay {a n : Nat} (h : n ≤ a) : Peaks a a [n] := Peaks.refl (List.forall_mem_singleton.2 h)

theorem Peaks.rise {a n : Nat} (h : a ≤ n) : Peaks a n [n] :=
  ⟨h, List.forall_mem_singleton.2 (Nat.le_refl n), Or.inr List.mem_cons_self⟩

theorem Peaks.append {a b d : Nat} {ls ms : List Nat} (h : Peaks a b ls) (h' : Peaks b d ms) : Peaks a d (ls ++ ms) where
  mono := Nat.le_trans h.mono h'.mono
  bound n hn := by
    rcases List.mem_append.1 hn with hl | hm
    · exact Nat.le_trans (h.bound n hl) h'.mono
    · exact h'.bound n hm
  reached := by
    rcases h'.reached with rfl | hm
    · exact h.reached.imp id (List.mem_append_left ms)
    · exact Or.inr (List.mem_append_right ls hm)

/-- **The two records of the queue agree**, and its length is at most the peak. -/
structure Gauges (p : Pipeline N Q) : Prop where
  highWater : p.stats.queueHighWater = p.ringbuf.highWater
  dropped : p.stats.dropped = p.ringbuf.overflowCount
  length_le : p.queued.length ≤ p.ringbuf.highWater.toNat

def Pipeline.peak (p : Pipeline N Q) : Nat := p.ringbuf.highWater.toNat

theorem gauges_new (filter : FilterConfig) : Gauges (Pipeline.new filter : Pipeline N Q) := ⟨rfl, rfl, Nat.le_refl 0⟩

/-- What only touches the front and the counters of the frame. -/
theorem Gauges.of_same {p p' : Pipeline N Q} (h : Gauges p) (hr : p'.ringbuf = p.ringbuf)
    (hw : p'.stats.queueHighWater = p.stats.queueHighWater) (hd : p'.stats.dropped = p.stats.dropped) :
    Gauges p' ∧ Peaks p.peak p'.peak [p'.queued.length] := by
  have hlen : p'.queued = p.queued := congrArg (fun rb : RingBuf Q => rb.queue.toList) hr
  have hpeak : p'.peak = p.peak := congrArg (fun rb : RingBuf Q => rb.highWater.toNat) hr
  refine ⟨⟨by rw [hw, hr, h.highWater], by rw [hd, hr, h.dropped], by rw [hlen, hr]; exact h.length_le⟩, ?_⟩
  rw [hpeak, hlen]
  exact Peaks.stay h.length_le

theorem enqueue_gauges (hQ : Q < 2 ^ 32) {p : Pipeline N Q} (h : Gauges p) (f : Frame) (now : UInt64) :
    Gauges (p.enqueue f now) ∧ Peaks p.peak (p.enqueue f now).peak [(p.enqueue f now).queued.length] := by
  obtain ⟨hw, hd, hlen⟩ := h
  unfold Pipeline.enqueue
  rcases p.ringbuf.push_cases (recordOf f now) with ⟨-, hpush⟩ | ⟨queue, hqueue, hpush⟩
  · rw [hpush]
    exact ⟨⟨hw, congrArg (· + 1) hd, hlen⟩, Peaks.stay hlen⟩
  · -- the new length fits in the width of the peak
    have hto : (UInt32.ofNat queue.len).toNat = queue.len := by
      rw [UInt32.toNat_ofNat']
      exact Nat.mod_eq_of_lt (Nat.lt_of_le_of_lt queue.length_le hQ)
    rw [hpush]
    simp only
    by_cases hgt : UInt32.ofNat queue.len > p.ringbuf.highWater
    · have hgt' : p.ringbuf.highWater.toNat < queue.len := by
        rw [← hto]
        exact UInt32.lt_iff_toNat_lt.1 hgt
      simp only [hw, if_pos hgt]
      refine ⟨⟨rfl, hd, Nat.le_of_eq hto.symm⟩, ?_⟩
      show Peaks _ (UInt32.ofNat queue.len).toNat [queue.len]
      rw [hto]
      exact Peaks.rise (Nat.le_of_lt hgt')
    · have hle : queue.len ≤ p.ringbuf.highWater.toNat := by
        rw [← hto]
        exact UInt32.le_iff_toNat_le.1 (UInt32.not_lt.1 hgt)
      have hirr : ¬ p.ringbuf.highWater > p.ringbuf.highWater := UInt32.lt_irrefl _
      simp only [hw, if_neg hgt, if_neg hirr]
      exact ⟨⟨rfl, hd, hle⟩, Peaks.stay hle⟩

theorem onComplete_gauges (hQ : Q < 2 ^ 32) (c : Crates) {p : Pipeline N Q} (h : Gauges p) (f : Frame) (now : UInt64) :
    Gauges (p.onComplete c f now) ∧ Peaks p.peak (p.onComplete c f now).peak [(p.onComplete c f now).queued.length] := by
  unfold Pipeline.onComplete
  rcases p.validator.check c f with ⟨v, outcome⟩
  cases outcome with
  | accepted g =>
    simp only
    split
    · exact enqueue_gauges hQ (p := { p with validator := v }) ⟨h.highWater, h.dropped, h.length_le⟩ g now
    · exact h.of_same rfl rfl rfl
  | rejected reason => cases reason <;> exact h.of_same rfl rfl rfl

/-- **One byte**: the two records go on agreeing, and the peak follows the length after the byte. -/
theorem ingestByte_gauges (hQ : Q < 2 ^ 32) (c : Crates) {p : Pipeline N Q} (h : Gauges p) (b : TimedByte) :
    Gauges (p.ingestByte c b) ∧ Peaks p.peak (p.ingestByte c b).peak [(p.ingestByte c b).queued.length] := by
  unfold Pipeline.ingestByte
  rcases p.framer.feed c b.byte with ⟨framer, o⟩
  cases o with
  | complete f =>
    exact onComplete_gauges hQ c (p := { p with framer := framer }) ⟨h.highWater, h.dropped, h.length_le⟩ f b.now
  | _ => exact h.of_same rfl rfl rfl

theorem ingest_gauges (hQ : Q < 2 ^ 32) (c : Crates) : ∀ (bytes : List TimedByte) {p : Pipeline N Q}, Gauges p →
    Gauges (p.ingest c bytes) ∧ Peaks p.peak (p.ingest c bytes).peak (ingestLengths c p bytes)
  | [], p, h => ⟨h, Peaks.refl (fun _ hn => absurd hn List.not_mem_nil)⟩
  | b :: bytes, p, h => by
    obtain ⟨hb, hpb⟩ := ingestByte_gauges hQ c h b
    obtain ⟨hrest, hprest⟩ := ingest_gauges hQ c bytes hb
    exact ⟨hrest, hpb.append hprest⟩

/-! ## Drains -/

theorem drainLengths_le (c : Crates) (S : Storage σ ε) : ∀ (records : List StoredRecord) (s : σ),
    ∀ n ∈ drainLengths c S records s, n ≤ records.length
  | [], _, _, hn => absurd hn List.not_mem_nil
  | record :: rest, s, n, hn => by
    rw [drainLengths, List.mem_cons] at hn
    rcases hn with rfl | hn
    · exact Nat.le_succ _
    · split at hn
      · cases hn
      · split at hn
        · cases hn
        · exact Nat.le_succ_of_le (drainLengths_le c S rest _ n hn)

/-- What a drain keeps of the queue's statistics, and where it leaves the queue. -/
structure Drains (p p' : Pipeline N Q) (ls : List Nat) : Prop where
  highWater : p'.ringbuf.highWater = p.ringbuf.highWater
  overflowCount : p'.ringbuf.overflowCount = p.ringbuf.overflowCount
  queueHighWater : p'.stats.queueHighWater = p.stats.queueHighWater
  dropped : p'.stats.dropped = p.stats.dropped
  length : p'.queued.length = ls.getLastD p.queued.length

theorem gauges_of_pop {rb rb' : RingBuf Q} {record : StoredRecord} (h : rb.pop = some (record, rb')) :
    rb'.highWater = rb.highWater ∧ rb'.overflowCount = rb.overflowCount := by
  obtain ⟨⟨queue, hle⟩, oc, hw⟩ := rb
  cases queue with
  | nil => cases h
  | cons a as =>
    cases h
    exact ⟨rfl, rfl⟩

theorem drainLoop_drains (c : Crates) (S : Storage σ ε) (p : Pipeline N Q) (s : σ) (count : Nat) :
    Drains p (p.drainLoop c S s count).1 (drainLengths c S p.queued s) := by
  fun_induction Pipeline.drainLoop c S p s count with
  | case1 p s count hpop =>
    have hnil : p.queued = [] := by
      cases hq : p.queued with
      | nil => rfl
      | cons r rs =>
        obtain ⟨rb, hsome, -⟩ := pop_of_cons hq
        rw [hpop] at hsome
        cases hsome
    rw [hnil, drainLengths]
    exact ⟨rfl, rfl, rfl, rfl, by rw [hnil]; rfl⟩
  | case2 p s count record ringbuf hpop e henc =>
    obtain ⟨hw, hoc⟩ := gauges_of_pop hpop
    have hq : p.queued = record :: ringbuf.queue.toList := Pipeline.queue_of_pop hpop
    rw [hq, drainLengths, henc]
    exact ⟨hw, hoc, rfl, rfl, rfl⟩
  | case3 p s count record ringbuf hpop data henc s' e hwrite =>
    obtain ⟨hw, hoc⟩ := gauges_of_pop hpop
    have hq : p.queued = record :: ringbuf.queue.toList := Pipeline.queue_of_pop hpop
    rw [hq, drainLengths, henc]
    simp only [hwrite]
    exact ⟨hw, hoc, rfl, rfl, rfl⟩
  | case4 p s count record ringbuf hpop data henc s' _ hwrite ih =>
    obtain ⟨hw, hoc⟩ := gauges_of_pop hpop
    have hq : p.queued = record :: ringbuf.queue.toList := Pipeline.queue_of_pop hpop
    rw [hq, drainLengths, henc]
    simp only [hwrite]
    refine ⟨ih.highWater.trans hw, ih.overflowCount.trans hoc, ih.queueHighWater, ih.dropped, ?_⟩
    rw [ih.length, List.getLastD_cons]
    rfl

theorem drain_drains (c : Crates) (S : Storage σ ε) (p : Pipeline N Q) (s : σ) :
    Drains p (p.drain c S s).1 (drainLengths c S p.queued s) := by
  have h := drainLoop_drains c S p s 0
  unfold Pipeline.drain
  split
  · rename_i p' s' e hloop
    rw [hloop] at h
    exact h
  · rename_i p' s' count hloop
    rw [hloop] at h
    split
    · exact ⟨h.highWater, h.overflowCount, h.queueHighWater, h.dropped, h.length⟩
    · exact h

theorem drain_gauges (c : Crates) (S : Storage σ ε) {p : Pipeline N Q} (h : Gauges p) (s : σ) :
    Gauges (p.drain c S s).1 ∧ Peaks p.peak (p.drain c S s).1.peak (drainLengths c S p.queued s) := by
  have hd := drain_drains c S p s
  have hle : ∀ n ∈ drainLengths c S p.queued s, n ≤ p.peak := fun n hn =>
    Nat.le_trans (drainLengths_le c S p.queued s n hn) h.length_le
  have hlast : (p.drain c S s).1.queued.length ≤ p.peak := by
    rw [hd.length]
    rcases List.mem_cons.1 (List.getLastD_mem_cons (l := drainLengths c S p.queued s)) with heq | hmem
    · rw [heq]
      exact h.length_le
    · exact hle _ hmem
  have hpeak : (p.drain c S s).1.peak = p.peak := congrArg UInt32.toNat hd.highWater
  refine ⟨⟨?_, ?_, Nat.le_trans hlast (Nat.le_of_eq hpeak.symm)⟩, ?_⟩
  · rw [hd.queueHighWater, hd.highWater, h.highWater]
  · rw [hd.dropped, hd.overflowCount, h.dropped]
  · rw [hpeak]
    exact Peaks.refl hle

/-! ## Runs -/

theorem step_gauges (hQ : Q < 2 ^ 32) (c : Crates) (S : Storage σ ε) {x : Pipeline N Q × σ} (h : Gauges x.1)
    (call : Call) :
    Gauges (step c S x call).1.1 ∧ Peaks x.1.peak (step c S x call).1.1.peak (callLengths c S x call) := by
  cases call with
  | ingest bytes => exact ingest_gauges hQ c bytes h
  | drain => exact drain_gauges c S h x.2

theorem after_gauges (hQ : Q < 2 ^ 32) (c : Crates) (S : Storage σ ε) : ∀ (calls : List Call) {x : Pipeline N Q × σ},
    Gauges x.1 → Gauges (after c S x calls).1 ∧ Peaks x.1.peak (after c S x calls).1.peak (lengths c S x calls)
  | [], x, h => ⟨h, Peaks.stay h.length_le⟩
  | call :: calls, x, h => by
    obtain ⟨hcall, hpcall⟩ := step_gauges hQ c S h call
    obtain ⟨hrest, hprest⟩ := after_gauges hQ c S calls hcall
    refine ⟨hrest, ?_⟩
    rw [lengths, ← List.singleton_append]
    exact (Peaks.stay h.length_le).append (hpcall.append hprest)

theorem length_mem_lengths (c : Crates) (S : Storage σ ε) (x : Pipeline N Q × σ) (calls : List Call) :
    x.1.queued.length ∈ lengths c S x calls := by
  cases calls <;> exact List.mem_cons_self

/-- **The queue's statistics agree with its history.**  In every state a run of calls reaches: the queue is no longer
than its capacity; both peaks are the greatest length the queue had at any point; both counts of drops agree and, below
`2 ^ 64`, are the frames offered to a full queue.  A rejected push leaves the queue as it was. -/
theorem queue_statistics (hQ : Q < 2 ^ 32) (c : Crates) (S : Storage σ ε) (filter : FilterConfig) (s : σ)
    (calls : List Call) :
    let x : Pipeline N Q × σ := (Pipeline.new filter, s)
    let p := (after c S x calls).1
    p.ringbuf.len ≤ Q ∧
    p.stats.queueHighWater = p.ringbuf.highWater ∧
    p.ringbuf.highWater.toNat ∈ lengths c S x calls ∧
    (∀ n ∈ lengths c S x calls, n ≤ p.ringbuf.highWater.toNat) ∧
    p.stats.dropped = p.ringbuf.overflowCount ∧
    (rejections (history c S filter x [] calls) < 2 ^ 64 →
      p.stats.dropped.toNat = rejections (history c S filter x [] calls)) ∧
    ∀ (rb : RingBuf Q) (r : StoredRecord), (rb.push r).2 = .error () → (rb.push r).1.queue = rb.queue := by
  intro x p
  obtain ⟨hg, hp⟩ := after_gauges (N := N) hQ c S calls (x := x) (gauges_new filter)
  refine ⟨p.ringbuf.queue.length_le, hg.highWater, ?_, hp.bound, hg.dropped, ?_, fun rb r => RingBuf.queue_of_push_error⟩
  · rcases hp.reached with hzero | hmem
    · -- the peak is still that of the empty queue at the start
      have hzero' : p.ringbuf.highWater.toNat = x.1.queued.length := hzero
      rw [hzero']
      exact length_mem_lengths c S x calls
    · exact hmem
  · intro hlt
    have hcount := counter_after (N := N) (Q := Q) c S filter s calls .dropped
    rw [← rejections_eq_count] at hcount
    have hto := congrArg UInt64.toNat hcount
    rw [UInt64.toNat_ofNat', Nat.mod_eq_of_lt hlt] at hto
    exact hto

/-- Two heartbeats on a queue of one record: the second is rejected. -/
theorem queue_statistics_run :
    let bytes : List TimedByte :=
      [3, 1, 1, 2, 7, 1, 1, 1, 1, 3, 116, 97, 0, 3, 1, 1, 2, 8, 1, 1, 1, 1, 3, 253, 92, 0].map fun b => ⟨b, 0⟩
    let x : Pipeline 512 1 × (List UInt8 × UInt32) := (Pipeline.new .allowAll, ([], 0))
    rejections (history Crates.documented capturingStorage .allowAll x [] [.ingest bytes, .drain]) = 1 ∧
    (after Crates.documented capturingStorage x [.ingest bytes, .drain]).1.stats.dropped.toNat
      = rejections (history Crates.documented capturingStorage .allowAll x [] [.ingest bytes, .drain]) := by
  intro bytes x
  have hone : rejections (history Crates.documented capturingStorage .allowAll x [] [.ingest bytes, .drain]) = 1 := by
    decide +kernel
  refine ⟨hone, ?_⟩
  exact (queue_statistics (by decide) Crates.documented capturingStorage .allowAll ([], 0)
    [.ingest bytes, .drain]).2.2.2.2.2.1 (by rw [hone]; decide)

end Telemetry
