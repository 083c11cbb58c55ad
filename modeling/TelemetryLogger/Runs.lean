import TelemetryLogger.Verdict
/-!
# Runs — ingest and drain calls in any order

A run is a list of calls on a new pipeline.  Its history is the verdict on every byte with whether the queue was full;
the verdicts depend on the stream alone (`history_verdicts`), and the counters count them (`after_tracks`).  A drain
changes nothing that a frame is judged by (`drain_untouched`).
-/
namespace Telemetry

variable {N Q : Nat} {σ ε : Type}

/-! ## Calls -/

inductive Call
  | ingest (bytes : List TimedByte)
  | drain

def Call.bytes : Call → List TimedByte
  | .ingest bytes => bytes
  | .drain => []

/-- The bytes of a run, however they are cut into calls. -/
def stream (calls : List Call) : List TimedByte := calls.flatMap Call.bytes

def untimed (bytes : List TimedByte) : List UInt8 := bytes.map (·.byte)

def step (c : Crates) (S : Storage σ ε) (x : Pipeline N Q × σ) :
    Call → (Pipeline N Q × σ) × Option (Except Error Nat)
  | .ingest bytes => ((x.1.ingest c bytes, x.2), none)
  | .drain => let r := x.1.drain c S x.2; ((r.1, r.2.1), some r.2.2)

def after (c : Crates) (S : Storage σ ε) (x : Pipeline N Q × σ) (calls : List Call) : Pipeline N Q × σ :=
  (Machine.run (step c S) x calls).1

theorem after_cons (c : Crates) (S : Storage σ ε) (x : Pipeline N Q × σ) (call : Call) (calls : List Call) :
    after c S x (call :: calls) = after c S (step c S x call).1 calls := rfl

theorem after_append (c : Crates) (S : Storage σ ε) (x : Pipeline N Q × σ) (calls calls' : List Call) :
    after c S x (calls ++ calls') = after c S (after c S x calls) calls' := Machine.run_append_fst _ _ _ _

theorem ingest_cons (c : Crates) (p : Pipeline N Q) (b : TimedByte) (bytes : List TimedByte) :
    p.ingest c (b :: bytes) = (p.ingestByte c b).ingest c bytes := rfl

/-! ## A drain leaves the front alone -/

structure Untouched (p p' : Pipeline N Q) : Prop where
  framer : p'.framer = p.framer
  validator : p'.validator = p.validator
  filter : p'.filter = p.filter
  counter : ∀ k, p'.stats.counter k = p.stats.counter k

theorem Untouched.trans {p p' p'' : Pipeline N Q} (h : Untouched p p') (h' : Untouched p' p'') : Untouched p p'' :=
  ⟨h'.framer.trans h.framer, h'.validator.trans h.validator, h'.filter.trans h.filter,
    fun k => (h'.counter k).trans (h.counter k)⟩

theorem counter_writeFail (s : Stats) (n : UInt64) (k : Counter) :
    ({ s with writeFail := n } : Stats).counter k = s.counter k := by
  cases k <;> rfl

theorem drainLoop_untouched (c : Crates) (S : Storage σ ε) (p : Pipeline N Q) (s : σ) (count : Nat) :
    Untouched p (p.drainLoop c S s count).1 := by
  fun_induction Pipeline.drainLoop c S p s count with
  | case1 p s count hpop => exact ⟨rfl, rfl, rfl, fun _ => rfl⟩
  | case2 p s count record ringbuf hpop e henc => exact ⟨rfl, rfl, rfl, fun _ => rfl⟩
  | case3 p s count record ringbuf hpop data henc s' e hwrite =>
    exact ⟨rfl, rfl, rfl, fun k => counter_writeFail p.stats _ k⟩
  | case4 p s count record ringbuf hpop data henc s' _ hwrite ih =>
    exact ⟨ih.framer, ih.validator, ih.filter, ih.counter⟩

theorem drain_untouched (c : Crates) (S : Storage σ ε) (p : Pipeline N Q) (s : σ) :
    Untouched p (p.drain c S s).1 := by
  have h := drainLoop_untouched c S p s 0
  unfold Pipeline.drain
  split
  · rename_i p' s' e hloop
    rw [hloop] at h
    exact h
  · rename_i p' s' count hloop
    rw [hloop] at h
    split
    · exact h.trans ⟨rfl, rfl, rfl, fun k => counter_writeFail p'.stats _ k⟩
    · exact h

theorem Tracks.of_untouched {c : Crates} {filter : FilterConfig} {w : List UInt8} {p p' : Pipeline N Q}
    (h : Tracks c filter w p) (hu : Untouched p p') : Tracks c filter w p' :=
  ⟨by rw [hu.framer]; exact h.framer, by rw [hu.validator]; exact h.validator, hu.filter.trans h.filter⟩

theorem Tracks.drain {c : Crates} {filter : FilterConfig} {w : List UInt8} {p : Pipeline N Q} (h : Tracks c filter w p)
    (S : Storage σ ε) (s : σ) : Tracks c filter w (p.drain c S s).1 := h.of_untouched (drain_untouched c S p s)

/-! ## Histories -/

/-- The verdicts on bytes after the stream `w`, each with whether the queue was full. -/
def byteHistory (c : Crates) (filter : FilterConfig) :
    Pipeline N Q → List UInt8 → List TimedByte → List (Verdict × Bool)
  | _, _, [] => []
  | p, w, b :: bytes =>
    (verdictAt c N filter w b, p.ringbuf.queue.isFull) :: byteHistory c filter (p.ingestByte c b) (w ++ [b.byte]) bytes

/-- **The history of a run** from `x`, after the stream `w`. -/
def history (c : Crates) (S : Storage σ ε) (filter : FilterConfig) :
    Pipeline N Q × σ → List UInt8 → List Call → List (Verdict × Bool)
  | _, _, [] => []
  | x, w, call :: calls =>
    byteHistory c filter x.1 w call.bytes
      ++ history c S filter (step c S x call).1 (w ++ untimed call.bytes) calls

theorem history_drain (c : Crates) (S : Storage σ ε) (filter : FilterConfig) (x : Pipeline N Q × σ) (w : List UInt8)
    (calls : List Call) :
    history c S filter x w (.drain :: calls) = history c S filter (step c S x .drain).1 w calls := by
  rw [history, Call.bytes, untimed, List.map_nil, List.append_nil]
  rfl

def classes (h : List (Verdict × Bool)) : List Counter := h.filterMap (fun x => x.1.counter x.2)

def admitted (h : List (Verdict × Bool)) : List StoredRecord := h.flatMap (fun x => x.1.admitted x.2)

def verdicts (c : Crates) (N : Nat) (filter : FilterConfig) : List UInt8 → List TimedByte → List Verdict
  | _, [] => []
  | w, b :: bytes => verdictAt c N filter w b :: verdicts c N filter (w ++ [b.byte]) bytes

theorem verdicts_append (c : Crates) (N : Nat) (filter : FilterConfig) :
    ∀ (bytes more : List TimedByte) (w : List UInt8), verdicts c N filter w (bytes ++ more)
      = verdicts c N filter w bytes ++ verdicts c N filter (w ++ untimed bytes) more
  | [], more, w => by rw [untimed, List.map_nil, List.append_nil]; rfl
  | b :: bytes, more, w => by
    rw [List.cons_append, verdicts, verdicts_append c N filter bytes more, verdicts, List.append_assoc]
    rfl

theorem byteHistory_verdicts (c : Crates) (filter : FilterConfig) :
    ∀ (bytes : List TimedByte) (p : Pipeline N Q) (w : List UInt8),
      (byteHistory c filter p w bytes).map Prod.fst = verdicts c N filter w bytes
  | [], _, _ => rfl
  | b :: bytes, p, w => by
    rw [byteHistory, List.map_cons, byteHistory_verdicts c filter bytes, verdicts]

/-- **The verdicts of a run are the verdicts on its stream**, however it is cut and wherever it is drained. -/
theorem history_verdicts (c : Crates) (S : Storage σ ε) (filter : FilterConfig) :
    ∀ (calls : List Call) (x : Pipeline N Q × σ) (w : List UInt8),
      (history c S filter x w calls).map Prod.fst = verdicts c N filter w (stream calls)
  | [], _, _ => rfl
  | call :: calls, x, w => by
    rw [history, List.map_append, byteHistory_verdicts, history_verdicts c S filter calls, ← verdicts_append]
    rfl

/-- **What a history reports**: the records queued since, and the frames counted since. -/
structure Reports (p p' : Pipeline N Q) (h : List (Verdict × Bool)) : Prop where
  queued : p'.queued = p.queued ++ admitted h
  counter : ∀ k, p'.stats.counter k = p.stats.counter k + UInt64.ofNat ((classes h).count k)
  writeFail : p'.stats.writeFail = p.stats.writeFail

theorem classes_cons (x : Verdict × Bool) (h : List (Verdict × Bool)) (k : Counter) :
    (classes (x :: h)).count k = (if x.1.counter x.2 = some k then 1 else 0) + (classes h).count k := by
  unfold classes
  rw [List.filterMap_cons]
  cases x.1.counter x.2 with
  | none => exact (Nat.zero_add _).symm
  | some k' =>
    simp only [List.count_cons, Option.some.injEq, beq_iff_eq]
    exact Nat.add_comm _ _

theorem classes_append (h h' : List (Verdict × Bool)) : classes (h ++ h') = classes h ++ classes h' :=
  List.filterMap_append

theorem admitted_append (h h' : List (Verdict × Bool)) : admitted (h ++ h') = admitted h ++ admitted h' :=
  List.flatMap_append

/-- **Many bytes**: the front tracks the stream, the queue and the counters follow the history. -/
theorem ingest_reports {c : Crates} {filter : FilterConfig} :
    ∀ (bytes : List TimedByte) {w : List UInt8} {p : Pipeline N Q}, Tracks c filter w p →
      Tracks c filter (w ++ untimed bytes) (p.ingest c bytes) ∧
        Reports p (p.ingest c bytes) (byteHistory c filter p w bytes)
  | [], w, p, h => by
    rw [untimed, List.map_nil, List.append_nil]
    exact ⟨h, (List.append_nil _).symm, fun _ => (UInt64.add_zero _).symm, rfl⟩
  | b :: bytes, w, p, h => by
    obtain ⟨ht, hr⟩ := ingestByte_tracks h b
    obtain ⟨ht', hr'⟩ := ingest_reports bytes ht
    rw [List.append_assoc] at ht'
    refine ⟨ht', ?_, ?_, hr'.writeFail.trans hr.writeFail⟩
    · rw [ingest_cons, hr'.queued, hr.queued, List.append_assoc]
      rfl
    · intro k
      rw [ingest_cons, hr'.counter, hr.counter, byteHistory, classes_cons, UInt64.ofNat_add, UInt64.add_assoc]
      congr 2
      split <;> rfl

/-- **A run of calls**: the front tracks the stream, and the counters count the history. -/
theorem after_tracks {c : Crates} {filter : FilterConfig} (S : Storage σ ε) :
    ∀ (calls : List Call) {x : Pipeline N Q × σ} {w : List UInt8}, Tracks c filter w x.1 →
      Tracks c filter (w ++ untimed (stream calls)) (after c S x calls).1 ∧
      ∀ k, (after c S x calls).1.stats.counter k
        = x.1.stats.counter k + UInt64.ofNat ((classes (history c S filter x w calls)).count k)
  | [], x, w, h => by
    rw [stream, List.flatMap_nil, untimed, List.map_nil, List.append_nil]
    exact ⟨h, fun _ => (UInt64.add_zero _).symm⟩
  | call :: calls, x, w, h => by
    have hcall : Tracks c filter (w ++ untimed call.bytes) (step c S x call).1.1 ∧ ∀ k,
        (step c S x call).1.1.stats.counter k
          = x.1.stats.counter k + UInt64.ofNat ((classes (byteHistory c filter x.1 w call.bytes)).count k) := by
      cases call with
      | ingest bytes =>
        obtain ⟨ht, hr⟩ := ingest_reports bytes h
        exact ⟨ht, hr.counter⟩
      | drain =>
        have hu := drain_untouched c S x.1 x.2
        rw [Call.bytes, untimed, List.map_nil, List.append_nil]
        exact ⟨h.of_untouched hu, fun k => (hu.counter k).trans (UInt64.add_zero _).symm⟩
    obtain ⟨ht, hk⟩ := after_tracks S calls hcall.1
    refine ⟨?_, ?_⟩
    · rw [List.append_assoc, untimed, untimed, ← List.map_append] at ht
      exact ht
    · intro k
      rw [after_cons, hk, hcall.2, history, classes_append, List.count_append, UInt64.ofNat_add, UInt64.add_assoc]

/-- **The counters of a run** from a new pipeline count the classes of its history. -/
theorem counter_after (c : Crates) (S : Storage σ ε) (filter : FilterConfig) (s : σ) (calls : List Call) (k : Counter) :
    (after c S ((Pipeline.new filter : Pipeline N Q), s) calls).1.stats.counter k
      = UInt64.ofNat ((classes (history c S filter ((Pipeline.new filter : Pipeline N Q), s) [] calls)).count k) := by
  have hcounter := (after_tracks S calls (tracks_new (N := N) (Q := Q) c filter) (x := (Pipeline.new filter, s))).2 k
  have hnew : (Pipeline.new filter : Pipeline N Q).stats.counter k = 0 := by cases k <;> rfl
  rw [hcounter, hnew, UInt64.zero_add]

/-! ## Received segments -/

/-- **The segments of a stream that count**: those longer than `N`, and those a delimiter ends, if not
empty. -/
def received (N : Nat) (w : List UInt8) : List (List UInt8) :=
  (Split.closed 0 w).filter (fun p => !p.isEmpty) ++ if N < (Split.opened 0 w).length then [Split.opened 0 w] else []

theorem judgeFrame_ne_quiet (c : Crates) (filter : FilterConfig) (last : Option UInt32) (f : Frame) (now : UInt64) :
    judgeFrame c filter last f now ≠ .quiet := by
  unfold judgeFrame
  intro h
  repeat' split at h
  all_goals cases h

theorem judge_ne_quiet (c : Crates) (filter : FilterConfig) (last : Option UInt32) (p : List UInt8) (now : UInt64) :
    judge c filter last p now ≠ .quiet := by
  unfold judge
  split
  · exact fun h => by cases h
  split
  · exact judgeFrame_ne_quiet c filter last _ now
  · exact fun h => by cases h

/-- **A byte gets a verdict exactly when a segment is received with it.** -/
theorem length_received_snoc (c : Crates) (N : Nat) (filter : FilterConfig) (w : List UInt8) (b : TimedByte) :
    (received N (w ++ [b.byte])).length
      = (received N w).length + if verdictAt c N filter w b = .quiet then 0 else 1 := by
  obtain ⟨byte, now⟩ := b
  unfold received verdictAt
  simp only
  by_cases hb : byte = 0
  · subst hb
    simp only [ne_eq, not_true_eq_false, if_false]
    rw [Split.closed_snoc_sep, Split.opened_snoc_sep, List.filter_append, List.filter_singleton]
    by_cases hnil : Split.opened 0 w = []
    · simp [hnil]
    have hempty := List.isEmpty_eq_false_iff.2 hnil
    by_cases hlong : N < (Split.opened 0 w).length
    · simp [hempty, hlong]
    · simp [hnil, hempty, hlong, judge_ne_quiet]
  · rw [if_pos hb, Split.closed_snoc 0 w hb, Split.opened_snoc 0 w hb]
    rcases Nat.lt_trichotomy (Split.opened 0 w).length N with hlt | heq | hgt
    · simp [Nat.ne_of_lt hlt, Nat.not_lt.2 hlt, Nat.not_lt.2 (Nat.le_of_lt hlt)]
    · simp [heq]
    · simp [Nat.ne_of_gt hgt, hgt, Nat.lt_succ_of_lt hgt]

theorem counter_eq_none (v : Verdict) (full : Bool) : v.counter full = none ↔ v = .quiet := by
  cases v <;> simp [Verdict.counter]

theorem length_classes_cons (x : Verdict × Bool) (h : List (Verdict × Bool)) :
    (classes (x :: h)).length = (if x.1 = .quiet then 0 else 1) + (classes h).length := by
  unfold classes
  rw [List.filterMap_cons]
  split
  · rename_i hx
    rw [if_pos ((counter_eq_none _ _).1 hx), Nat.zero_add]
  · rename_i k hx
    rw [if_neg (fun hq => by rw [(counter_eq_none _ _).2 hq] at hx; cases hx), List.length_cons, Nat.add_comm]

theorem length_classes_bytes (c : Crates) (filter : FilterConfig) :
    ∀ (bytes : List TimedByte) (p : Pipeline N Q) (w : List UInt8),
      (received N (w ++ untimed bytes)).length
        = (received N w).length + (classes (byteHistory c filter p w bytes)).length
  | [], p, w => by
    rw [untimed, List.map_nil, List.append_nil]
    rfl
  | b :: bytes, p, w => by
    have hw : w ++ untimed (b :: bytes) = (w ++ [b.byte]) ++ untimed bytes := by
      rw [List.append_assoc]
      rfl
    rw [hw, length_classes_bytes c filter bytes (p.ingestByte c b), length_received_snoc c N filter w b, byteHistory,
      length_classes_cons, Nat.add_assoc]

/-- **A run counts each received segment once.** -/
theorem length_classes (c : Crates) (S : Storage σ ε) (filter : FilterConfig) :
    ∀ (calls : List Call) (x : Pipeline N Q × σ) (w : List UInt8),
      (received N (w ++ untimed (stream calls))).length
        = (received N w).length + (classes (history c S filter x w calls)).length
  | [], x, w => by
    rw [stream, List.flatMap_nil, untimed, List.map_nil, List.append_nil]
    rfl
  | call :: calls, x, w => by
    have hw : w ++ untimed (stream (call :: calls)) = (w ++ untimed call.bytes) ++ untimed (stream calls) := by
      rw [List.append_assoc, untimed, untimed, untimed, ← List.map_append]
      rfl
    rw [hw, length_classes c S filter calls (step c S x call).1, length_classes_bytes c filter call.bytes x.1, history,
      classes_append, List.length_append, Nat.add_assoc]

/-! ## The total -/

theorem length_eq_counts : ∀ l : List Counter,
    l.length = l.count .ok + l.count .dropped + l.count .crcFail + l.count .seqGap + l.count .filtered
  | [] => rfl
  | k :: l => by
    rw [List.length_cons, length_eq_counts l]
    cases k <;> simp only [List.count_cons, beq_iff_eq, reduceCtorEq, if_true, if_false] <;> omega

theorem toNat_saturatingAdd {a b : UInt64} (h : a.toNat + b.toNat < 2 ^ 64) :
    (saturatingAdd a b).toNat = a.toNat + b.toNat := by
  rw [saturatingAdd, if_pos h, UInt64.toNat_add, Nat.mod_eq_of_lt h]

theorem toNat_totalFramesSeen {s : Stats} {l : List Counter} (hs : ∀ k, s.counter k = UInt64.ofNat (l.count k))
    (hl : l.length < 2 ^ 64) : s.totalFramesSeen.toNat = l.length := by
  have hsum := length_eq_counts l
  have hk : ∀ k, (s.counter k).toNat = l.count k := by
    intro k
    rw [hs k, UInt64.toNat_ofNat', Nat.mod_eq_of_lt (Nat.lt_of_le_of_lt List.count_le_length hl)]
  have hok : s.ok.toNat = l.count .ok := hk .ok
  have hdropped : s.dropped.toNat = l.count .dropped := hk .dropped
  have hcrc : s.crcFail.toNat = l.count .crcFail := hk .crcFail
  have hgap : s.seqGap.toNat = l.count .seqGap := hk .seqGap
  have hfil : s.filtered.toNat = l.count .filtered := hk .filtered
  have h1 : (saturatingAdd s.ok s.dropped).toNat = _ := toNat_saturatingAdd (by omega)
  have h2 : (saturatingAdd (saturatingAdd s.ok s.dropped) s.crcFail).toNat = _ := toNat_saturatingAdd (by omega)
  have h3 : (saturatingAdd (saturatingAdd (saturatingAdd s.ok s.dropped) s.crcFail) s.seqGap).toNat = _ :=
    toNat_saturatingAdd (by omega)
  rw [Stats.totalFramesSeen, toNat_saturatingAdd (by omega), h3, h2, h1]
  omega

/-- `BadLength` does not occur on a frame the framer completes. -/
theorem check_ne_badLength {c : Crates} {fr : Framer N} {b : UInt8} {f : Frame} (hf : (fr.feed c b).2 = .complete f)
    (v : Validator) : (v.check c f).2 ≠ .rejected .badLength := by
  have hlen := Framer.payloadLen_of_feed hf
  rw [check_eq]
  cases hfault : firstFault c f with
  | none =>
    simp only [sequenceOutcome]
    intro h
    repeat' split at h
    all_goals cases h
  | some reason =>
    intro h
    obtain rfl : reason = .badLength := by simpa using h
    unfold firstFault at hfault
    rw [if_neg (not_not.2 hlen)] at hfault
    repeat' split at hfault
    all_goals cases hfault

/-- **Every received segment is counted once, by its first failing stage.**  After any run: the next byte adds what its
verdict says to one counter and to the queue, and nothing else does; the total is the number of received segments; and
`BadLength` does not occur. -/
theorem segments_classified (c : Crates) (S : Storage σ ε) (filter : FilterConfig) (s : σ) (calls : List Call) :
    let x := after c S ((Pipeline.new filter : Pipeline N Q), s) calls
    let w := untimed (stream calls)
    let l := classes (history c S filter ((Pipeline.new filter : Pipeline N Q), s) [] calls)
    (∀ b, Reacts x.1 (x.1.ingest c [b]) (verdictAt c N filter w b)) ∧
    (∀ k, (x.1.drain c S x.2).1.stats.counter k = x.1.stats.counter k) ∧
    (l.length = (received N w).length ∧ ∀ k, x.1.stats.counter k = UInt64.ofNat (l.count k)) ∧
    ((received N w).length < 2 ^ 64 → x.1.stats.totalFramesSeen.toNat = (received N w).length) ∧
    (∀ b f, (x.1.framer.feed c b).2 = .complete f → (x.1.validator.check c f).2 ≠ .rejected .badLength) := by
  intro x w l
  have ht := (after_tracks S calls (tracks_new (N := N) (Q := Q) c filter) (x := (Pipeline.new filter, s))).1
  have hlen : l.length = (received N w).length := by
    have := length_classes c S filter calls ((Pipeline.new filter : Pipeline N Q), s) []
    rw [List.nil_append] at this
    rw [this, received, Split.closed_nil, Split.opened_nil]
    exact (Nat.zero_add _).symm
  have hcount : ∀ k, x.1.stats.counter k = UInt64.ofNat (l.count k) := counter_after c S filter s calls
  refine ⟨fun b => (ingestByte_tracks ht b).2, fun k => (drain_untouched c S x.1 x.2).counter k, ⟨hlen, hcount⟩, ?_, ?_⟩
  · intro hlt
    rw [← hlen] at hlt ⊢
    exact toNat_totalFramesSeen hcount hlt
  · intro b f hf
    exact check_ne_badLength hf x.1.validator

/-- A lone zero; then one segment of each kind, in this order: recorded, below the filter's severity, numbered too high,
found the queue full, of no known type, not decodable. -/
theorem segments_classified_run :
    let filter : FilterConfig := ⟨1, none⟩
    let calls : List Call := [.ingest ([0, 5, 1, 1, 2, 1, 1, 1, 1, 1, 3, 53, 78, 0,
        3, 1, 1, 2, 2, 1, 1, 1, 1, 3, 243, 117, 0, 5, 1, 1, 2, 4].map (⟨·, 5⟩)),
      .ingest ([1, 1, 1, 1, 3, 178, 90, 0, 5, 1, 1, 2, 5, 1, 1, 1, 1, 3, 153, 94, 0].map (⟨·, 6⟩)), .drain,
      .ingest ([5, 1, 9, 2, 6, 1, 1, 1, 1, 3, 88, 127, 0, 3, 7].map (⟨·, 7⟩))]
    let x := after Crates.documented failStorage ((Pipeline.new filter : Pipeline 512 1), ()) calls
    Reacts x.1 (x.1.ingest Crates.documented [⟨0, 8⟩]) (verdictAt Crates.documented 512 filter (untimed (stream calls))
      ⟨0, 8⟩) ∧
    verdictAt Crates.documented 512 filter (untimed (stream calls)) ⟨0, 8⟩ = .crcFail ∧
    (∀ k, (x.1.drain Crates.documented failStorage x.2).1.stats.counter k = x.1.stats.counter k) ∧
    (∀ k, x.1.stats.counter k = UInt64.ofNat ([.ok, .filtered, .seqGap, .dropped, .filtered].count k)) ∧
    x.1.stats.totalFramesSeen.toNat = 5 := by
  intro filter calls x
  obtain ⟨hreacts, hdrain, ⟨-, hcount⟩, htotal, -⟩ := segments_classified (N := 512) (Q := 1) Crates.documented
    failStorage filter () calls
  have hlen : (received 512 (untimed (stream calls))).length = 5 := by decide +kernel
  have hclasses : classes (history Crates.documented failStorage filter ((Pipeline.new filter : Pipeline 512 1), ()) []
      calls) = [.ok, .filtered, .seqGap, .dropped, .filtered] := by decide +kernel
  rw [hclasses] at hcount
  refine ⟨hreacts ⟨0, 8⟩, by decide +kernel, hdrain, hcount, ?_⟩
  rw [← hlen]
  exact htotal (by rw [hlen]; decide)

end Telemetry
