import TelemetryLogger.Batch
/-!
# Compare — two runs over one stream

No filter decision feeds back: under a filter a verdict is the one under `allow_all`, restricted (`verdicts_restrict`),
so the records queued are the allowed ones (`filter_commutes`).  The verdicts do not depend on how the bytes are cut or
drained, and on the clock only where a frame is complete (`spoken_verdicts_congr`), so two schedules that drop nothing
write the same (`schedule_independent`).
-/
namespace Telemetry

variable {N Q₁ Q₂ : Nat} {σ₁ σ₂ ε₁ ε₂ : Type}

/-! ## Two filters -/

/-- The filter on the type and severity that a record keeps. -/
def FilterConfig.allows (filter : FilterConfig) : StoredRecord → Bool
  | .v1 r => decide (filter.minSeverity ≤ r.severity) && filter.typeAllowlist.all (·.toList.contains r.packetType)

theorem FilterConfig.allows_recordOf (filter : FilterConfig) (f : Frame) (now : UInt64) :
    filter.allows (recordOf f now) = filter.allow f := by
  show (decide (filter.minSeverity ≤ f.header.severity)
    && filter.typeAllowlist.all (·.toList.contains f.header.packetType)) = _
  unfold allow
  by_cases hsev : f.header.severity < filter.minSeverity
  · rw [if_pos hsev, decide_eq_false (UInt8.not_le.2 hsev), Bool.false_and]
  · rw [if_neg hsev, decide_eq_true (UInt8.not_lt.1 hsev), Bool.true_and]
    cases filter.typeAllowlist with
    | none => rfl
    | some list => cases list.toList.contains f.header.packetType <;> simp

/-- The verdict under `filter`, from the one under `allow_all`. -/
def Verdict.restrict (filter : FilterConfig) : Verdict → Verdict
  | .offer r => if filter.allows r then .offer r else .filtered
  | v => v

theorem judgeFrame_restrict (c : Crates) (filter : FilterConfig) (last : Option UInt32) (f : Frame) (now : UInt64) :
    judgeFrame c filter last f now = (judgeFrame c .allowAll last f now).restrict filter := by
  unfold judgeFrame
  rw [FilterConfig.allow_allowAll, if_pos rfl, ← FilterConfig.allows_recordOf filter f now]
  split
  · rfl
  split
  · rfl
  split
  · rfl
  · rfl

theorem judge_restrict (c : Crates) (filter : FilterConfig) (last : Option UInt32) (p : List UInt8) (now : UInt64) :
    judge c filter last p now = (judge c .allowAll last p now).restrict filter := by
  unfold judge
  cases c.cobsDecode p with
  | none => rfl
  | some d =>
    simp only
    split
    · exact judgeFrame_restrict c filter last _ now
    · rfl

theorem verdictAt_restrict (c : Crates) (N : Nat) (filter : FilterConfig) (w : List UInt8) (b : TimedByte) :
    verdictAt c N filter w b = (verdictAt c N .allowAll w b).restrict filter := by
  unfold verdictAt
  simp only
  split
  · split <;> rfl
  · split
    · rfl
    · exact judge_restrict c filter _ _ b.now

/-- **No filter decision feeds back**: the verdicts under `filter` are those under `allow_all`, each restricted. -/
theorem verdicts_restrict (c : Crates) (N : Nat) (filter : FilterConfig) : ∀ (bytes : List TimedByte) (w : List UInt8),
    verdicts c N filter w bytes = (verdicts c N .allowAll w bytes).map (Verdict.restrict filter)
  | [], _ => rfl
  | b :: bytes, w => by
    rw [verdicts, verdicts_restrict c N filter bytes, verdictAt_restrict, verdicts, List.map_cons]

theorem offers_restrict (filter : FilterConfig) : ∀ vs : List Verdict,
    offers (vs.map (Verdict.restrict filter)) = (offers vs).filter filter.allows
  | [] => rfl
  | v :: vs => by
    have ih := offers_restrict filter vs
    show (v.restrict filter).admitted false ++ offers (vs.map (Verdict.restrict filter))
      = (v.admitted false ++ offers vs).filter filter.allows
    rw [ih, List.filter_append]
    congr 1
    cases v with
    | offer r =>
      cases h : filter.allows r <;> simp [Verdict.restrict, Verdict.admitted, h]
    | _ => rfl

/-- How often the verdicts add to a counter, if the queue is never full. -/
def tally (vs : List Verdict) (k : Counter) : Nat := ((spoken vs).filterMap (Verdict.counter false)).count k

theorem tally_cons (v : Verdict) (vs : List Verdict) (k : Counter) :
    tally (v :: vs) k = (if v.counter false = some k then 1 else 0) + tally vs k := by
  rw [tally, tally, ← List.singleton_append, spoken_append, List.filterMap_append, List.count_append]
  congr 1
  cases v <;> simp [spoken, Verdict.counter, List.count_singleton]

/-- **What a filter does to the counters**: it moves frames from `ok` to `filtered`. -/
theorem tally_restrict (filter : FilterConfig) : ∀ vs : List Verdict,
    tally (vs.map (Verdict.restrict filter)) .crcFail = tally vs .crcFail ∧
    tally (vs.map (Verdict.restrict filter)) .seqGap = tally vs .seqGap ∧
    tally (vs.map (Verdict.restrict filter)) .ok + tally (vs.map (Verdict.restrict filter)) .filtered
      = tally vs .ok + tally vs .filtered
  | [] => ⟨rfl, rfl, rfl⟩
  | v :: vs => by
    obtain ⟨hcrc, hgap, hsum⟩ := tally_restrict filter vs
    simp only [List.map_cons, tally_cons, hcrc, hgap]
    cases v with
    | offer r =>
      cases h : filter.allows r <;> simp [Verdict.restrict, Verdict.counter, h] <;> omega
    | _ =>
      simp [Verdict.restrict, Verdict.counter]
      omega

/-- **The policy filter commutes with the pipeline.**  One stream, with one clock, is fed to a pipeline with `filter`
and to one with `allow_all`, in any calls and onto any storages, and no record finds a queue full: the records queued
under `filter` are those queued under `allow_all` that it allows, in order; `crc_fail` and `seq_gap` agree, and the sum
of `ok` and `filtered`. -/
theorem filter_commutes {c : Crates} (hc : c.Standard) (S₁ : Storage σ₁ ε₁) (S₂ : Storage σ₂ ε₂) (filter : FilterConfig)
    (s₁ : σ₁) (s₂ : σ₂) {calls₁ calls₂ : List Call} (hstream : stream calls₁ = stream calls₂)
    (hdrop₁ : NoDrop (history c S₁.traced filter ((Pipeline.new filter : Pipeline N Q₁), s₁, []) [] calls₁))
    (hdrop₂ : NoDrop (history c S₂.traced .allowAll ((Pipeline.new .allowAll : Pipeline N Q₂), s₂, []) [] calls₂)) :
    let x₁ := after c S₁.traced ((Pipeline.new filter : Pipeline N Q₁), s₁, []) calls₁
    let x₂ := after c S₂.traced ((Pipeline.new .allowAll : Pipeline N Q₂), s₂, []) calls₂
    (∃ rs, Recorded c x₂ rs ∧ Recorded c x₁ (rs.filter filter.allows)) ∧
    x₁.1.stats.crcFail = x₂.1.stats.crcFail ∧ x₁.1.stats.seqGap = x₂.1.stats.seqGap ∧
    x₁.1.stats.ok + x₁.1.stats.filtered = x₂.1.stats.ok + x₂.1.stats.filtered := by
  intro x₁ x₂
  obtain ⟨hrec₁, hcounter₁⟩ := recorded_of_noDrop hc S₁ filter s₁ calls₁ hdrop₁
  obtain ⟨hrec₂, hcounter₂⟩ := recorded_of_noDrop hc S₂ .allowAll s₂ calls₂ hdrop₂
  rw [hstream, verdicts_restrict, offers_restrict] at hrec₁
  rw [hstream, verdicts_restrict] at hcounter₁
  obtain ⟨hcrc, hgap, hsum⟩ := tally_restrict filter (verdicts c N .allowAll [] (stream calls₂))
  refine ⟨⟨_, hrec₂, hrec₁⟩, ?_, ?_, ?_⟩
  · exact (hcounter₁ .crcFail).trans ((congrArg UInt64.ofNat hcrc).trans (hcounter₂ .crcFail).symm)
  · exact (hcounter₁ .seqGap).trans ((congrArg UInt64.ofNat hgap).trans (hcounter₂ .seqGap).symm)
  · have h₁ : x₁.1.stats.ok + x₁.1.stats.filtered = _ := congrArg₂ (· + ·) (hcounter₁ .ok) (hcounter₁ .filtered)
    have h₂ : x₂.1.stats.ok + x₂.1.stats.filtered = _ := congrArg₂ (· + ·) (hcounter₂ .ok) (hcounter₂ .filtered)
    rw [h₁, h₂, ← UInt64.ofNat_add, ← UInt64.ofNat_add]
    exact congrArg UInt64.ofNat hsum

theorem filter_commutes_run :
    let filter : FilterConfig := ⟨3, none⟩
    let frames : List Frame := [⟨⟨1, 1, 0, 7, 0⟩, Heapless.Vec.new, (0, 0)⟩, ⟨⟨1, 1, 4, 8, 0⟩, Heapless.Vec.new, (0, 0)⟩]
    let bytes : List TimedByte := (frames.flatMap (Frame.wire Crates.documented)).map (⟨·, 5⟩)
    let x₁ := after Crates.documented capturingStorage.traced ((Pipeline.new filter : Pipeline 512 2), ([], 0), [])
      [.ingest bytes]
    let x₂ := after Crates.documented failStorage.traced ((Pipeline.new .allowAll : Pipeline 512 4), (), [])
      [.ingest bytes]
    (∃ rs, Recorded Crates.documented x₂ rs ∧ Recorded Crates.documented x₁ (rs.filter filter.allows)) ∧
    x₁.1.stats.crcFail = x₂.1.stats.crcFail ∧ x₁.1.stats.seqGap = x₂.1.stats.seqGap ∧
    x₁.1.stats.ok + x₁.1.stats.filtered = x₂.1.stats.ok + x₂.1.stats.filtered := by
  intro filter frames bytes
  have hbytes : delimiters bytes ≤ 2 := by decide +kernel
  clear_value bytes
  exact filter_commutes Crates.documented_standard capturingStorage failStorage filter ([], 0) () rfl
    (noDrop_ingest _ _ _ _ hbytes) (noDrop_ingest _ _ _ _ (Nat.le_trans hbytes (by decide)))

/-! ## Two schedules -/

/-- **The segment holds a frame**: the framer completes one at its delimiter. -/
def HoldsFrame (c : Crates) (N : Nat) (p : List UInt8) : Prop :=
  p ≠ [] ∧ p.length ≤ N ∧ ∃ d ∈ c.cobsDecode p, WellSized d

instance (c : Crates) (N : Nat) (p : List UInt8) : Decidable (HoldsFrame c N p) :=
  inferInstanceAs (Decidable (_ ∧ _ ∧ _))

/-- The times at which the stream's frames are complete. -/
def frameTimes (c : Crates) (N : Nat) (bytes : List TimedByte) : List UInt64 :=
  ((segments bytes).filter (fun x => decide (HoldsFrame c N x.1))).map (·.2)

theorem judgeSegment_of_not_holdsFrame {c : Crates} {p : List UInt8} (h : ¬ HoldsFrame c N p) (filter : FilterConfig)
    (last : Option UInt32) (now now' : UInt64) :
    judgeSegment c N filter last (p, now) = judgeSegment c N filter last (p, now') := by
  unfold judgeSegment
  simp only
  by_cases hnil : p = []
  · rw [if_pos hnil, if_pos hnil]
  by_cases hlong : N < p.length
  · rw [if_neg hnil, if_pos hlong, if_neg hnil, if_pos hlong]
  have hjudge : judge c filter last p now = judge c filter last p now' := by
    unfold judge
    cases hdec : c.cobsDecode p with
    | none => rfl
    | some d =>
      have hsz : ¬ WellSized d := fun hsz => h ⟨hnil, Nat.not_lt.1 hlong, d, hdec, hsz⟩
      simp only
      rw [dif_neg hsz, dif_neg hsz]
  rw [hjudge]

/-- **The clock matters only where a frame is complete.** -/
theorem judgeAll_congr (c : Crates) (N : Nat) (filter : FilterConfig) : ∀ (ps : List (List UInt8))
    {ts ts' : List UInt64} (last : Option UInt32), ts.length = ps.length → ts'.length = ps.length →
    ((ps.zip ts).filter (fun x => decide (HoldsFrame c N x.1))).map (·.2)
      = ((ps.zip ts').filter (fun x => decide (HoldsFrame c N x.1))).map (·.2) →
    judgeAll c N filter last (ps.zip ts) = judgeAll c N filter last (ps.zip ts')
  | [], _, _, _, _, _, _ => rfl
  | p :: ps, now :: ts, now' :: ts', last, hts, hts', htimes => by
    rw [List.zip_cons_cons, List.zip_cons_cons] at htimes ⊢
    rw [judgeAll, judgeAll, Machine.run_cons, Machine.run_cons, ← judgeAll, ← judgeAll]
    by_cases hp : HoldsFrame c N p
    · rw [List.filter_cons_of_pos (by simpa using hp), List.filter_cons_of_pos (by simpa using hp), List.map_cons,
        List.map_cons] at htimes
      obtain ⟨hnow, htimes⟩ := List.cons.inj htimes
      simp only at hnow
      rw [hnow, judgeAll_congr c N filter ps _ (Nat.succ.inj hts) (Nat.succ.inj hts') htimes]
    · rw [List.filter_cons_of_neg (by simpa using hp), List.filter_cons_of_neg (by simpa using hp)] at htimes
      rw [judgeSegment_of_not_holdsFrame hp filter last now now',
        judgeAll_congr c N filter ps _ (Nat.succ.inj hts) (Nat.succ.inj hts') htimes]

theorem spoken_verdicts_congr (c : Crates) (N : Nat) (filter : FilterConfig) {bytes bytes' : List TimedByte}
    (hbytes : untimed bytes = untimed bytes') (htimes : frameTimes c N bytes = frameTimes c N bytes') :
    spoken (verdicts c N filter [] bytes) = spoken (verdicts c N filter [] bytes') := by
  rw [(judgeAll_segments c N filter bytes).2, (judgeAll_segments c N filter bytes').2]
  have hlen := length_completions bytes
  have hlen' := length_completions bytes'
  unfold frameTimes at htimes
  unfold segments at htimes ⊢
  rw [hbytes] at htimes hlen ⊢
  rw [judgeAll_congr c N filter _ none hlen hlen' htimes]

/-- **Schedule independence.**  One byte stream is cut into two lists of calls in any way, with drains anywhere and a
last one at the end, onto storages that never fail; each frame is complete at the same time in both, and no record finds
a queue full: the same records are written, byte for byte, and all counters agree. -/
theorem schedule_independent {c : Crates} (hc : c.Standard) {S₁ : Storage σ₁ ε₁} {S₂ : Storage σ₂ ε₂}
    (hS₁ : Healthy S₁) (hS₂ : Healthy S₂) (filter : FilterConfig) (s₁ : σ₁) (s₂ : σ₂) {calls₁ calls₂ : List Call}
    (hbytes : untimed (stream calls₁) = untimed (stream calls₂))
    (hclock : frameTimes c N (stream calls₁) = frameTimes c N (stream calls₂))
    (hdrop₁ : NoDrop (history c S₁.traced filter ((Pipeline.new filter : Pipeline N Q₁), s₁, []) []
      (calls₁ ++ [.drain])))
    (hdrop₂ : NoDrop (history c S₂.traced filter ((Pipeline.new filter : Pipeline N Q₂), s₂, []) []
      (calls₂ ++ [.drain]))) :
    let x₁ := after c S₁.traced ((Pipeline.new filter : Pipeline N Q₁), s₁, []) (calls₁ ++ [.drain])
    let x₂ := after c S₂.traced ((Pipeline.new filter : Pipeline N Q₂), s₂, []) (calls₂ ++ [.drain])
    x₁.2.2.filterMap Op.data = x₂.2.2.filterMap Op.data ∧
    (∀ k, x₁.1.stats.counter k = x₂.1.stats.counter k) ∧ x₁.1.stats.writeFail = x₂.1.stats.writeFail := by
  intro x₁ x₂
  obtain ⟨hdata₁, hcounter₁, hfail₁⟩ := stored_of_noDrop hc hS₁ filter s₁ calls₁ hdrop₁
  obtain ⟨hdata₂, hcounter₂, hfail₂⟩ := stored_of_noDrop hc hS₂ filter s₂ calls₂ hdrop₂
  have hspoken := spoken_verdicts_congr c N filter hbytes hclock
  refine ⟨?_, ?_, hfail₁.trans hfail₂.symm⟩
  · refine hdata₁.trans (Eq.trans ?_ hdata₂.symm)
    rw [← offers_spoken, hspoken, offers_spoken]
  · intro k
    refine (hcounter₁ k).trans (Eq.trans ?_ (hcounter₂ k).symm)
    rw [hspoken]

theorem schedule_independent_run :
    let calls₁ : List Call := [.ingest ([0, 3, 1, 1, 1, 1, 1, 1, 1, 1, 3, 165, 125, 0].map (⟨·, 7⟩))]
    let calls₂ : List Call := [.ingest ([0, 3, 1, 1, 1].map (⟨·, 5⟩)), .drain,
      .ingest ([1, 1, 1, 1, 1, 3, 165, 125].map (⟨·, 6⟩)), .ingest [⟨0, 7⟩]]
    let x₁ := after Crates.documented capturingStorage.traced ((Pipeline.new .allowAll : Pipeline 512 4), ([], 0), [])
      (calls₁ ++ [.drain])
    let x₂ := after Crates.documented capturingStorage.traced ((Pipeline.new .allowAll : Pipeline 512 1), ([], 0), [])
      (calls₂ ++ [.drain])
    x₁.2.2.filterMap Op.data = x₂.2.2.filterMap Op.data ∧
    (∀ k, x₁.1.stats.counter k = x₂.1.stats.counter k) ∧ x₁.1.stats.writeFail = x₂.1.stats.writeFail := by
  intro calls₁ calls₂
  have hS : Healthy capturingStorage := ⟨fun _ _ => rfl, fun _ => rfl⟩
  have hp₁ : Paced 4 0 (calls₁ ++ [.drain]) := ⟨by decide, trivial⟩
  have hp₂ : Paced 1 0 (calls₂ ++ [.drain]) := ⟨by decide, by decide, by decide, trivial⟩
  have hdrop₁ := (history_noDrop Crates.documented_standard hS.traced _
    (x := ((Pipeline.new .allowAll : Pipeline 512 4), ([], 0), [])) (tracks_new _ _) (Nat.le_refl 0) hp₁).1
  have hdrop₂ := (history_noDrop Crates.documented_standard hS.traced _
    (x := ((Pipeline.new .allowAll : Pipeline 512 1), ([], 0), [])) (tracks_new _ _) (Nat.le_refl 0) hp₂).1
  exact schedule_independent Crates.documented_standard hS hS .allowAll ([], 0) ([], 0) rfl (by decide +kernel) hdrop₁
    hdrop₂

end Telemetry
