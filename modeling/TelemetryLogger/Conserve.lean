import TelemetryLogger.Runs
import TelemetryLogger.Segment
/-!
# Conserve — no queued record is lost, repeated or reordered

A drain writes the queue out up to the first failed write (`drain_eq`).  Over a run with a traced storage, the records
written and those still queued are the records admitted, in order (`records_conserved`).
-/
namespace Telemetry

open Record (encode image)

variable {N Q : Nat} {σ ε : Type}

/-! ## What a drain does -/

/-- Write records one after another, up to the first failure: the storage, the records not tried, and whether all were
written. -/
def Storage.writeOut (c : Crates) (S : Storage σ ε) : σ → List StoredRecord → σ × List StoredRecord × Bool
  | s, [] => (s, [], true)
  | s, r :: rs =>
    match S.write s (image c r) with
    | (s, .error _) => (s, rs, false)
    | (s, .ok _) => writeOut c S s rs

def Stats.failUnless (ok : Bool) (s : Stats) : Stats := if ok then s else { s with writeFail := s.writeFail + 1 }

theorem pop_of_nil {p : Pipeline N Q} (h : p.queued = []) : p.ringbuf.pop = none := by
  obtain ⟨framer, validator, filter, ⟨⟨queue, hle⟩, oc, hw⟩, stats⟩ := p
  obtain rfl : queue = [] := h
  rfl

theorem pop_of_cons {p : Pipeline N Q} {r : StoredRecord} {rs : List StoredRecord} (h : p.queued = r :: rs) :
    ∃ rb, p.ringbuf.pop = some (r, rb) ∧ rb.queue.toList = rs := by
  obtain ⟨framer, validator, filter, ⟨⟨queue, hle⟩, oc, hw⟩, stats⟩ := p
  obtain rfl : queue = r :: rs := h
  exact ⟨_, rfl, rfl⟩

theorem drainLoop_of_none {c : Crates} {S : Storage σ ε} {p : Pipeline N Q} {s : σ} {count : Nat}
    (h : p.ringbuf.pop = none) : p.drainLoop c S s count = (p, s, .ok count) := by
  rw [Pipeline.drainLoop]
  split
  · rfl
  · rename_i hpop
    rw [h] at hpop
    cases hpop

theorem drainLoop_of_some {c : Crates} (hc : c.Standard) {S : Storage σ ε} {p : Pipeline N Q} {s : σ} {count : Nat}
    {r : StoredRecord} {rb : RingBuf Q} (h : p.ringbuf.pop = some (r, rb)) :
    p.drainLoop c S s count = match S.write s (image c r) with
      | (s, .error _) =>
        ({ p with ringbuf := rb, stats := { p.stats with writeFail := p.stats.writeFail + 1 } }, s, .error .storage)
      | (s, .ok _) => ({ p with ringbuf := rb } : Pipeline N Q).drainLoop c S s (count + 1) := by
  rw [Pipeline.drainLoop]
  split
  · rename_i hpop
    rw [h] at hpop
    cases hpop
  · rename_i r' rb' hpop
    rw [h] at hpop
    cases hpop
    have henc := Record.encode_eq_ok hc r (by decide : 507 ≤ maxStoredRecordBytes)
    split
    · rename_i he
      rw [henc] at he
      cases he
    · rename_i he
      rw [henc] at he
      cases he
      rfl

/-- **The loop writes the queue out.** -/
theorem drainLoop_eq {c : Crates} (hc : c.Standard) (S : Storage σ ε) :
    ∀ (rs : List StoredRecord) (p : Pipeline N Q) (s : σ) (count : Nat), p.queued = rs →
      (p.drainLoop c S s count).1.queued = (S.writeOut c s rs).2.1 ∧
      (p.drainLoop c S s count).1.stats = p.stats.failUnless (S.writeOut c s rs).2.2 ∧
      (p.drainLoop c S s count).2.1 = (S.writeOut c s rs).1 ∧
      (p.drainLoop c S s count).2.2 = if (S.writeOut c s rs).2.2 then .ok (count + rs.length) else .error .storage
  | [], p, s, count, h => by
    rw [drainLoop_of_none (pop_of_nil h)]
    exact ⟨h, rfl, rfl, rfl⟩
  | r :: rs, p, s, count, h => by
    obtain ⟨rb, hpop, hrb⟩ := pop_of_cons h
    rw [drainLoop_of_some hc hpop, Storage.writeOut]
    cases hw : S.write s (image c r) with
    | mk s' res =>
      cases res with
      | error e => exact ⟨hrb, rfl, rfl, rfl⟩
      | ok u =>
        obtain ⟨hq, hst, hs, hres⟩ := drainLoop_eq hc S rs { p with ringbuf := rb } s' (count + 1) hrb
        refine ⟨hq, hst, hs, hres.trans ?_⟩
        rw [List.length_cons, Nat.add_right_comm, Nat.add_assoc]

/-- **A drain writes the queue out, then flushes** if every write went well. -/
theorem drain_eq {c : Crates} (hc : c.Standard) (S : Storage σ ε) (p : Pipeline N Q) (s : σ) :
    (p.drain c S s).1.queued = (S.writeOut c s p.queued).2.1 ∧
    (p.drain c S s).2 = (if (S.writeOut c s p.queued).2.2 then
        ((S.flush (S.writeOut c s p.queued).1).1,
          if (S.flush (S.writeOut c s p.queued).1).2.isOk then .ok p.queued.length else .error .storage)
      else ((S.writeOut c s p.queued).1, .error .storage)) ∧
    (p.drain c S s).1.stats
      = p.stats.failUnless ((S.writeOut c s p.queued).2.2 && (S.flush (S.writeOut c s p.queued).1).2.isOk) := by
  obtain ⟨hq, hst, hs, hres⟩ := drainLoop_eq hc S p.queued p s 0 rfl
  rw [Nat.zero_add] at hres
  unfold Pipeline.drain
  cases hloop : p.drainLoop c S s 0 with
  | mk p' rest =>
    obtain ⟨s', res⟩ := rest
    rw [hloop] at hq hst hs hres
    simp only at hq hst hs hres
    subst hs hres
    cases hok : (S.writeOut c s p.queued).2.2 with
    | false =>
      rw [hok] at hst
      exact ⟨hq, rfl, hst⟩
    | true =>
      rw [hok] at hst
      rw [if_pos rfl, if_pos rfl]
      simp only
      cases hflush : S.flush (S.writeOut c s p.queued).1 with
      | mk s'' fres =>
        cases fres with
        | error e => exact ⟨hq, rfl, by rw [hst]; rfl⟩
        | ok u => exact ⟨hq, rfl, hst⟩

/-! ## The trace of a storage -/

/-- A call on a storage, with its outcome. -/
inductive Op
  | write (data : List UInt8) (ok : Bool)
  | flush (ok : Bool)
  deriving DecidableEq

def Op.data : Op → Option (List UInt8)
  | .write data _ => some data
  | .flush _ => none

def Op.failed : Op → Bool
  | .write _ ok => !ok
  | .flush ok => !ok

/-- The storage `S`, with the calls made on it so far. -/
def Storage.traced (S : Storage σ ε) : Storage (σ × List Op) ε where
  write x data := (((S.write x.1 data).1, x.2 ++ [.write data (S.write x.1 data).2.isOk]), (S.write x.1 data).2)
  flush x := (((S.flush x.1).1, x.2 ++ [.flush (S.flush x.1).2.isOk]), (S.flush x.1).2)

theorem traced_write (S : Storage σ ε) (x : σ × List Op) (data : List UInt8) :
    S.traced.write x data
      = (((S.write x.1 data).1, x.2 ++ [.write data (S.write x.1 data).2.isOk]), (S.write x.1 data).2) := rfl

theorem traced_flush (S : Storage σ ε) (x : σ × List Op) :
    S.traced.flush x = (((S.flush x.1).1, x.2 ++ [.flush (S.flush x.1).2.isOk]), (S.flush x.1).2) := rfl

def wrote (c : Crates) (r : StoredRecord) : Op := .write (image c r) true

/-- **What one drain does**: it stops at the first failed write, losing that record and leaving the rest queued, without
a flush; or it writes every record and flushes once. -/
inductive Drained (c : Crates) (p p' : Pipeline N Q) : List Op → Except Error Nat → Prop
  | writeFailed (done : List StoredRecord) (lost : StoredRecord) (hqueue : p.queued = done ++ lost :: p'.queued)
      (hstats : p'.stats = p.stats.failUnless false) :
      Drained c p p' (done.map (wrote c) ++ [.write (image c lost) false]) (.error .storage)
  | flushFailed (hqueue : p'.queued = []) (hstats : p'.stats = p.stats.failUnless false) :
      Drained c p p' (p.queued.map (wrote c) ++ [.flush false]) (.error .storage)
  | flushed (hqueue : p'.queued = []) (hstats : p'.stats = p.stats) :
      Drained c p p' (p.queued.map (wrote c) ++ [.flush true]) (.ok p.queued.length)

theorem writeOut_traced (c : Crates) (S : Storage σ ε) : ∀ (rs : List StoredRecord) (x : σ × List Op),
    ((S.traced.writeOut c x rs).2 = ([], true) ∧ (S.traced.writeOut c x rs).1.2 = x.2 ++ rs.map (wrote c)) ∨
    ∃ done lost, (S.traced.writeOut c x rs).2.2 = false ∧ rs = done ++ lost :: (S.traced.writeOut c x rs).2.1 ∧
      (S.traced.writeOut c x rs).1.2 = x.2 ++ (done.map (wrote c) ++ [.write (image c lost) false])
  | [], x => Or.inl ⟨rfl, (List.append_nil _).symm⟩
  | r :: rs, x => by
    rw [Storage.writeOut, traced_write]
    cases hw : (S.write x.1 (image c r)).2 with
    | error e => exact Or.inr ⟨[], r, rfl, rfl, rfl⟩
    | ok u =>
      rcases writeOut_traced c S rs ((S.write x.1 (image c r)).1, x.2 ++ [wrote c r]) with
        ⟨hres, hlog⟩ | ⟨done, lost, hok, hrs, hlog⟩
      · refine Or.inl ⟨hres, hlog.trans ?_⟩
        rw [List.append_assoc]
        rfl
      · refine Or.inr ⟨r :: done, lost, hok, congrArg (r :: ·) hrs, hlog.trans ?_⟩
        rw [List.append_assoc]
        rfl

theorem drain_drained {c : Crates} (hc : c.Standard) (S : Storage σ ε) (p : Pipeline N Q) (x : σ × List Op) :
    ∃ ops, (p.drain c S.traced x).2.1.2 = x.2 ++ ops ∧
      Drained c p (p.drain c S.traced x).1 ops (p.drain c S.traced x).2.2 := by
  obtain ⟨hq, hres, hst⟩ := drain_eq hc S.traced p x
  rcases writeOut_traced c S p.queued x with ⟨hall, hlog⟩ | ⟨done, lost, hok, hsplit, hlog⟩
  · rw [hall] at hq hres hst
    rw [if_pos rfl, traced_flush, hlog, List.append_assoc] at hres
    rw [traced_flush, Bool.true_and] at hst
    rw [hres]
    cases hflush : (S.flush (S.traced.writeOut c x p.queued).1.1).2 with
    | error e =>
      rw [hflush] at hst
      exact ⟨_, rfl, .flushFailed hq hst⟩
    | ok u =>
      rw [hflush] at hst
      exact ⟨_, rfl, .flushed hq hst⟩
  · rw [hok] at hst hres
    rw [if_neg Bool.false_ne_true] at hres
    rw [← hq] at hsplit
    rw [hres]
    exact ⟨_, hlog, .writeFailed done lost hsplit hst⟩

theorem filterMap_data_wrote (c : Crates) (rs : List StoredRecord) :
    (rs.map (wrote c)).filterMap Op.data = rs.map (image c) := by
  rw [List.filterMap_map, ← List.filterMap_eq_map]
  rfl

theorem countP_failed_wrote (c : Crates) (rs : List StoredRecord) : (rs.map (wrote c)).countP Op.failed = 0 := by
  rw [List.countP_map]
  exact congrFun List.countP_false rs

theorem writeFail_failUnless (s : Stats) (ok : Bool) :
    (s.failUnless ok).writeFail = s.writeFail + UInt64.ofNat (if ok then 0 else 1) := by
  cases ok with
  | false => rfl
  | true => exact (UInt64.add_zero _).symm

theorem Drained.conserved {c : Crates} {p p' : Pipeline N Q} {ops : List Op} {res : Except Error Nat}
    (h : Drained c p p' ops res) : ∃ written, ops.filterMap Op.data = written.map (image c) ∧
      p.queued = written ++ p'.queued ∧
      p'.stats.writeFail = p.stats.writeFail + UInt64.ofNat (ops.countP Op.failed) := by
  cases h with
  | writeFailed done lost hqueue hstats =>
    refine ⟨done ++ [lost], ?_, ?_, ?_⟩
    · rw [List.filterMap_append, filterMap_data_wrote, List.map_append]
      rfl
    · rw [hqueue, List.append_assoc]
      rfl
    · rw [hstats, writeFail_failUnless, List.countP_append, countP_failed_wrote]
      rfl
  | flushFailed hqueue hstats =>
    refine ⟨p.queued, ?_, ?_, ?_⟩
    · rw [List.filterMap_append, filterMap_data_wrote]
      exact List.append_nil _
    · rw [hqueue, List.append_nil]
    · rw [hstats, writeFail_failUnless, List.countP_append, countP_failed_wrote]
      rfl
  | flushed hqueue hstats =>
    refine ⟨p.queued, ?_, ?_, ?_⟩
    · rw [List.filterMap_append, filterMap_data_wrote]
      exact List.append_nil _
    · rw [hqueue, List.append_nil]
    · rw [hstats, List.countP_append, countP_failed_wrote]
      exact (UInt64.add_zero _).symm

/-! ## Whole runs -/

/-- **A run of calls conserves the records**: those queued at the start, then those admitted, are written or still
queued, in order. -/
theorem after_conserved {c : Crates} (hc : c.Standard) (S : Storage σ ε) {filter : FilterConfig} :
    ∀ (calls : List Call) {x : Pipeline N Q × σ × List Op} {w : List UInt8}, Tracks c filter w x.1 →
      ∃ ops written, (after c S.traced x calls).2.2 = x.2.2 ++ ops ∧ ops.filterMap Op.data = written.map (image c) ∧
        x.1.queued ++ admitted (history c S.traced filter x w calls) = written ++ (after c S.traced x calls).1.queued ∧
        (after c S.traced x calls).1.stats.writeFail = x.1.stats.writeFail + UInt64.ofNat (ops.countP Op.failed)
  | [], x, w, h => ⟨[], [], (List.append_nil _).symm, rfl, List.append_nil _, (UInt64.add_zero _).symm⟩
  | .ingest bytes :: calls, x, w, h => by
    obtain ⟨ht, hr⟩ := ingest_reports bytes h
    obtain ⟨ops, written, hlog, hdata, hrec, hfail⟩ :=
      after_conserved hc S calls (x := (x.1.ingest c bytes, x.2)) ht
    refine ⟨ops, written, hlog, hdata, ?_, hfail.trans (congrArg (· + _) hr.writeFail)⟩
    rw [history, admitted_append, ← List.append_assoc]
    exact (congrArg (· ++ _) hr.queued.symm).trans hrec
  | .drain :: calls, x, w, h => by
    obtain ⟨ops, hops, hdrained⟩ := drain_drained hc S x.1 x.2
    obtain ⟨out, hout, hqueue, hcount⟩ := hdrained.conserved
    obtain ⟨ops', written, hlog, hdata, hrec, hfail⟩ := after_conserved hc S calls (x := (step c S.traced x .drain).1)
      (h.drain S.traced x.2)
    refine ⟨ops ++ ops', out ++ written, ?_, ?_, ?_, ?_⟩
    · rw [after_cons, hlog, ← List.append_assoc]
      exact congrArg (· ++ ops') hops
    · rw [List.filterMap_append, hout, hdata, List.map_append]
    · rw [history_drain, after_cons, List.append_assoc, ← hrec, hqueue, List.append_assoc]
      rfl
    · rw [after_cons, hfail, List.countP_append, UInt64.ofNat_add, ← UInt64.add_assoc]
      exact congrArg (· + _) hcount

/-- **The records of a run** from a new pipeline: those passed to `write`, then those queued, are those admitted, and
`write_fail` counts the failed calls. -/
theorem conserved_after {c : Crates} (hc : c.Standard) (S : Storage σ ε) (filter : FilterConfig) (s : σ)
    (calls : List Call) :
    let x := after c S.traced ((Pipeline.new filter : Pipeline N Q), s, []) calls
    (∃ written, x.2.2.filterMap Op.data = written.map (image c) ∧ written ++ x.1.queued
      = admitted (history c S.traced filter ((Pipeline.new filter : Pipeline N Q), s, []) [] calls)) ∧
    x.1.stats.writeFail = UInt64.ofNat (x.2.2.countP Op.failed) := by
  intro x
  obtain ⟨ops, written, hlog, hdata, hrec, hfail⟩ := after_conserved hc S calls
    (x := ((Pipeline.new filter : Pipeline N Q), s, [])) (tracks_new c filter)
  obtain rfl : x.2.2 = ops := hlog
  exact ⟨⟨written, hdata, hrec.symm⟩, hfail.trans (UInt64.zero_add _)⟩

theorem count_ok_classes : ∀ h : List (Verdict × Bool), (classes h).count .ok = (admitted h).length
  | [] => rfl
  | (v, full) :: h => by
    rw [classes_cons, count_ok_classes h, admitted, admitted, List.flatMap_cons, List.length_append]
    congr 1
    cases v with
    | offer record => cases full <;> rfl
    | _ => rfl

/-- **Conservation under storage failures.**  After any run from a new pipeline, on any storage: every call of `write`
got exactly one encoded record; the records written, then those queued, are the records admitted, in order; `ok` counts
them and `write_fail` counts the failed calls; the verdicts behind the admissions are those of the stream; and the next
drain is one of the three that `Drained` lists. -/
theorem records_conserved {c : Crates} (hc : c.Standard) (S : Storage σ ε) (filter : FilterConfig) (s : σ)
    (calls : List Call) :
    let x₀ : Pipeline N Q × σ × List Op := (Pipeline.new filter, s, [])
    let x := after c S.traced x₀ calls
    let h := history c S.traced filter x₀ [] calls
    (∃ written : List StoredRecord,
      written.mapM (fun r => encode c r maxStoredRecordBytes) = .ok (x.2.2.filterMap Op.data) ∧
      written ++ x.1.queued = admitted h ∧
      x.1.stats.ok = UInt64.ofNat (written.length + x.1.queued.length)) ∧
    x.1.stats.writeFail = UInt64.ofNat (x.2.2.countP Op.failed) ∧
    h.map Prod.fst = verdicts c N filter [] (stream calls) ∧
    ∃ ops, (x.1.drain c S.traced x.2).2.1.2 = x.2.2 ++ ops ∧
      Drained c x.1 (x.1.drain c S.traced x.2).1 ops (x.1.drain c S.traced x.2).2.2 := by
  intro x₀ x h
  obtain ⟨⟨written, hdata, hrec⟩, hfail⟩ := conserved_after hc S filter s calls
  refine ⟨⟨written, ?_, hrec, ?_⟩, hfail, history_verdicts c S.traced filter calls x₀ [], drain_drained hc S x.1 x.2⟩
  · rw [hdata]
    exact mapM_eq_pure (fun r => Record.encode_eq_ok hc r (by decide)) written
  · refine (counter_after c S.traced filter (s, []) calls .ok).trans ?_
    rw [count_ok_classes, ← List.length_append, hrec]

/-- A storage whose first write fails. -/
def failFirst : Storage Bool Unit where
  write failed _ := (true, if failed then .ok () else .error ())
  flush failed := (failed, .ok ())

/-- Two frames, and a drain whose first write fails: the second record stays queued, and the next drain writes it. -/
theorem records_conserved_run :
    let x₀ : Pipeline 512 8 × Bool × List Op := (Pipeline.new .allowAll, false, [])
    let calls : List Call := [.ingest ([3, 1, 1, 5, 255, 255, 255, 255, 1, 3, 244, 118, 0,
      3, 1, 1, 1, 1, 1, 1, 1, 1, 3, 165, 125, 0].map (⟨·, 7⟩)), .drain]
    let x := after Crates.documented failFirst.traced x₀ calls
    let lost : StoredRecord := .v1 ⟨7, 0xFFFFFFFF, 1, 0, Heapless.Vec.new⟩
    let kept : StoredRecord := .v1 ⟨7, 0, 1, 0, Heapless.Vec.new⟩
    (∃ written : List StoredRecord,
      written.mapM (fun r => encode Crates.documented r maxStoredRecordBytes) = .ok (x.2.2.filterMap Op.data) ∧
      written ++ x.1.queued = [lost, kept] ∧ x.1.stats.ok = UInt64.ofNat (written.length + x.1.queued.length)) ∧
    x.1.queued = [kept] ∧ x.1.stats.writeFail = 1 ∧
    (history Crates.documented failFirst.traced .allowAll x₀ [] calls).map Prod.fst
      = verdicts Crates.documented 512 .allowAll [] (stream calls) ∧
    ∃ ops, (x.1.drain Crates.documented failFirst.traced x.2).2.1.2 = x.2.2 ++ ops ∧
      Drained Crates.documented x.1 (x.1.drain Crates.documented failFirst.traced x.2).1 ops (.ok 1) := by
  intro x₀ calls x lost kept
  obtain ⟨⟨written, hdata, hrec, hok⟩, hfail, hverdicts, ops, hops, hdrained⟩ := records_conserved (N := 512) (Q := 8)
    Crates.documented_standard failFirst .allowAll false calls
  have hadmitted : admitted (history Crates.documented failFirst.traced .allowAll x₀ [] calls) = [lost, kept] := by
    decide +kernel
  have hfailed : x.2.2.countP Op.failed = 1 := by decide +kernel
  have hdone : (x.1.drain Crates.documented failFirst.traced x.2).2.2 = .ok 1 := by decide +kernel
  rw [hdone] at hdrained
  refine ⟨⟨written, hdata, hrec.trans hadmitted, hok⟩, by decide +kernel, ?_, hverdicts, ops, hops, hdrained⟩
  exact hfail.trans (congrArg UInt64.ofNat hfailed)

end Telemetry
