import TelemetryLogger.Compare
import TelemetryLogger.Gaps
import TelemetryLogger.Host
import Mathlib.Data.List.Flatten
/-!
# Depth — what the depth of the queue costs

On a storage that does not fail every drain empties the queue.  So the queue keeps the first `Q` of the frames that pass
between one drain and the next (`admitted_windows`), and a deeper queue keeps no less (`deeper_queue_keeps_more`).
-/
namespace Telemetry

variable {N Q : Nat} {σ ε : Type}

/-- What the stream offers before the next drain, and between one drain and the next from there on. -/
def windows (c : Crates) (N : Nat) (filter : FilterConfig) :
    List UInt8 → List Call → List StoredRecord × List (List StoredRecord)
  | _, [] => ([], [])
  | w, .ingest bytes :: calls =>
    match windows c N filter (w ++ untimed bytes) calls with
    | (first, rest) => (offers (verdicts c N filter w bytes) ++ first, rest)
  | w, .drain :: calls =>
    match windows c N filter w calls with
    | (first, rest) => ([], first :: rest)

theorem windows_ingest (c : Crates) (filter : FilterConfig) (w : List UInt8) (bytes : List TimedByte)
    (calls : List Call) : windows c N filter w (.ingest bytes :: calls)
      = (offers (verdicts c N filter w bytes) ++ (windows c N filter (w ++ untimed bytes) calls).1,
        (windows c N filter (w ++ untimed bytes) calls).2) := rfl

theorem windows_drain (c : Crates) (filter : FilterConfig) (w : List UInt8) (calls : List Call) :
    windows c N filter w (.drain :: calls)
      = ([], (windows c N filter w calls).1 :: (windows c N filter w calls).2) := rfl

/-- **The windows are what the stream offers**, cut at the drains. -/
theorem flatten_windows (c : Crates) (filter : FilterConfig) : ∀ (calls : List Call) (w : List UInt8),
    (windows c N filter w calls).1 ++ (windows c N filter w calls).2.flatten
      = offers (verdicts c N filter w (stream calls))
  | [], _ => rfl
  | .ingest bytes :: calls, w => by
    have ih := flatten_windows c filter calls (w ++ untimed bytes)
    have hstream : stream (.ingest bytes :: calls) = bytes ++ stream calls := rfl
    rw [windows_ingest, List.append_assoc, ih, hstream, verdicts_append]
    exact List.flatMap_append.symm
  | .drain :: calls, w => by
    have ih := flatten_windows c filter calls w
    rw [windows_drain, List.nil_append, List.flatten_cons, ih]
    rfl

/-- **Bytes fill the free slots** with what they offer first. -/
theorem admitted_byteHistory {c : Crates} {filter : FilterConfig} : ∀ (bytes : List TimedByte) {w : List UInt8}
    {p : Pipeline N Q}, Tracks c filter w p → admitted (byteHistory c filter p w bytes)
      = (offers (verdicts c N filter w bytes)).take (Q - p.queued.length)
  | [], _, _, _ => List.take_nil.symm
  | b :: bytes, w, p, ht => by
    obtain ⟨ht', hreact⟩ := ingestByte_tracks ht b
    have ih := admitted_byteHistory bytes ht'
    have hqueued := hreact.queued
    have hlen : p.queued.length ≤ Q := p.ringbuf.queue.length_le
    have hoffers : offers (verdicts c N filter w (b :: bytes)) = (verdictAt c N filter w b).admitted false
        ++ offers (verdicts c N filter (w ++ [b.byte]) bytes) := rfl
    rw [byteHistory, admitted, List.flatMap_cons, ← admitted, ih, hqueued, hoffers]
    cases hv : verdictAt c N filter w b with
    | offer r =>
      cases hfull : p.ringbuf.queue.isFull with
      | true =>
        have hQ : p.queued.length = Q := (Heapless.Deque.isFull_iff p.ringbuf.queue).1 hfull
        simp only [Verdict.admitted, if_true, List.append_nil, hQ, Nat.sub_self, List.take_zero]
      | false =>
        have hQ : p.queued.length ≠ Q := fun h => by
          rw [(Heapless.Deque.isFull_iff p.ringbuf.queue).2 h] at hfull
          cases hfull
        have hroom : Q - p.queued.length = Q - (p.queued.length + 1) + 1 := by omega
        rw [List.length_append, hroom]
        rfl
    | _ => simp only [Verdict.admitted, List.append_nil, List.nil_append]

/-- **The queue keeps the first `Q` of each window**, less what it holds already. -/
theorem admitted_windows {c : Crates} (hc : c.Standard) {S : Storage σ ε} (hS : Healthy S) {filter : FilterConfig} :
    ∀ (calls : List Call) {x : Pipeline N Q × σ} {w : List UInt8}, Tracks c filter w x.1 →
      admitted (history c S filter x w calls) = (windows c N filter w calls).1.take (Q - x.1.queued.length)
        ++ (windows c N filter w calls).2.flatMap (List.take Q)
  | [], _, _, _ => by
    rw [windows, List.take_nil]
    rfl
  | .ingest bytes :: calls, x, w, ht => by
    obtain ⟨ht', hreport⟩ := ingest_reports bytes ht
    have hhead := admitted_byteHistory bytes ht
    have ih := admitted_windows hc hS calls (x := (x.1.ingest c bytes, x.2)) ht'
    have hqueued : (x.1.ingest c bytes).queued.length = x.1.queued.length
        + ((offers (verdicts c N filter w bytes)).take (Q - x.1.queued.length)).length := by
      rw [hreport.queued, List.length_append, hhead]
    have hlen : x.1.queued.length ≤ Q := x.1.ringbuf.queue.length_le
    rw [history, admitted_append, Call.bytes, hhead, windows_ingest, List.take_append, List.append_assoc]
    refine congrArg (_ ++ ·) (ih.trans ?_)
    refine congrArg (fun k => List.take k _ ++ _) ?_
    show Q - (x.1.ingest c bytes).queued.length = _
    rw [hqueued, List.length_take]
    omega
  | .drain :: calls, x, w, ht => by
    have ih := admitted_windows hc hS calls (x := (step c S x .drain).1) (ht.drain S x.2)
    have hempty : (step c S x .drain).1.1.queued = [] := (drain_healthy hc hS x.1 x.2).1
    rw [hempty, List.length_nil, Nat.sub_zero] at ih
    rw [history_drain, ih, windows_drain, List.take_nil, List.nil_append, List.flatMap_cons]

/-! ## All but the queue -/

/-- The counters that do not depend on the queue. -/
theorem count_classes_of_front {k : Counter} (hok : k ≠ .ok) (hdropped : k ≠ .dropped) :
    ∀ h : List (Verdict × Bool), (classes h).count k = tally (h.map Prod.fst) k
  | [] => rfl
  | (v, full) :: h => by
    have hcounter : v.counter full = some k ↔ v.counter false = some k := by
      cases v with
      | offer r => cases full <;> simp [Verdict.counter, hok.symm, hdropped.symm]
      | _ => exact Iff.rfl
    rw [classes_cons, List.map_cons, tally_cons, count_classes_of_front hok hdropped h, if_congr hcounter rfl rfl]

/-- **Nothing is lost where nothing is cut off.** -/
theorem flatMap_take_eq_flatten_iff {α : Type} (k : Nat) : ∀ ws : List (List α),
    ws.flatMap (List.take k) = ws.flatten ↔ ∀ w ∈ ws, w.length ≤ k
  | [] => by simp
  | w :: ws => by
    have ih := flatMap_take_eq_flatten_iff k ws
    rw [List.forall_mem_cons, ← ih, List.flatMap_cons, List.flatten_cons]
    constructor
    · intro h
      have hlen := congrArg List.length h
      have hle : (ws.flatMap (List.take k)).length ≤ ws.flatten.length := by
        rw [← List.flatMap_id']
        exact (List.Sublist.flatMap_right ws (fun v _ => List.take_sublist k v)).length_le
      rw [List.length_append, List.length_append, List.length_take] at hlen
      have hw : w.length ≤ k := by omega
      rw [List.take_of_length_le hw] at h
      exact ⟨hw, List.append_cancel_left h⟩
    · rintro ⟨hw, h⟩
      rw [List.take_of_length_le hw, h]

/-- **What a queue of `Q` slots makes of the windows**: it records the first `Q` of each, and drops the others. -/
structure Keeps (c : Crates) (ws : List (List StoredRecord)) (x : Pipeline N Q × σ × List Op) : Prop where
  recorded : Recorded c x (ws.flatMap (List.take Q))
  ok : x.1.stats.ok = .ofNat (ws.flatMap (List.take Q)).length
  dropped : x.1.stats.dropped = .ofNat (ws.flatten.length - (ws.flatMap (List.take Q)).length)

theorem keeps_windows {c : Crates} (hc : c.Standard) {S : Storage σ ε} (hS : Healthy S) (filter : FilterConfig) (s : σ)
    (calls : List Call) :
    Keeps c ((windows c N filter [] calls).1 :: (windows c N filter [] calls).2)
      (after c S.traced ((Pipeline.new filter : Pipeline N Q), s, []) calls) := by
  have hadmitted := admitted_windows hc hS.traced calls (x := ((Pipeline.new filter : Pipeline N Q), s, []))
    (tracks_new c filter)
  have hcounter := counter_after (N := N) (Q := Q) c S.traced filter (s, []) calls
  obtain ⟨⟨written, hdata, hrec⟩, -⟩ := conserved_after (N := N) (Q := Q) hc S filter s calls
  have hlen := (admitted_sublist (history c S.traced filter ((Pipeline.new filter : Pipeline N Q), s, []) []
    calls)).2
  rw [history_verdicts, ← flatten_windows, ← List.flatten_cons] at hlen
  have hkept : admitted (history c S.traced filter ((Pipeline.new filter : Pipeline N Q), s, []) [] calls)
      = ((windows c N filter [] calls).1 :: (windows c N filter [] calls).2).flatMap (List.take Q) := hadmitted
  refine ⟨⟨written, hdata, hrec.trans hkept⟩, ?_, ?_⟩
  · refine (hcounter .ok).trans ?_
    rw [count_ok_classes, hkept]
  · refine (hcounter .dropped).trans (congrArg UInt64.ofNat ?_)
    rw [← hkept]
    omega

/-- **A deeper queue keeps no less.**  Two pipelines that differ in their queues get the same calls, each on a storage
that does not fail.  Each records the first frames of each window, as many as its queue has slots, and counts the others
as dropped; so the records of the deeper one are those of the other and more, all other frames are counted alike, no
write fails, and a queue loses nothing exactly when no window offers more than it has slots. -/
theorem deeper_queue_keeps_more {c : Crates} (hc : c.Standard) {Q' : Nat} (hQ : Q ≤ Q') {σ' ε' : Type}
    {S : Storage σ ε} (hS : Healthy S) {S' : Storage σ' ε'} (hS' : Healthy S') (filter : FilterConfig) (s : σ) (s' : σ')
    (calls : List Call) :
    let x := after c S.traced ((Pipeline.new filter : Pipeline N Q), s, []) calls
    let x' := after c S'.traced ((Pipeline.new filter : Pipeline N Q'), s', []) calls
    let ws := (windows c N filter [] calls).1 :: (windows c N filter [] calls).2
    ws.flatten = offers (verdicts c N filter [] (stream calls)) ∧ Keeps c ws x ∧ Keeps c ws x' ∧
    (ws.flatMap (List.take Q)).Sublist (ws.flatMap (List.take Q')) ∧
    (∀ k, k ≠ .ok → k ≠ .dropped → x.1.stats.counter k = x'.1.stats.counter k) ∧
    (x.1.stats.writeFail = 0 ∧ x'.1.stats.writeFail = 0) ∧
    (ws.flatMap (List.take Q) = ws.flatten ↔ ∀ w ∈ ws, w.length ≤ Q) := by
  intro x x' ws
  refine ⟨flatten_windows c filter calls [], keeps_windows hc hS filter s calls, keeps_windows hc hS' filter s' calls,
    List.Sublist.flatMap_right ws (fun w _ => List.take_sublist_take_left hQ), ?_,
    ⟨after_writeFail hc hS.traced calls (tracks_new c filter),
      after_writeFail hc hS'.traced calls (tracks_new c filter)⟩,
    flatMap_take_eq_flatten_iff Q ws⟩
  intro k hok hdropped
  have hcount := counter_after (N := N) (Q := Q) c S.traced filter (s, []) calls k
  have hcount' := counter_after (N := N) (Q := Q') c S'.traced filter (s', []) calls k
  rw [count_classes_of_front hok hdropped, history_verdicts] at hcount hcount'
  exact hcount.trans hcount'.symm

/-- Two heartbeats between two drains, for one slot and for two. -/
theorem deeper_queue_keeps_more_run :
    let calls := [Call.ingest twoFrames.1, .drain]
    (after Crates.documented capturingStorage.traced ((Pipeline.new .allowAll : Pipeline 512 1), ([], 0), [])
      calls).1.stats.dropped = 1 ∧
    (after Crates.documented capturingStorage.traced ((Pipeline.new .allowAll : Pipeline 512 2), ([], 0), [])
      calls).1.stats.dropped = 0 := by
  intro calls
  have hhealthy : Healthy capturingStorage := ⟨fun _ _ => rfl, fun _ => rfl⟩
  have hkeeps := deeper_queue_keeps_more (N := 512) Crates.documented_standard (show 1 ≤ 2 by decide) hhealthy hhealthy
    .allowAll ([], 0) ([], 0) calls
  have hws : windows Crates.documented 512 .allowAll [] calls
      = ([.v1 ⟨7, 0, 1, 0, .new⟩, .v1 ⟨7, 1, 1, 0, .new⟩], [[]]) := by decide +kernel
  rw [hws] at hkeeps
  exact ⟨hkeeps.2.1.dropped, hkeeps.2.2.1.dropped⟩

end Telemetry
