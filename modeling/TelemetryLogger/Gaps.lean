import TelemetryLogger.Batch
import TelemetryLogger.Host
import TelemetryLogger.Lib.Adjacent
/-!
# Gaps — every hole in the log is a counted event

Two records that were offered one after the other and do not follow in sequence have a gap rejection or a filtered frame
between them (`breaks_offers_le`).  A full queue, a failed write and a record still queued each leave records out, and
an element left out makes at most one more hole.  So the holes in what was stored are counted (`no_silent_gap`).
-/
namespace Telemetry

open Record (encode image)
open Adjacent (breaks)

variable {N Q : Nat} {σ ε : Type}

def StoredRecord.sequence : StoredRecord → UInt32
  | .v1 r => r.sequence

/-- `b` is numbered right after `a`, modulo `2 ^ 32`. -/
def Succeeds (a b : StoredRecord) : Prop := b.sequence = a.sequence + 1

instance : DecidableRel Succeeds := fun a b => inferInstanceAs (Decidable (b.sequence = a.sequence + 1))

/-! ## Holes in what is offered -/

/-- **What one segment can do**: leave the sequence check alone and offer nothing; or set it, being rejected or
filtered; or set it to the record it offers, which follows the one before. -/
inductive Judged (last : Option UInt32) : Option UInt32 → Verdict → Prop
  | aside {v : Verdict} (hv : v.admitted false = []) : Judged last last v
  | refused {seq : UInt32} {v : Verdict} (hv : v = .seqGap ∨ v = .filtered) : Judged last (some seq) v
  | offered {r : StoredRecord} (hr : ∀ l ∈ last, r.sequence = l + 1) : Judged last (some r.sequence) (.offer r)

theorem judgeFrame_judged {c : Crates} {f : Frame} (h : Counted c f) (filter : FilterConfig) (last : Option UInt32)
    (now : UInt64) : Judged last (some f.header.sequence) (judgeFrame c filter last f now) := by
  rw [judgeFrame_of_counted h]
  by_cases hseq : ∀ l ∈ last, f.header.sequence = l + 1
  · rw [(gap_eq_false_iff _ _).2 hseq, if_neg Bool.false_ne_true]
    by_cases hallow : filter.allow f = true
    · rw [if_pos hallow]
      exact .offered (r := recordOf f now) hseq
    · rw [if_neg hallow]
      exact .refused (Or.inr rfl)
  · rw [(gap_eq_true_iff _ _).2 hseq, if_pos rfl]
    exact .refused (Or.inl rfl)

theorem judgeSegment_judged (c : Crates) (N : Nat) (filter : FilterConfig) (last : Option UInt32)
    (x : List UInt8 × UInt64) :
    Judged last (judgeSegment c N filter last x).1 (judgeSegment c N filter last x).2 := by
  obtain ⟨p, now⟩ := x
  by_cases hp : ∃ f, Intact c N p f
  · obtain ⟨f, hf⟩ := hp
    rw [judgeSegment_of_intact hf]
    by_cases hk : f.Known
    · rw [if_pos hk]
      exact judgeFrame_judged (hf.counted_iff.2 hk) filter last now
    · rw [if_neg hk, judgeFrame_of_unknown hf.crc hk]
      exact .aside rfl
  · obtain ⟨hlast, hv⟩ := judgeSegment_of_not_intact (not_exists.1 hp) filter last now
    rw [hlast]
    apply Judged.aside
    rcases hv with hv | hv <;> rw [hv] <;> rfl

/-- The sequence check stands at the last of the records, if there is one. -/
def Abreast (last : Option UInt32) (rs : List StoredRecord) : Prop := ∀ r ∈ rs.getLast?, last = some r.sequence

instance (last : Option UInt32) (rs : List StoredRecord) : Decidable (Abreast last rs) :=
  inferInstanceAs (Decidable (∀ r ∈ rs.getLast?, last = some r.sequence))

/-- The holes in the records offered so far, and one to come once the sequence check is past the last of them. -/
def holes (last : Option UInt32) (rs : List StoredRecord) : Nat :=
  breaks Succeeds rs + if Abreast last rs then 0 else 1

/-- **One segment opens a hole only by a rejection or a filtered frame.** -/
theorem Judged.holes_le {last last' : Option UInt32} {v : Verdict} (h : Judged last last' v) (rs : List StoredRecord) :
    holes last' (rs ++ v.admitted false) ≤ holes last rs + ([v].count .seqGap + [v].count .filtered) := by
  cases h with
  | aside hv =>
    rw [hv, List.append_nil]
    exact Nat.le_add_right _ _
  | refused hv =>
    have hnone : v.admitted false = [] := by rcases hv with rfl | rfl <;> rfl
    have hcount : [v].count .seqGap + [v].count .filtered = 1 := by rcases hv with rfl | rfl <;> rfl
    rw [hnone, List.append_nil, hcount, holes, holes]
    split <;> omega
  | @offered r hr =>
    have habreast : Abreast (some r.sequence) (rs ++ [r]) := by
      intro b hb
      rw [List.getLast?_concat, Option.mem_some_iff] at hb
      rw [hb]
    rw [Verdict.admitted, if_neg Bool.false_ne_true, holes, holes, if_pos habreast, Adjacent.breaks_snoc]
    by_cases hlast : Abreast last rs
    · have hnext : ∀ b ∈ rs.getLast?, Succeeds b r := fun b hb => hr _ (hlast b hb)
      rw [if_pos hlast, if_pos hnext]
      exact Nat.le_add_right _ _
    · rw [if_neg hlast]
      split <;> omega

theorem offers_snoc (vs : List Verdict) (v : Verdict) : offers (vs ++ [v]) = offers vs ++ v.admitted false := by
  rw [offers, List.flatMap_append, List.flatMap_singleton, ← offers]

theorem holes_judgeAll_le (c : Crates) (N : Nat) (filter : FilterConfig) (xs : List (List UInt8 × UInt64)) :
    let judged := judgeAll c N filter none xs
    holes judged.1 (offers judged.2) ≤ judged.2.count .seqGap + judged.2.count .filtered := by
  induction xs using List.reverseRecOn with
  | nil => simp [judgeAll, Machine.run, offers, holes, breaks, Abreast]
  | append_singleton xs x ih =>
    intro judged
    have hstep := (judgeSegment_judged c N filter (judgeAll c N filter none xs).1 x).holes_le
      (offers (judgeAll c N filter none xs).2)
    have hstate : judged.1 = (judgeSegment c N filter (judgeAll c N filter none xs).1 x).1 :=
      Machine.run_snoc_fst _ xs x none
    have hvs : judged.2 = (judgeAll c N filter none xs).2
        ++ [(judgeSegment c N filter (judgeAll c N filter none xs).1 x).2] := Machine.run_snoc_snd _ xs x none
    rw [hstate, hvs, offers_snoc, List.count_append, List.count_append]
    simp only at ih
    omega

/-- **Every hole in the records a stream offers is rejected or filtered for.** -/
theorem breaks_offers_le (c : Crates) (N : Nat) (filter : FilterConfig) (bytes : List TimedByte) :
    let vs := verdicts c N filter [] bytes
    breaks Succeeds (offers vs) ≤ vs.count .seqGap + vs.count .filtered := by
  intro vs
  have hholes := holes_judgeAll_le c N filter (segments bytes)
  have hcount : ∀ v, v ≠ .quiet → v ≠ .crcFail →
      (judgeAll c N filter none (segments bytes)).2.count v = vs.count v := by
    intro v hq hc
    have hspoken := congrArg (List.count v) (judgeAll_segments c N filter bytes).2
    rw [List.count_append, spoken, spoken, List.count_filter (by simpa using hq), List.count_filter (by simpa using hq)]
      at hspoken
    have htail : List.count v (if N < (Split.opened 0 (untimed bytes)).length then [.crcFail] else []) = 0 := by
      rw [List.count_eq_zero]
      split <;> simp [hc]
    rw [htail, Nat.add_zero] at hspoken
    exact hspoken.symm
  rw [offers_verdicts, ← hcount .seqGap (by decide) (by decide), ← hcount .filtered (by decide) (by decide)]
  exact Nat.le_trans (Nat.le_add_right _ _) hholes

/-! ## Records left out -/

/-- **A full queue leaves out one record for each drop.** -/
theorem admitted_sublist : ∀ h : List (Verdict × Bool), (admitted h).Sublist (offers (h.map Prod.fst)) ∧
    (offers (h.map Prod.fst)).length = (admitted h).length + (classes h).count .dropped
  | [] => ⟨List.Sublist.slnil, rfl⟩
  | (v, full) :: h => by
    obtain ⟨hsub, hlen⟩ := admitted_sublist h
    rw [classes_cons, admitted, List.flatMap_cons, ← admitted, List.map_cons, offers, List.flatMap_cons, ← offers]
    cases v with
    | offer r =>
      cases full with
      | false =>
        refine ⟨hsub.cons_cons r, ?_⟩
        simp only [Verdict.admitted, Verdict.counter, List.length_append, hlen]
        simp
        omega
      | true =>
        refine ⟨hsub.cons r, ?_⟩
        simp only [Verdict.admitted, Verdict.counter, List.length_append, hlen]
        simp
        omega
    | _ => exact ⟨hsub, hlen.trans (by simp [Verdict.admitted, Verdict.counter])⟩

theorem counter_eq_seqGap_iff (v : Verdict) (full : Bool) : v.counter full = some .seqGap ↔ v = .seqGap := by
  cases v <;> cases full <;> simp [Verdict.counter]

theorem counter_eq_filtered_iff (v : Verdict) (full : Bool) : v.counter full = some .filtered ↔ v = .filtered := by
  cases v <;> cases full <;> simp [Verdict.counter]

theorem count_classes_eq {k : Counter} {u : Verdict}
    (hk : ∀ (v : Verdict) (full : Bool), v.counter full = some k ↔ v = u) : ∀ h : List (Verdict × Bool),
    (classes h).count k = (h.map Prod.fst).count u
  | [] => rfl
  | (v, full) :: h => by
    rw [classes_cons, count_classes_eq hk h, List.map_cons, List.count_cons, Nat.add_comm]
    simp only [hk v full, beq_iff_eq]

/-- **A failed write leaves out one record.** -/
theorem stored_sublist {c : Crates} : ∀ {ops : List Op} {written : List StoredRecord},
    ops.filterMap Op.data = written.map (image c) → ∃ stored : List StoredRecord, stored.Sublist written ∧
      (ops.filter Op.stored).filterMap Op.data = stored.map (image c) ∧
      written.length ≤ stored.length + ops.countP Op.failed
  | [], written, h => by
    obtain rfl : written = [] := List.map_eq_nil_iff.1 h.symm
    exact ⟨[], List.Sublist.slnil, rfl, Nat.le_refl 0⟩
  | .flush ok :: ops, written, h => by
    have hrest : ops.filterMap Op.data = written.map (image c) := h
    obtain ⟨stored, hsub, hdata, hlen⟩ := stored_sublist hrest
    refine ⟨stored, hsub, hdata, Nat.le_trans hlen ?_⟩
    rw [List.countP_cons]
    omega
  | .write data ok :: ops, written, h => by
    obtain ⟨r, rest, rfl, rfl, hrest⟩ := List.map_eq_cons_iff.1 h.symm
    obtain ⟨stored, hsub, hdata, hlen⟩ := stored_sublist hrest.symm
    cases ok with
    | true =>
      refine ⟨r :: stored, hsub.cons_cons r, congrArg (image c r :: ·) hdata, ?_⟩
      rw [List.countP_cons, List.length_cons, List.length_cons]
      omega
    | false =>
      refine ⟨stored, hsub.cons r, hdata, ?_⟩
      rw [List.countP_cons_of_pos rfl, List.length_cons]
      omega

/-! ## Holes in what is stored -/

/-- The holes in what a queue admits. -/
theorem breaks_admitted_le {c : Crates} {filter : FilterConfig} {bytes : List TimedByte} {h : List (Verdict × Bool)}
    (hv : h.map Prod.fst = verdicts c N filter [] bytes) : breaks Succeeds (admitted h)
      ≤ (classes h).count .seqGap + (classes h).count .filtered + (classes h).count .dropped := by
  obtain ⟨hsub, hlen⟩ := admitted_sublist h
  have hleft := Adjacent.breaks_sublist Succeeds hsub
  have hoffers := breaks_offers_le c N filter bytes
  rw [count_classes_eq counter_eq_seqGap_iff, count_classes_eq counter_eq_filtered_iff]
  rw [← hv] at hoffers
  simp only at hoffers
  omega

/-- **No silent gap.**  After any run from a new pipeline, on any storage, as long as no counter has wrapped: among the
records whose `write` returned `Ok`, in order, no more neighbours are out of sequence than there are gap rejections,
filtered frames, drops and failed storage calls. -/
theorem no_silent_gap {c : Crates} (hc : c.Standard) (S : Storage σ ε) (filter : FilterConfig) (s : σ)
    (calls : List Call) :
    let x₀ : Pipeline N Q × σ × List Op := (Pipeline.new filter, s, [])
    let x := after c S.traced x₀ calls
    (∀ k, (classes (history c S.traced filter x₀ [] calls)).count k < 2 ^ 64) → x.2.2.countP Op.failed < 2 ^ 64 →
    ∃ stored : List StoredRecord,
      stored.mapM (fun r => encode c r maxStoredRecordBytes) = .ok ((x.2.2.filter Op.stored).filterMap Op.data) ∧
      breaks Succeeds stored ≤ x.1.stats.seqGap.toNat + x.1.stats.filtered.toNat + x.1.stats.dropped.toNat
        + x.1.stats.writeFail.toNat := by
  intro x₀ x hcount hfailed
  obtain ⟨⟨written, hdata, hrec⟩, hfail⟩ := conserved_after hc S filter s calls
  have hrec' : admitted (history c S.traced filter x₀ [] calls) = written ++ x.1.queued := hrec.symm
  have hdata' : x.2.2.filterMap Op.data = written.map (image c) := hdata
  obtain ⟨stored, hsub, hstored, hleft⟩ := stored_sublist hdata'
  refine ⟨stored, ?_, ?_⟩
  · rw [hstored]
    exact mapM_eq_pure (fun r => Record.encode_eq_ok hc r (by decide : 507 ≤ maxStoredRecordBytes)) stored
  · have hvalue : ∀ k, (x.1.stats.counter k).toNat = (classes (history c S.traced filter x₀ [] calls)).count k := by
      intro k
      rw [← UInt64.toNat_ofNat_of_lt' (hcount k)]
      exact congrArg UInt64.toNat (counter_after c S.traced filter (s, []) calls k)
    have hwriteFail : x.1.stats.writeFail.toNat = x.2.2.countP Op.failed := by
      rw [← UInt64.toNat_ofNat_of_lt' hfailed]
      exact congrArg UInt64.toNat hfail
    have hwritten := Adjacent.breaks_append_le Succeeds x.1.queued written
    have hadmitted := breaks_admitted_le (history_verdicts c S.traced filter calls x₀ [])
    have hholes := Adjacent.breaks_sublist Succeeds hsub
    rw [← hrec'] at hwritten
    rw [← hvalue, ← hvalue, ← hvalue] at hadmitted
    rw [hwriteFail]
    simp only [Stats.counter] at hadmitted
    omega

theorem no_silent_gap_run :
    let frame₀ : List UInt8 := [3, 1, 1, 1, 1, 1, 1, 1, 1, 3, 165, 125, 0]
    let frame₁ : List UInt8 := [3, 1, 1, 5, 255, 255, 255, 255, 1, 3, 244, 118, 0]
    let x := after Crates.documented capturingStorage.traced ((Pipeline.new .allowAll : Pipeline 512 4), ([], 0), [])
      [.ingest ((frame₀ ++ frame₁ ++ frame₀).map (⟨·, 5⟩)), .drain]
    ∃ stored : List StoredRecord, stored.mapM (fun r => encode Crates.documented r maxStoredRecordBytes)
        = .ok ((x.2.2.filter Op.stored).filterMap Op.data) ∧
      breaks Succeeds stored ≤ x.1.stats.seqGap.toNat + x.1.stats.filtered.toNat + x.1.stats.dropped.toNat
        + x.1.stats.writeFail.toNat :=
  no_silent_gap Crates.documented_standard capturingStorage .allowAll ([], 0) _
    (fun k => by cases k <;> decide +kernel) (by decide +kernel)

end Telemetry
