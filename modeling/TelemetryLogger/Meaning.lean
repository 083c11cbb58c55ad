import TelemetryLogger.Depth
import TelemetryLogger.Logbook
/-!
# Meaning — what host and decoder compute together

The records of a log are a function of the bytes read: cut the stream at its zeros; of the segments that hold a frame,
those that follow the one before; of these, in each read, as many as the queue has slots (`Meaning.logged`).  That is
what the decoder prints, whatever comes in (`decode_means`).
-/
namespace Telemetry

namespace Meaning

/-- The frames of some segments, each with the time of its delimiter, after the sequence number `last`: the next such
number, and the records of the frames that follow the one before. -/
def accepted (c : Crates) (N : Nat) : Option UInt32 → List (List UInt8 × UInt64) → Option UInt32 × List StoredRecord
  | last, [] => (last, [])
  | last, (p, now) :: xs =>
    match reached c N p with
    | none => accepted c N last xs
    | some f =>
      let next := accepted c N (some f.header.sequence) xs
      (next.1, if last.all (fun l => f.header.sequence == l + 1) then recordOf f now :: next.2 else next.2)

/-- The segments that end in these bytes, after the bytes `rest` of an open one. -/
def closing (rest : List UInt8) (bytes : List TimedByte) : List (List UInt8 × UInt64) :=
  (Split.closed 0 (rest ++ untimed bytes)).zip (completions bytes)

/-- **The records logged of some reads**, after the sequence number `last` and the bytes `rest` of an open segment. -/
def logged (c : Crates) (filter : FilterConfig) : Option UInt32 → List UInt8 → List Chunk → List StoredRecord
  | _, _, [] => []
  | last, rest, chunk :: chunks =>
    let next := accepted c defaultMaxFrame last (closing rest chunk.1)
    (next.2.filter filter.allows).take hostQueueDepth
      ++ logged c filter next.1 (Split.opened 0 (rest ++ untimed chunk.1)) chunks

variable {N : Nat}

/-- A segment that does not reach the sequence check offers nothing. -/
theorem judgeSegment_of_none {c : Crates} {p : List UInt8} (h : reached c N p = none) (last : Option UInt32)
    (now : UInt64) : (judgeSegment c N .allowAll last (p, now)).1 = last ∧
      (judgeSegment c N .allowAll last (p, now)).2.admitted false = [] := by
  by_cases hintact : ∃ f, Intact c N p f
  · obtain ⟨f, hf⟩ := hintact
    have hknown : ¬ f.Known := by
      intro hknown
      rw [hf.reached, if_pos hknown] at h
      cases h
    rw [judgeSegment_of_intact hf, if_neg hknown, judgeFrame_of_unknown hf.crc hknown]
    exact ⟨rfl, rfl⟩
  · obtain ⟨hlast, hquiet | hfail⟩ := judgeSegment_of_not_intact (fun f hf => hintact ⟨f, hf⟩) .allowAll last now
    · rw [hquiet]
      exact ⟨hlast, rfl⟩
    · rw [hfail]
      exact ⟨hlast, rfl⟩

theorem judgeSegment_of_reached {c : Crates} {p : List UInt8} {f : Frame} (h : reached c N p = some f)
    (last : Option UInt32) (now : UInt64) : judgeSegment c N .allowAll last (p, now)
      = (some f.header.sequence,
        if last.all (fun l => f.header.sequence == l + 1) then .offer (recordOf f now) else .seqGap) := by
  have hf := intact_of_reached h
  have hknown : f.Known := by
    rw [hf.reached] at h
    by_contra hknown
    rw [if_neg hknown] at h
    cases h
  rw [judgeSegment_of_intact hf, if_pos hknown, judgeFrame_of_counted (hf.counted_iff.2 hknown),
    FilterConfig.allow_allowAll, if_pos rfl]
  cases last with
  | none => rfl
  | some l =>
    show (_, if (f.header.sequence != l + 1) = true then _ else _)
      = (_, if (f.header.sequence == l + 1) = true then _ else _)
    rw [bne]
    cases f.header.sequence == l + 1 <;> rfl

/-- **The frames accepted are those offered.** -/
theorem accepted_eq (c : Crates) (N : Nat) : ∀ (xs : List (List UInt8 × UInt64)) (last : Option UInt32),
    accepted c N last xs = ((judgeAll c N .allowAll last xs).1, offers (judgeAll c N .allowAll last xs).2)
  | [], _ => rfl
  | (p, now) :: xs, last => by
    have hoffers : ∀ v vs, offers (v :: vs) = v.admitted false ++ offers vs := fun _ _ => rfl
    rw [judgeAll, Machine.run_cons, ← judgeAll, hoffers]
    cases hreached : reached c N p with
    | none =>
      obtain ⟨hlast, hnone⟩ := judgeSegment_of_none hreached last now
      have ih := accepted_eq c N xs last
      simp only [accepted, hreached]
      rw [hlast, hnone, ih, List.nil_append]
    | some f =>
      have ih := accepted_eq c N xs (some f.header.sequence)
      simp only [accepted, hreached]
      rw [judgeSegment_of_reached hreached, ih]
      split <;> rfl

/-! ## The stream, read after read -/

theorem segments_append (bytes more : List TimedByte) :
    segments (bytes ++ more) = segments bytes ++ closing (Split.opened 0 (untimed bytes)) more := by
  unfold segments closing
  rw [untimed_append, completions_append, Split.closed_append_opened,
    List.zip_append (length_completions bytes).symm]

/-- **Each read offers the frames that are accepted in it.** -/
theorem offers_read (c : Crates) (N : Nat) (bytes more : List TimedByte) :
    ((lastReached c N (untimed (bytes ++ more))), offers (verdicts c N .allowAll (untimed bytes) more))
      = accepted c N (lastReached c N (untimed bytes)) (closing (Split.opened 0 (untimed bytes)) more) := by
  have hboth := offers_verdicts c N .allowAll (bytes ++ more)
  have hlast := (judgeAll_segments c N .allowAll (bytes ++ more)).1
  rw [segments_append, judgeAll, Machine.run_append, ← judgeAll, ← judgeAll,
    (judgeAll_segments c N .allowAll bytes).1] at hboth hlast
  rw [verdicts_append, List.nil_append, offers, offers, List.flatMap_append, List.flatMap_append, ← offers, ← offers,
    ← offers, ← offers, offers_verdicts, List.append_cancel_left_eq] at hboth
  rw [accepted_eq, hlast, hboth]

theorem windows_callsOf (c : Crates) (filter : FilterConfig) : ∀ (chunks : List Chunk) (bytes : List TimedByte),
    (windows c defaultMaxFrame filter (untimed bytes) (callsOf chunks)).1.take hostQueueDepth
        ++ (windows c defaultMaxFrame filter (untimed bytes) (callsOf chunks)).2.flatMap (List.take hostQueueDepth)
      = logged c filter (lastReached c defaultMaxFrame (untimed bytes)) (Split.opened 0 (untimed bytes)) chunks
  | [], _ => rfl
  | chunk :: chunks, bytes => by
    have ih := windows_callsOf c filter chunks (bytes ++ chunk.1)
    have hread := offers_read c defaultMaxFrame bytes chunk.1
    have hcalls : callsOf (chunk :: chunks) = .ingest chunk.1 :: .drain :: callsOf chunks := rfl
    rw [hcalls, windows_ingest, windows_drain, List.append_nil, List.flatMap_cons, ← untimed_append, ih,
      verdicts_restrict, offers_restrict, logged, ← hread, untimed_append, ← Split.opened_append_opened]

end Meaning

section

variable {c : Crates} (hc : c.Standard) {world : Host.World} {args : Host.Args}
  {reads : List (Except IoErrorKind Chunk)} {l : Loop Host.Files}

include hc

/-- **What is logged is what is counted**, if nothing fails. -/
theorem counted_eq_logged (h : Host.Ran c world args reads l) :
    counted c world args reads = Meaning.logged c (Host.filterOf args).1 none [] (consumed reads) := by
  have hS : Healthy (FileStorage.storage world.io).traced :=
    (FileStorage.storage_healthy (fun n => (h.succeeds n).1) (fun n => (h.succeeds n).2)).traced
  have hwindows := admitted_windows (N := defaultMaxFrame) (Q := hostQueueDepth) hc hS (callsOf (consumed reads))
    (x := ((Pipeline.new (Host.filterOf args).1 : DefaultPipeline), (.new args.segmentSize, world.dir, 0), []))
    (tracks_new c (Host.filterOf args).1)
  exact hwindows.trans (Meaning.windows_callsOf c (Host.filterOf args).1 (consumed reads) [])

/-- **What host and decoder mean.**  Whatever bytes a host reads, in whatever portions, and however its loop ends: a
reader of the decoder's `JSON` gets the records logged, if they pass the decoder's filter, and `ok` counts the records
logged. -/
theorem decode_means (h : Host.Logs c world args reads l) {disk : Decode.Disk} {dargs : Decode.Args}
    (hinspects : Host.Inspects disk l.storage.1.2.1 dargs) (stats : Bool)
    (draw : List (List Char) → List (List (List Char)) → List Char) :
    let records := Meaning.logged c (Host.filterOf args).1 none [] (consumed reads)
    l.pipeline.stats.ok = .ofNat records.length ∧
    (Decode.main c disk dargs .json stats).map (fun s => Decode.readJson (Decode.output draw s.stdout))
      = if records = [] then .error .noInputFiles else .ok (some (records.filter (Decode.passesFilter dargs))) := by
  intro records
  have hcounted : counted c world args reads = records := counted_eq_logged hc h.toRan
  rw [← hcounted]
  exact ⟨h.ok_eq hc, h.readJson hc hinspects stats draw⟩

end

/-- Two frames in one read. -/
theorem decode_means_run : (Decode.main Crates.documented (calmDisk Crates.documented plainArgs [.ok twoFrames])
    Session.decodeHere .json true).map (fun s => Decode.readJson (Decode.output (fun _ _ => []) s.stdout))
    = .ok (some [.v1 ⟨7, 0, 1, 0, .new⟩, .v1 ⟨7, 1, 1, 0, .new⟩]) := by
  have hlogs : Host.Logs Crates.documented (calm [.ok twoFrames]) plainArgs [.ok twoFrames] _ :=
    logs_calm (show Host.Source.ofSpec plainArgs.input = some .stdin from rfl) (by decide +kernel)
  have hmounts := mounts_calm Crates.documented_standard hlogs []
  have hlogged : Meaning.logged Crates.documented (Host.filterOf plainArgs).1 none [] (consumed [.ok twoFrames])
      = [.v1 ⟨7, 0, 1, 0, .new⟩, .v1 ⟨7, 1, 1, 0, .new⟩] := by decide +kernel
  have hmeans := (decode_means Crates.documented_standard hlogs
    (show Host.Inspects _ _ Session.decodeHere from ⟨rfl, [], rfl, hmounts⟩) true (fun _ _ => [])).2
  rw [hlogged] at hmeans
  exact hmeans

end Telemetry
