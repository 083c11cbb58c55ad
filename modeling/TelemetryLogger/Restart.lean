import TelemetryLogger.Decode
import Mathlib.Data.Set.List
/-!
# Restart — successive runs of the logger in one directory

Every run is a `FileStorage::new` on the directory the run before left: its index starts at 0 again, and `File::create`
truncates the file that has the next name.  The directory is then overwritten by the segments of all runs
(`dir_afterRuns`), and a record survives in a segment whose name no later one takes (`restart_survives_iff`).
-/
namespace Telemetry

open FileStorage (segmentPath)
open Overwrite (lasting overwrite_append overwrite_iff)
open Record (encode image)
open Session (Segment layOut numberFrom)

/-! ## Histories -/

/-- One run of the logger: the limit `FileStorage::new` is given, and the requests. -/
structure Run where
  maxSegmentBytes : Nat
  requests : List (Request × Io)

namespace Run

def dir (run : Run) (dir : Dir) : Dir := ((Session.new run.maxSegmentBytes dir).after run.requests).dir

/-- The segments a run opens. -/
def segments (run : Run) : List Segment :=
  numberFrom 0 (Pack.pack List.length run.maxSegmentBytes (written run.requests))

/-- Without I/O errors, and of encoded records. -/
structure Sound (c : Crates) (run : Run) : Prop where
  succeeds : ∀ q ∈ run.requests, q.2.Succeeds
  records : ∀ data ∈ written run.requests, ∃ r, encode c r maxStoredRecordBytes = .ok data

end Run

/-- The directory after the runs of a history. -/
def afterRuns (dir : Dir) (history : List Run) : Dir := history.foldl (fun dir run => run.dir dir) dir

/-- **The runs overwrite the directory with their segments**, in order. -/
theorem dir_afterRuns : ∀ {history : List Run} (dir : Dir), (∀ run ∈ history, ∀ q ∈ run.requests, q.2.Succeeds) →
    afterRuns dir history = layOut dir (history.flatMap Run.segments)
  | [], _, _ => rfl
  | run :: history, dir, h => by
    have hrun := (Session.laid_after run.maxSegmentBytes dir run.requests (h run List.mem_cons_self)).dir
    have ih := dir_afterRuns (run.dir dir) (fun run' hrun' => h run' (List.mem_cons_of_mem run hrun'))
    rw [List.flatMap_cons, layOut, overwrite_append]
    exact ih.trans (congrArg (fun dir => layOut dir (history.flatMap Run.segments)) hrun)

theorem flatMap_writes_numberFrom : ∀ (k : Nat) (packs : List (List (List UInt8))),
    (numberFrom k packs).flatMap Segment.writes = packs.flatten
  | _, [] => rfl
  | k, p :: packs => by
    rw [numberFrom, List.flatMap_cons, flatMap_writes_numberFrom (k + 1) packs]
    rfl

/-- The segments of a run hold its writes, in order. -/
theorem Run.flatMap_writes (run : Run) : run.segments.flatMap Segment.writes = written run.requests := by
  rw [segments, flatMap_writes_numberFrom, Pack.flatten_pack]

theorem flatMap_writes (history : List Run) :
    (history.flatMap Run.segments).flatMap Segment.writes = history.flatMap (fun run => written run.requests) := by
  rw [List.flatMap_assoc]
  exact congrArg (fun f => history.flatMap f) (funext Run.flatMap_writes)

theorem encoded_of_sound {c : Crates} {history : List Run} (h : ∀ run ∈ history, run.Sound c) :
    ∀ s ∈ history.flatMap Run.segments, ∀ data ∈ s.writes, ∃ r, encode c r maxStoredRecordBytes = .ok data := by
  intro s hs data hdata
  have hmem : data ∈ (history.flatMap Run.segments).flatMap Segment.writes := List.mem_flatMap.2 ⟨s, hs, hdata⟩
  rw [flatMap_writes] at hmem
  obtain ⟨run, hrun, hwritten⟩ := List.mem_flatMap.1 hmem
  exact (h run hrun).records data hwritten

/-! ## The records of a segment -/

/-- **A segment of encoded records yields those written to it.** -/
theorem mem_readSegment_iff {c : Crates} (hc : c.Standard) {writes : List (List UInt8)}
    (hwrites : ∀ data ∈ writes, ∃ r, encode c r maxStoredRecordBytes = .ok data) (r : StoredRecord) :
    .ok r ∈ readSegment c writes.flatten ↔ ∃ data ∈ writes, encode c r maxStoredRecordBytes = .ok data := by
  have hencode : ∀ r, encode c r maxStoredRecordBytes = .ok (image c r) :=
    fun r => Record.encode_eq_ok hc r (by decide)
  obtain ⟨rs, rfl⟩ : ∃ rs : List StoredRecord, writes = rs.map (image c) := by
    have himages : ∀ data ∈ writes, ∃ r, image c r = data := by
      intro data hdata
      obtain ⟨r, hr⟩ := hwrites data hdata
      exact ⟨r, Except.ok.inj ((hencode r).symm.trans hr)⟩
    obtain ⟨rs, hrs⟩ := (Set.range_list_map (image c)).ge himages
    exact ⟨rs, hrs.symm⟩
  rw [← List.flatMap_def, readSegment_records hc]
  simp [hencode, (Record.image_injective hc).eq_iff]

/-! ## What survives -/

namespace Decode

/-- The disk holds this directory at `d`. -/
def Disk.Holds (disk : Disk) (d : PathBuf) (dir : Dir) : Prop :=
  ∀ name bytes, disk.read (d ++ [name]) = .ok bytes ↔ dir name = some bytes

/-- `read_segment_file` yields the record from some segment file of the directory at `d`. -/
def Yields (c : Crates) (disk : Disk) (d : PathBuf) (r : StoredRecord) : Prop :=
  ∃ name, isSegmentName name = true ∧ ∃ results, readSegmentFile c disk (d ++ [name]) = .ok results ∧ .ok r ∈ results

/-- There is a file, and the record is read from it. -/
def InFile (c : Crates) (r : StoredRecord) (file : Option (List UInt8)) : Prop :=
  ∃ bytes ∈ file, .ok r ∈ readSegment c bytes

theorem Disk.Holds.yields_iff {disk : Disk} {d : PathBuf} {dir : Dir} (h : disk.Holds d dir) (c : Crates)
    (r : StoredRecord) : Yields c disk d r ↔ ∃ name, isSegmentName name = true ∧ InFile c r (dir name) := by
  apply exists_congr
  intro name
  apply and_congr_right
  intro _
  unfold readSegmentFile
  constructor
  · rintro ⟨results, hread, hr⟩
    cases hbytes : disk.read (d ++ [name]) with
    | error e =>
      rw [hbytes] at hread
      cases hread
    | ok bytes =>
      rw [hbytes] at hread
      cases hread
      exact ⟨bytes, (h name bytes).1 hbytes, hr⟩
  · rintro ⟨bytes, hbytes, hr⟩
    refine ⟨readSegment c bytes, ?_, hr⟩
    rw [(h name bytes).2 hbytes]
    rfl

end Decode

open Decode (Disk PathBuf Yields InFile isSegmentName)

/-- The record was written to one of these segments, and no later one takes its name. -/
def Survives (c : Crates) (segments : List Segment) (r : StoredRecord) : Prop :=
  ∃ s ∈ lasting Segment.path segments, ∃ data ∈ s.writes, encode c r maxStoredRecordBytes = .ok data

/-- The record was in a segment file of the directory that is none of these segments. -/
def LeftAlone (c : Crates) (dir : Dir) (segments : List Segment) (r : StoredRecord) : Prop :=
  ∃ name, isSegmentName name = true ∧ (∀ s ∈ segments, s.path ≠ name) ∧ InFile c r (dir name)

instance (c : Crates) (segments : List Segment) (r : StoredRecord) : Decidable (Survives c segments r) :=
  inferInstanceAs (Decidable (∃ s ∈ _, ∃ data ∈ _, _))

/-- **What an overwritten directory yields.** -/
theorem layOut_yields_iff {c : Crates} (hc : c.Standard) (dir : Dir) {segments : List Segment}
    (hrecords : ∀ s ∈ segments, ∀ data ∈ s.writes, ∃ r, encode c r maxStoredRecordBytes = .ok data)
    (r : StoredRecord) : (∃ name, isSegmentName name = true ∧ InFile c r (layOut dir segments name)) ↔
      Survives c segments r ∨ LeftAlone c dir segments r := by
  have hfile : ∀ name, InFile c r (layOut dir segments name) ↔ _ := fun name =>
    overwrite_iff (P := InFile c r) name segments dir
  have hmem : ∀ s ∈ lasting Segment.path segments, InFile c r (some s.bytes) ↔
      ∃ data ∈ s.writes, encode c r maxStoredRecordBytes = .ok data := by
    intro s hs
    rw [← mem_readSegment_iff hc (hrecords s (Overwrite.mem_of_mem_lasting hs)) r]
    simp [InFile, Segment.bytes]
  constructor
  · rintro ⟨name, hname, h⟩
    rcases (hfile name).1 h with ⟨s, hs, rfl, hr⟩ | ⟨hnone, hr⟩
    · exact Or.inl ⟨s, hs, (hmem s hs).1 hr⟩
    · exact Or.inr ⟨name, hname, hnone, hr⟩
  · rintro (⟨s, hs, hr⟩ | ⟨name, hname, hnone, hr⟩)
    · have hpath := Decode.isSegmentName_segmentPath s.number
      exact ⟨s.path, hpath, (hfile s.path).2 (Or.inl ⟨s, hs, rfl, (hmem s hs).2 hr⟩)⟩
    · exact ⟨name, hname, (hfile name).2 (Or.inr ⟨hnone, hr⟩)⟩

/-- **What survives a restart.**  After any history of runs without I/O errors, whose writes are encoded records, the
segments of the runs hold all the writes, in order.  A record is then read from some segment file of the directory if
and only if it was written to a segment whose name no later segment takes, in its run or a later one, or was in a
segment file that no run opens. -/
theorem restart_survives_iff {c : Crates} (hc : c.Standard) (dir : Dir) {history : List Run}
    (hsound : ∀ run ∈ history, run.Sound c) {disk : Disk} {d : PathBuf} (hdisk : disk.Holds d (afterRuns dir history)) :
    let segments := history.flatMap Run.segments
    segments.flatMap Segment.writes = history.flatMap (fun run => written run.requests) ∧
    ∀ r : StoredRecord, Yields c disk d r ↔ Survives c segments r ∨ LeftAlone c dir segments r := by
  intro segments
  refine ⟨flatMap_writes history, ?_⟩
  intro r
  rw [hdisk.yields_iff, dir_afterRuns dir (fun run hrun => (hsound run hrun).succeeds)]
  exact layOut_yields_iff hc dir (encoded_of_sound hsound) r

/-- The disk of a session holds its directory. -/
theorem holds_diskOf (x : Session) (d : PathBuf) : (Session.diskOf x).Holds d x.dir := by
  intro name bytes
  unfold Session.diskOf
  simp only [List.getLastD_concat]
  cases x.dir name <;> simp

/-- A run that opens two files, for a record each, and a later run that opens one. -/
def earlierRun : Run :=
  ⟨20, [(.write (image Crates.documented firstRecord), healthyIo), (.flush, healthyIo),
    (.write (image Crates.documented secondRecord), healthyIo), (.flush, healthyIo)]⟩

def laterRun : Run :=
  ⟨20, [(.write (image Crates.documented (Session.numberedRecord 1)), healthyIo), (.flush, healthyIo)]⟩

theorem sound_runs : ∀ run ∈ [earlierRun, laterRun], run.Sound Crates.documented := by
  have hencode : ∀ r, encode Crates.documented r maxStoredRecordBytes = .ok (image Crates.documented r) :=
    fun r => Record.encode_eq_ok Crates.documented_standard r (by decide)
  intro run hrun
  simp only [List.mem_cons, List.not_mem_nil, or_false] at hrun
  rcases hrun with rfl | rfl
  · constructor
    · simp [earlierRun, Io.Succeeds, Io.Opens, healthyIo]
    · simpa [earlierRun, written, Request.data] using ⟨⟨_, hencode _⟩, ⟨_, hencode _⟩⟩
  · constructor
    · simp [laterRun, Io.Succeeds, Io.Opens, healthyIo]
    · simpa [laterRun, written, Request.data] using ⟨_, hencode _⟩

/-- The directory after both runs is that of the session of the later one. -/
def laterSession : Session :=
  (Session.new laterRun.maxSegmentBytes (earlierRun.dir (fun _ => none))).after laterRun.requests

/-- The record in the second file survives. -/
theorem restart_survives_run : Yields Crates.documented (Session.diskOf laterSession) [] secondRecord :=
  ((restart_survives_iff Crates.documented_standard (fun _ => none) sound_runs (holds_diskOf laterSession [])).2
    secondRecord).2 (Or.inl (by decide +kernel))

/-- **The record in the first file is lost**: the later run truncates `seg-00001.bin`. -/
theorem restart_loses_a_record :
    (∀ run ∈ [earlierRun, laterRun], run.Sound Crates.documented) ∧
    image Crates.documented firstRecord ∈ written earlierRun.requests ∧
    (Session.diskOf laterSession).Holds [] (afterRuns (fun _ => none) [earlierRun, laterRun]) ∧
    ∀ disk d, Disk.Holds disk d (afterRuns (fun _ => none) [earlierRun, laterRun]) →
      ¬ Yields Crates.documented disk d firstRecord := by
  refine ⟨sound_runs, by decide +kernel, holds_diskOf laterSession [], ?_⟩
  intro disk d hdisk
  rw [hdisk.yields_iff, dir_afterRuns _ (fun run hrun => (sound_runs run hrun).succeeds),
    layOut_yields_iff Crates.documented_standard _ (encoded_of_sound sound_runs)]
  rintro (hkept | ⟨name, -, -, bytes, hbytes, -⟩)
  · exact absurd hkept (by decide +kernel)
  · cases hbytes

end Telemetry
