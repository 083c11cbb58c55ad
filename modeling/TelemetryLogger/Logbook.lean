import TelemetryLogger.Compare
import TelemetryLogger.Formats
import TelemetryLogger.Udp
/-!
# Logbook — from the input of `telemetry-host` to the output of `telemetry-decode`

The host's storage is a session of the file storage, whose requests are the calls of the loop (`tied_after`).  So what
the pipeline counts is in the files, and the decoder reads it back from the directory, in order (`decode_reads_host`);
and it makes no difference whether the host filters, or the decoder (`filter_late`).
-/
namespace Telemetry

open FileStorage (segmentPath)
open Record (image)

/-! ## The host -/

namespace Host

structure Args where
  input : List Char
  segmentSize : Nat
  minSeverity : UInt8
  allowTypes : List UInt8
  statsInterval : UInt64

inductive Source
  | stdin
  | file (path : List Char)
  | tcp (addr : List Char)
  | udp (addr : List Char)
  deriving DecidableEq

def Source.ofSpec (spec : List Char) : Option Source :=
  if spec = "-".toList then some .stdin
  else if let some path := "file:".toList.isPrefixOf? spec then some (.file path)
  else if let some addr := "tcp:".toList.isPrefixOf? spec then some (.tcp addr)
  else if let some addr := "udp:".toList.isPrefixOf? spec then some (.udp addr)
  else none

/-- The types pushed before the list is full, and whether one is left over. -/
def pushTypes : Heapless.Vec UInt8 maxFilterTypes → List UInt8 → Heapless.Vec UInt8 maxFilterTypes × Bool
  | list, [] => (list, false)
  | list, t :: ts =>
    match list.push t with
    | none => (list, true)
    | some list => pushTypes list ts

/-- The filter, and whether the warning of too many types is printed. -/
def filterOf (args : Args) : FilterConfig × Bool :=
  if args.allowTypes.isEmpty then (⟨args.minSeverity, none⟩, false)
  else
    match pushTypes .new args.allowTypes with
    | (list, warned) => (⟨args.minSeverity, some list⟩, warned)

/-- What the system answers: to `create_dir_all`, to the calls on the files of the directory, and to the calls that open
a source; its answers are those of the reads. -/
structure World where
  createDirAll : Except IoError Unit
  dir : Dir
  io : Nat → Io
  connect : Source → Except IoError (List (Except IoErrorKind Chunk))

inductive Failure
  | outputDirectory (e : IoError)
  | unrecognisedSource (spec : List Char)
  | source (e : IoError)
  deriving DecidableEq

/-- The storage of the host, with the calls made on it. -/
abbrev Files : Type := (FileStorage × Dir × Nat) × List Op

def runWithSource (c : Crates) (world : World) (spec : List Char) (pipeline : DefaultPipeline) (storage : Files)
    (statsInterval : UInt64) : Except Failure (Loop Files × Except (HostError FileStorageError) Unit) :=
  match Source.ofSpec spec with
  | none => .error (.unrecognisedSource spec)
  | some source =>
    match world.connect source with
    | .error e => .error (.source e)
    | .ok reads => .ok (runLoop c (FileStorage.storage world.io).traced statsInterval pipeline storage reads)

def main (c : Crates) (world : World) (args : Args) :
    Bool × Except Failure (Loop Files × Except (HostError FileStorageError) Unit) :=
  match filterOf args with
  | (filter, warned) =>
    match world.createDirAll with
    | .error e => (warned, .error (.outputDirectory e))
    | .ok _ => (warned, runWithSource c world args.input (Pipeline.new filter)
        ((.new args.segmentSize, world.dir, 0), []) args.statsInterval)

/-- The first eight types are pushed. -/
theorem pushTypes_eq : ∀ (ts : List UInt8) (list : Heapless.Vec UInt8 maxFilterTypes),
    (pushTypes list ts).1.toList = (list.toList ++ ts).take maxFilterTypes ∧
      (pushTypes list ts).2 = decide (maxFilterTypes < (list.toList ++ ts).length)
  | [], list => by
    rw [pushTypes, List.append_nil, List.take_of_length_le list.length_le]
    exact ⟨rfl, (decide_eq_false (Nat.not_lt.2 list.length_le)).symm⟩
  | t :: ts, list => by
    rw [pushTypes]
    by_cases hfull : list.toList.length = maxFilterTypes
    · rw [list.push_of_full t hfull]
      refine ⟨?_, (decide_eq_true ?_).symm⟩
      · exact (List.take_left' hfull).symm
      · rw [List.length_append, hfull, List.length_cons]
        omega
    · have hroom : list.toList.length < maxFilterTypes := Nat.lt_of_le_of_ne list.length_le hfull
      rw [list.push_of_lt t hroom]
      have ih := pushTypes_eq ts ⟨list.toList ++ [t], Heapless.length_snoc_le t hroom⟩
      simp only [List.append_assoc, List.singleton_append] at ih
      exact ih

end Host

/-! ## The session of a host -/

def Op.request : Op → Request
  | .write data _ => .write data
  | .flush _ => .flush

/-- The requests that are the calls of a storage. -/
def requests (io : Nat → Io) (ops : List Op) : List (Request × Io) := ops.mapIdx (fun n op => (op.request, io n))

theorem requests_snoc (io : Nat → Io) (ops : List Op) (op : Op) :
    requests io (ops ++ [op]) = requests io ops ++ [(op.request, io ops.length)] := List.mapIdx_concat

theorem written_requests (io : Nat → Io) (ops : List Op) : written (requests io ops) = ops.filterMap Op.data := by
  induction ops using List.reverseRecOn with
  | nil => rfl
  | append_singleton ops op ih =>
    rw [requests_snoc, Session.written_snoc, ih, List.filterMap_append]
    cases op <;> rfl

theorem requests_succeed {io : Nat → Io} (hio : ∀ n, (io n).Succeeds) (ops : List Op) :
    ∀ q ∈ requests io ops, q.2.Succeeds := by
  intro q hq
  obtain ⟨n, hn, rfl⟩ := List.mem_mapIdx.1 hq
  exact hio n

/-- The session that the calls of a storage make. -/
def sessionOf (io : Nat → Io) (M : Nat) (dir : Dir) (ops : List Op) : Session :=
  (Session.new M dir).after (requests io ops)

theorem sessionOf_snoc (io : Nat → Io) (M : Nat) (dir : Dir) (ops : List Op) (op : Op) :
    sessionOf io M dir (ops ++ [op]) = (Session.step (sessionOf io M dir ops) (op.request, io ops.length)).1 := by
  rw [sessionOf, requests_snoc, Session.after_snoc]
  rfl

/-- **The storage is the one of its session.** -/
structure Tied (io : Nat → Io) (M : Nat) (dir : Dir) (y : Host.Files) : Prop where
  storage : y.1.1 = (sessionOf io M dir y.2).storage
  dir : y.1.2.1 = (sessionOf io M dir y.2).dir
  calls : y.1.2.2 = y.2.length

section Tied

variable {io : Nat → Io} {M : Nat} {dir : Dir}

theorem tied_new : Tied io M dir ((.new M, dir, 0), []) := ⟨rfl, rfl, rfl⟩

theorem Tied.write {y : Host.Files} (h : Tied io M dir y) (data : List UInt8) :
    Tied io M dir ((FileStorage.storage io).traced.write y data).1 := by
  have hwrite : ((FileStorage.storage io).traced.write y data).1.1
      = ((y.1.1.write y.1.2.1 (io y.1.2.2) data).1, (y.1.1.write y.1.2.1 (io y.1.2.2) data).2.1, y.1.2.2 + 1) := rfl
  have hsession := sessionOf_snoc io M dir y.2 (.write data ((FileStorage.storage io).write y.1 data).2.isOk)
  rw [h.storage, h.dir, h.calls] at hwrite
  refine ⟨?_, ?_, ?_⟩
  · rw [hwrite]
    exact (congrArg Session.storage hsession).symm
  · rw [hwrite]
    exact (congrArg Session.dir hsession).symm
  · rw [hwrite, traced_write, List.length_append]
    rfl

theorem Tied.flush {y : Host.Files} (h : Tied io M dir y) :
    Tied io M dir ((FileStorage.storage io).traced.flush y).1 := by
  have hflush : ((FileStorage.storage io).traced.flush y).1.1 = (y.1.1, y.1.2.1, y.1.2.2 + 1) := rfl
  have hsession := sessionOf_snoc io M dir y.2 (.flush ((FileStorage.storage io).flush y.1).2.isOk)
  rw [h.storage, h.dir, h.calls] at hflush
  refine ⟨?_, ?_, ?_⟩
  · rw [hflush]
    exact (congrArg Session.storage hsession).symm
  · rw [hflush]
    exact (congrArg Session.dir hsession).symm
  · rw [hflush, traced_flush, List.length_append]
    rfl

/-- What writes and flushes keep, a run keeps. -/
theorem after_storage {c : Crates} (hc : c.Standard) {N Q : Nat} {σ ε : Type} {S : Storage σ ε} {I : σ → Prop}
    (hw : ∀ s data, I s → I (S.write s data).1) (hf : ∀ s, I s → I (S.flush s).1) (calls : List Call)
    (x : Pipeline N Q × σ) (h : I x.2) : I (after c S x calls).2 := by
  refine Machine.run_invariant (I := fun x : Pipeline N Q × σ => I x.2) (step c S) ?_ calls x h
  intro x call h
  cases call with
  | ingest bytes => exact h
  | drain => exact drain_storage hc hw hf x.1 x.2 h

theorem tied_after {c : Crates} (hc : c.Standard) {N Q : Nat} (calls : List Call) (x : Pipeline N Q × Host.Files)
    (h : Tied io M dir x.2) : Tied io M dir (after c (FileStorage.storage io).traced x calls).2 :=
  after_storage hc (fun _ data hy => hy.write data) (fun _ hy => hy.flush) calls x h

end Tied

/-! ## What the loop leaves -/

theorem finish_leaves {σ ε : Type} {S : Storage σ ε} (l : Loop σ) : (l.finish S).1.pipeline = l.pipeline ∧
    ((l.finish S).1.storage = l.storage ∨ (l.finish S).1.storage = (S.flush l.storage).1) := by
  unfold Loop.finish
  split
  · rename_i h
    rw [h]
    exact ⟨rfl, Or.inr rfl⟩
  · rename_i h
    rw [h]
    exact ⟨rfl, Or.inr rfl⟩

/-- **However the loop ends**, it has made its calls, and flushed at most once more. -/
theorem run_leaves {σ ε : Type} (c : Crates) (S : Storage σ ε) (k : UInt64) :
    ∀ (reads : List (Except IoErrorKind Chunk)) (l : Loop σ),
      (l.run c S k reads).1.pipeline = (after c S (l.pipeline, l.storage) (callsOf (consumed reads))).1 ∧
      ((l.run c S k reads).1.storage = (after c S (l.pipeline, l.storage) (callsOf (consumed reads))).2 ∨
        (l.run c S k reads).1.storage = (S.flush (after c S (l.pipeline, l.storage) (callsOf (consumed reads))).2).1)
  | [], l => finish_leaves l
  | .ok chunk :: reads, l => by
    rw [Loop.run, consumed]
    by_cases h0 : chunk.1.length = 0
    · rw [if_pos h0, if_pos h0]
      exact finish_leaves l
    · rw [if_neg h0, if_neg h0]
      have ih := run_leaves c S k reads (l.iterate c S k chunk.1)
      rw [iterate_eq] at ih
      exact ih
  | .error .connectionReset :: _, l => finish_leaves l
  | .error .unexpectedEof :: _, l => finish_leaves l
  | .error .other :: _, l => ⟨rfl, Or.inl rfl⟩

/-- **What a host leaves** whose loop read these chunks: its storage is that of its session, the session wrote exactly
the records counted, in order, and none is left in the queue. -/
structure Leaves (c : Crates) (world : Host.World) (M : Nat) (filter : FilterConfig) (chunks : List Chunk)
    (l : Loop Host.Files) : Prop where
  tied : Tied world.io M world.dir l.storage
  pipeline : l.pipeline = (after c (FileStorage.storage world.io).traced
    ((Pipeline.new filter : DefaultPipeline), (.new M, world.dir, 0), []) (callsOf chunks)).1
  drained : l.pipeline.queued = []
  data : l.storage.2.filterMap Op.data = (admitted (history c (FileStorage.storage world.io).traced filter
    ((Pipeline.new filter : DefaultPipeline), (.new M, world.dir, 0), []) [] (callsOf chunks))).map (image c)

theorem runLoop_leaves {c : Crates} (hc : c.Standard) {world : Host.World} (hio : ∀ n, (world.io n).Succeeds)
    (M : Nat) (filter : FilterConfig) (k : UInt64) (reads : List (Except IoErrorKind Chunk)) :
    Leaves c world M filter (consumed reads) (runLoop c (FileStorage.storage world.io).traced k (Pipeline.new filter)
      ((.new M, world.dir, 0), []) reads).1 := by
  have hS : Healthy (FileStorage.storage world.io).traced :=
    (FileStorage.storage_healthy (fun n => (hio n).1) (fun n => (hio n).2)).traced
  obtain ⟨hpipe, hstore⟩ := run_leaves c (FileStorage.storage world.io).traced k reads
    ⟨Pipeline.new filter, ((.new M, world.dir, 0), []), 0, []⟩
  obtain ⟨⟨written, hdata, hrec⟩, -⟩ := conserved_after (N := defaultMaxFrame) (Q := hostQueueDepth) hc
    (FileStorage.storage world.io) filter (.new M, world.dir, 0) (callsOf (consumed reads))
  have htied := tied_after hc (callsOf (consumed reads)) ((Pipeline.new filter : DefaultPipeline),
    (.new M, world.dir, 0), []) (show Tied world.io M world.dir ((.new M, world.dir, 0), []) from tied_new)
  have hempty := queued_callsOf hc hS (consumed reads)
    (x := ((Pipeline.new filter : DefaultPipeline), (.new M, world.dir, 0), [])) rfl
  rw [hempty, List.append_nil] at hrec
  rw [hrec] at hdata
  refine ⟨?_, hpipe, (congrArg Pipeline.queued hpipe).trans hempty, ?_⟩
  · rcases hstore with hstore | hstore
    · rw [runLoop, hstore]
      exact htied
    · rw [runLoop, hstore]
      exact htied.flush
  · rcases hstore with hstore | hstore
    · rw [runLoop, hstore]
      exact hdata
    · rw [runLoop, hstore, filterMap_data_flush]
      exact hdata

/-! ## The directory, read again -/

open Decode (Disk PathBuf decodePaths results shown)

/-- The disk holds the directory at `d`. -/
structure Mounts (disk : Disk) (d : PathBuf) (dir : Dir) : Prop where
  listed : ∃ entries : List FileName, disk.readDir d = .ok (entries.map .ok) ∧ entries.Nodup ∧
    ∀ name, name ∈ entries ↔ (dir name).isSome
  read : ∀ name, (dir name).isSome → disk.read (d ++ [name]) = .ok ((dir name).getD [])

theorem Mounts.shows {disk : Disk} {d : PathBuf} {x : Session} (h : Mounts disk d x.dir) : Session.Shows disk d x :=
  ⟨h.listed, h.read⟩

theorem read_of_visits {c : Crates} {disk : Disk} {d : PathBuf} {args : Decode.Args} {dir : Dir} {x : Session}
    (hinv : x.Inventory dir) (hshows : Session.Shows disk d x) (hvisits : decodePaths disk args = .ok (x.paths d)) :
    Decode.read c disk args = if x.created = [] then .error .noInputFiles
      else .ok (x.names.flatMap (fun name => readSegment c (x.contents name))) := by
  have hresults : (x.paths d).flatMap (results c disk)
      = x.names.flatMap (fun name => readSegment c (x.contents name)) := by
    rw [Session.paths, List.flatMap_map]
    apply List.flatMap_congr
    intro name hname
    unfold results Decode.readSegmentFile
    rw [hshows.read name ((hinv.present name).2 (Or.inr hname))]
    rfl
  unfold Decode.read
  rw [hvisits]
  simp only
  rw [hresults]
  simp [Session.paths, Session.names]

/-- **A session without I/O errors is read back**, if it made at most 99999 files in a directory without any. -/
theorem read_session {c : Crates} (hc : c.Standard) {M : Nat} {dir : Dir} {qs : List (Request × Io)}
    (hok : ∀ q ∈ qs, q.2.Succeeds) (hunused : Session.Unused dir) {records : List StoredRecord}
    (hrecords : written qs = records.map (image c)) (hfew : (Pack.pack List.length M (written qs)).length ≤ 99999)
    {disk : Disk} {d : PathBuf} (hmounts : Mounts disk d ((Session.new M dir).after qs).dir) {args : Decode.Args}
    (hfiles : args.files = []) (hdir : args.inDir = some d) : Decode.read c disk args =
      if records = [] then .error .noInputFiles else .ok (records.map .ok) := by
  have hnum := Session.numbered_after M dir qs
  have hinv := Session.inventory_after M dir qs
  have hcreates := (Session.packing_after M dir qs hok).creates
  have hroom : ((Session.new M dir).after qs).creates.length < 2 ^ 32 := by omega
  have hordered : ((Session.new M dir).after qs).created.Pairwise Decode.Ordered := by
    rw [hnum.created_eq (Session.created_after M dir qs hok), Session.ordered_range_iff hroom, hcreates]
    exact hfew
  have hvisits := Session.visits_only hnum hinv hroom hmounts.shows hfiles hdir hunused hordered
  have hencoded : records.mapM (fun r => Record.encode c r maxStoredRecordBytes) = .ok (written qs) := by
    rw [mapM_eq_pure (fun r => Record.encode_eq_ok hc r (by decide : 507 ≤ maxStoredRecordBytes)), hrecords]
    rfl
  have hnames := Session.flatMap_names hc M dir hok hroom hencoded
  have hnone : ((Session.new M dir).after qs).created = [] ↔ records = [] := by
    constructor
    · intro hcreated
      rw [Session.names, hcreated] at hnames
      exact List.map_eq_nil_iff.1 hnames.symm
    · rintro rfl
      have hzero : ((Session.new M dir).after qs).creates = [] := by
        rw [← List.length_eq_zero_iff, hcreates, hrecords]
        rfl
      rw [Session.created, hzero]
      rfl
  rw [read_of_visits hinv hmounts.shows hvisits, hnames]
  simp only [hnone]

/-- **What a host leaves is read back.** -/
theorem Leaves.read {c : Crates} (hc : c.Standard) {world : Host.World} (hio : ∀ n, (world.io n).Succeeds)
    (hunused : Session.Unused world.dir) {M : Nat} {filter : FilterConfig} {chunks : List Chunk} {l : Loop Host.Files}
    (h : Leaves c world M filter chunks l)
    (hfew : (Pack.pack List.length M (l.storage.2.filterMap Op.data)).length ≤ 99999)
    {disk : Disk} {d : PathBuf} (hmounts : Mounts disk d l.storage.1.2.1) {args : Decode.Args}
    (hfiles : args.files = []) (hdir : args.inDir = some d) :
    let records := admitted (history c (FileStorage.storage world.io).traced filter
      ((Pipeline.new filter : DefaultPipeline), (.new M, world.dir, 0), []) [] (callsOf chunks))
    Decode.read c disk args = if records = [] then .error .noInputFiles else .ok (records.map .ok) := by
  intro records
  rw [h.tied.dir] at hmounts
  rw [← written_requests world.io] at hfew
  exact read_session hc (requests_succeed hio l.storage.2) hunused
    ((written_requests world.io l.storage.2).trans h.data) hfew hmounts hfiles hdir

/-- What a run with `--format json` prints and counts. -/
theorem Decode.main_json (c : Crates) (disk : Disk) (dargs : Decode.Args) (stats : Bool)
    (draw : List (List Char) → List (List (List Char)) → List Char) : (Decode.main c disk dargs .json stats).map
        (fun s => (Decode.readJson (Decode.output draw s.stdout), s.stats.totalSeen, s.stats.decodeErrors))
      = (Decode.read c disk dargs).map
        (fun rs => (some (shown dargs rs), UInt64.ofNat rs.length, UInt64.ofNat (rs.countP (!·.isOk)))) := by
  apply Decode.map_main dargs .json c disk stats (fun s stderr => rfl)
  intro paths
  rw [Decode.readJson_emit, Decode.stats_emit]
  simp [Decode.DecodeStats.tally, Decode.DecodeStats.default]

theorem countP_ok (rs : List StoredRecord) :
    (rs.map (Except.ok : _ → Except Error StoredRecord)).countP (!·.isOk) = 0 := by
  rw [List.countP_map, List.countP_eq_zero]
  exact fun r hr => by simp [Except.isOk, Except.toBool]

/-! ## The host's files -/

namespace Host

theorem main_ok {c : Crates} {world : World} {args : Args} {l : Loop Files}
    {res : Except (HostError FileStorageError) Unit} (h : (main c world args).2 = .ok (l, res)) :
    ∃ source reads, Source.ofSpec args.input = some source ∧ world.connect source = .ok reads ∧
      runLoop c (FileStorage.storage world.io).traced args.statsInterval (Pipeline.new (filterOf args).1)
        ((.new args.segmentSize, world.dir, 0), []) reads = (l, res) := by
  unfold main at h
  simp only at h
  split at h
  · cases h
  · unfold runWithSource at h
    split at h
    · cases h
    · rename_i source hsource
      split at h
      · cases h
      · rename_i reads hreads
        exact ⟨source, reads, hsource, hreads, Except.ok.inj h⟩

/-- A host that connects to these reads runs its loop on them. -/
theorem runLoop_of_main {c : Crates} {world : World} {args : Args} {reads : List (Except IoErrorKind Chunk)}
    {l : Loop Files} (hconnects : ∃ source, Source.ofSpec args.input = some source ∧ world.connect source = .ok reads)
    (hleaves : ∃ res, (main c world args).2 = .ok (l, res)) :
    ∃ res, runLoop c (FileStorage.storage world.io).traced args.statsInterval (Pipeline.new (filterOf args).1)
      ((.new args.segmentSize, world.dir, 0), []) reads = (l, res) := by
  obtain ⟨res, hmain⟩ := hleaves
  obtain ⟨source, hspec, hconnect⟩ := hconnects
  obtain ⟨source', reads', hspec', hconnect', hrun⟩ := main_ok hmain
  rw [hspec] at hspec'
  obtain rfl := Option.some.inj hspec'
  rw [hconnect] at hconnect'
  obtain rfl := Except.ok.inj hconnect'
  exact ⟨res, hrun⟩

/-- **A run of the host** whose system calls on files all succeed, that reads these reads and leaves `l`. -/
structure Ran (c : Crates) (world : World) (args : Args) (reads : List (Except IoErrorKind Chunk)) (l : Loop Files) :
    Prop where
  succeeds : ∀ n, (world.io n).Succeeds
  connects : ∃ source, Source.ofSpec args.input = some source ∧ world.connect source = .ok reads
  leaves : ∃ res, (main c world args).2 = .ok (l, res)

/-- **A run in a directory without segment files**, that leaves at most 99999. -/
structure Logs (c : Crates) (world : World) (args : Args) (reads : List (Except IoErrorKind Chunk)) (l : Loop Files) :
    Prop extends Ran c world args reads l where
  unused : Session.Unused world.dir
  few : (Pack.pack List.length args.segmentSize (l.storage.2.filterMap Op.data)).length ≤ 99999

/-- **A run of the decoder** on the directory a host left. -/
structure Inspects (disk : Disk) (dir : Dir) (args : Decode.Args) : Prop where
  files : args.files = []
  mounts : ∃ d, args.inDir = some d ∧ Mounts disk d dir

end Host

/-- The records that a host counts. -/
def counted (c : Crates) (world : Host.World) (args : Host.Args) (reads : List (Except IoErrorKind Chunk)) :
    List StoredRecord :=
  admitted (history c (FileStorage.storage world.io).traced (Host.filterOf args).1
    ((Pipeline.new (Host.filterOf args).1 : DefaultPipeline), (.new args.segmentSize, world.dir, 0), []) []
    (callsOf (consumed reads)))

section

variable {c : Crates} (hc : c.Standard) {world : Host.World} {args : Host.Args}
  {reads : List (Except IoErrorKind Chunk)} {l : Loop Host.Files}

include hc

theorem Host.Ran.state (h : Host.Ran c world args reads l) :
    Leaves c world args.segmentSize (filterOf args).1 (consumed reads) l := by
  obtain ⟨res, hrun⟩ := runLoop_of_main h.connects h.leaves
  have hleaves := runLoop_leaves hc h.succeeds args.segmentSize (filterOf args).1 args.statsInterval reads
  rwa [hrun] at hleaves

theorem Host.Ran.ok_eq (h : Host.Ran c world args reads l) :
    l.pipeline.stats.ok = .ofNat (counted c world args reads).length := by
  have hcounter := counter_after (N := defaultMaxFrame) (Q := hostQueueDepth) c (FileStorage.storage world.io).traced
    (filterOf args).1 ((.new args.segmentSize, world.dir, 0), []) (callsOf (consumed reads)) .ok
  rw [count_ok_classes] at hcounter
  exact (congrArg (fun p : DefaultPipeline => p.stats.ok) (h.state hc).pipeline).trans hcounter

theorem Host.Logs.read (h : Host.Logs c world args reads l) {disk : Disk} {dargs : Decode.Args}
    (hinspects : Host.Inspects disk l.storage.1.2.1 dargs) : Decode.read c disk dargs =
      if counted c world args reads = [] then .error .noInputFiles else .ok ((counted c world args reads).map .ok) := by
  obtain ⟨hfiles, d, hdir, hmounts⟩ := hinspects
  exact (h.state hc).read hc h.succeeds h.unused h.few hmounts hfiles hdir

/-- **What the host counts, the decoder reads.**  Whatever comes in, and however the loop of the host ends: no record is
left in its queue, those it counts were passed to `write` once each, in order, and a reader of the decoder's `JSON` gets
exactly those of them that pass the decoder's filter.  The decoder sees as many records as the host counts, and no
error; where the host counts none there is no file to read. -/
theorem decode_reads_host (h : Host.Logs c world args reads l) {disk : Disk} {dargs : Decode.Args}
    (hinspects : Host.Inspects disk l.storage.1.2.1 dargs) (stats : Bool)
    (draw : List (List Char) → List (List (List Char)) → List Char) :
    let records := counted c world args reads
    l.pipeline.queued = [] ∧ l.storage.2.filterMap Op.data = records.map (image c) ∧
    (Decode.main c disk dargs .json stats).map
        (fun s => (Decode.readJson (Decode.output draw s.stdout), s.stats.totalSeen, s.stats.decodeErrors))
      = if records = [] then .error .noInputFiles
        else .ok (some (records.filter (Decode.passesFilter dargs)), l.pipeline.stats.ok, 0) := by
  intro records
  refine ⟨(h.state hc).drained, (h.state hc).data, ?_⟩
  rw [Decode.main_json, h.read hc hinspects]
  split_ifs with hnone
  · rfl
  · show Except.ok (some (shown dargs (records.map .ok)), _, _) = _
    rw [Session.shown_ok, countP_ok, List.length_map, h.ok_eq hc]
    rfl

end

/-! ## Filtering early and late -/

theorem allowlist_eq (args : Host.Args) : (Host.filterOf args).1.minSeverity = args.minSeverity ∧
    ∀ t, (Host.filterOf args).1.typeAllowlist.all (·.toList.contains t)
      = ((args.allowTypes.take maxFilterTypes).isEmpty || (args.allowTypes.take maxFilterTypes).contains t) := by
  unfold Host.filterOf
  cases hts : args.allowTypes with
  | nil => exact ⟨rfl, fun t => rfl⟩
  | cons t ts =>
    obtain ⟨hlist, -⟩ := Host.pushTypes_eq (t :: ts) .new
    rw [if_neg (by simp)]
    refine ⟨rfl, fun t' => ?_⟩
    show (Host.pushTypes .new (t :: ts)).1.toList.contains t' = _
    rw [hlist]
    rfl

/-- The host's filter is the decoder's, with the first eight types. -/
theorem filterOf_allows (args : Host.Args) (files : List PathBuf) (dir : Option PathBuf) (since : Option UInt32)
    (r : StoredRecord) :
    Decode.passesFilter ⟨files, dir, since, args.minSeverity, args.allowTypes.take maxFilterTypes⟩ r
      = ((Host.filterOf args).1.allows r && Decode.passesFilter ⟨files, dir, since, 0, []⟩ r) := by
  cases r with
  | v1 v =>
    obtain ⟨hmin, hlist⟩ := allowlist_eq args
    unfold Decode.passesFilter FilterConfig.allows
    simp only [hmin, hlist]
    by_cases hsince : since.any (fun s => v.sequence < s) = true
    · rw [if_pos hsince, if_pos hsince, Bool.and_false]
    by_cases hsev : v.severity < args.minSeverity
    · rw [if_neg hsince, if_pos hsev, decide_eq_false (UInt8.not_le.2 hsev), Bool.false_and, Bool.false_and]
    · rw [if_neg hsince, if_neg hsev, if_neg hsince, decide_eq_true (UInt8.not_lt.1 hsev), if_neg UInt8.not_lt_zero]
      cases (args.allowTypes.take maxFilterTypes).isEmpty <;>
        cases (args.allowTypes.take maxFilterTypes).contains v.packetType <;> rfl

theorem allows_of_plain {args : Host.Args} (h : args.minSeverity = 0 ∧ args.allowTypes = []) (r : StoredRecord) :
    (Host.filterOf args).1.allows r = true := by
  cases r with
  | v1 v =>
    unfold Host.filterOf
    rw [h.1, h.2]
    simp [FilterConfig.allows]

section

variable {c : Crates} (hc : c.Standard) {world : Host.World} {args : Host.Args}
  {reads : List (Except IoErrorKind Chunk)} {l : Loop Host.Files}

include hc

variable (args) in
/-- **Reads that the queue can hold** drop nothing. -/
theorem noDrop_of_room (hio : ∀ n, (world.io n).Succeeds)
    (hroom : ∀ chunk ∈ consumed reads, delimiters chunk.1 ≤ hostQueueDepth) :
    NoDrop (history c (FileStorage.storage world.io).traced (Host.filterOf args).1
      ((Pipeline.new (Host.filterOf args).1 : DefaultPipeline), (.new args.segmentSize, world.dir, 0), []) []
      (callsOf (consumed reads))) := by
  have hS : Healthy (FileStorage.storage world.io).traced :=
    (FileStorage.storage_healthy (fun n => (hio n).1) (fun n => (hio n).2)).traced
  exact (history_noDrop (N := defaultMaxFrame) hc hS (callsOf (consumed reads))
    (x := ((Pipeline.new (Host.filterOf args).1 : DefaultPipeline), (.new args.segmentSize, world.dir, 0), []))
    (tracks_new c _) (Nat.le_refl 0) (paced_callsOf hroom)).1

variable (args) in
theorem counted_of_room (hio : ∀ n, (world.io n).Succeeds)
    (hroom : ∀ chunk ∈ consumed reads, delimiters chunk.1 ≤ hostQueueDepth) :
    counted c world args reads = (offers (verdicts c defaultMaxFrame .allowAll [] (stream (callsOf
      (consumed reads))))).filter (Host.filterOf args).1.allows := by
  rw [counted, (noDrop_of_room hc args hio hroom).admitted_eq, history_verdicts, verdicts_restrict, offers_restrict]

/-- The records printed, if any, are those counted that pass. -/
theorem Host.Logs.printed (h : Host.Logs c world args reads l) {disk : Disk} {dargs : Decode.Args}
    (hinspects : Host.Inspects disk l.storage.1.2.1 dargs) : (Decode.decodeAll c disk dargs).toOption.getD []
      = (counted c world args reads).filter (Decode.passesFilter dargs) := by
  rw [Decode.decodeAll_eq, h.read hc hinspects]
  split_ifs with hnone
  · rw [hnone]
    rfl
  · exact Session.shown_ok dargs _

/-- What a reader of the decoder's `JSON` gets. -/
theorem Host.Logs.readJson (h : Host.Logs c world args reads l) {disk : Disk} {dargs : Decode.Args}
    (hinspects : Host.Inspects disk l.storage.1.2.1 dargs) (stats : Bool)
    (draw : List (List Char) → List (List (List Char)) → List Char) :
    (Decode.main c disk dargs .json stats).map (fun s => Decode.readJson (Decode.output draw s.stdout))
      = if counted c world args reads = [] then .error .noInputFiles
        else .ok (some ((counted c world args reads).filter (Decode.passesFilter dargs))) := by
  rw [Decode.readJson_main, Decode.decodeAll_eq, h.read hc hinspects]
  split_ifs with hnone
  · rfl
  · exact congrArg (fun rs => Except.ok (some rs)) (Session.shown_ok dargs _)

/-- **It makes no difference who filters.**  Two hosts read the same, no read holding more frames than the queue has
slots, one with a filter and one that lets everything through; what is printed of the first is what is printed of the
second under the same minimal severity and the first eight types. -/
theorem filter_late {world' : Host.World} {args' : Host.Args} (hplain : args'.minSeverity = 0 ∧ args'.allowTypes = [])
    (hroom : ∀ chunk ∈ consumed reads, delimiters chunk.1 ≤ hostQueueDepth) {l' : Loop Host.Files}
    (h : Host.Logs c world args reads l) (h' : Host.Logs c world' args' reads l') {disk disk' : Disk} {d d' : PathBuf}
    (hmounts : Mounts disk d l.storage.1.2.1) (hmounts' : Mounts disk' d' l'.storage.1.2.1) (since : Option UInt32) :
    (Decode.decodeAll c disk ⟨[], some d, since, 0, []⟩).toOption.getD []
      = (Decode.decodeAll c disk' ⟨[], some d', since, args.minSeverity,
        args.allowTypes.take maxFilterTypes⟩).toOption.getD [] := by
  rw [h.printed hc ⟨rfl, d, rfl, hmounts⟩, h'.printed hc ⟨rfl, d', rfl, hmounts'⟩,
    counted_of_room hc args h.succeeds hroom, counted_of_room hc args' h'.succeeds hroom, List.filter_filter,
    List.filter_filter]
  apply List.filter_congr
  intro r hr
  rw [filterOf_allows args, allows_of_plain hplain, Bool.and_true, Bool.and_comm]
  cases r
  rfl

end

/-- A system without files, on which nothing fails, and these reads. -/
def calm (reads : List (Except IoErrorKind Chunk)) : Host.World :=
  ⟨.ok (), fun _ => none, fun _ => healthyIo, fun _ => .ok reads⟩

/-- What the host leaves there. -/
def calmRun (c : Crates) (args : Host.Args) (reads : List (Except IoErrorKind Chunk)) : Loop Host.Files :=
  (runLoop c (FileStorage.storage fun _ => healthyIo).traced args.statsInterval (Pipeline.new (Host.filterOf args).1)
    ((.new args.segmentSize, fun _ => none, 0), []) reads).1

theorem logs_calm {c : Crates} {args : Host.Args} {reads : List (Except IoErrorKind Chunk)} {source : Host.Source}
    (hspec : Host.Source.ofSpec args.input = some source)
    (hfew : (Pack.pack List.length args.segmentSize
      ((calmRun c args reads).storage.2.filterMap Op.data)).length ≤ 99999) :
    Host.Logs c (calm reads) args reads (calmRun c args reads) := by
  have hmain : (Host.main c (calm reads) args).2 = .ok (runLoop c (FileStorage.storage fun _ => healthyIo).traced
      args.statsInterval (Pipeline.new (Host.filterOf args).1) ((.new args.segmentSize, fun _ => none, 0), [])
      reads) := by
    unfold Host.main Host.runWithSource
    rw [hspec]
    rfl
  exact ⟨⟨fun _ => ⟨⟨rfl, rfl⟩, rfl⟩, ⟨source, hspec, rfl⟩, ⟨_, hmain⟩⟩, fun _ _ => rfl, hfew⟩

/-- The disk with the directory that the host leaves there. -/
def calmDisk (c : Crates) (args : Host.Args) (reads : List (Except IoErrorKind Chunk)) : Disk :=
  Session.diskOf (sessionOf (fun _ => healthyIo) args.segmentSize (fun _ => none) (calmRun c args reads).storage.2)

theorem mounts_calm {c : Crates} (hc : c.Standard) {args : Host.Args} {reads : List (Except IoErrorKind Chunk)}
    (h : Host.Logs c (calm reads) args reads (calmRun c args reads)) (d : PathBuf) :
    Mounts (calmDisk c args reads) d (calmRun c args reads).storage.1.2.1 := by
  have hok := requests_succeed h.succeeds (calmRun c args reads).storage.2
  have hcreates := (Session.packing_after args.segmentSize (fun _ => none) _ hok).creates
  rw [written_requests] at hcreates
  have hfew := h.few
  have hshows := Session.shows_diskOf (Session.numbered_after args.segmentSize (fun _ => none)
    (requests (calm reads).io (calmRun c args reads).storage.2)) (Session.inventory_after _ _ _) (by omega) d
  rw [(h.state hc).tied.dir]
  exact ⟨hshows.listed, hshows.read⟩

/-- Standard input, and no filter. -/
def plainArgs : Host.Args := ⟨"-".toList, 1048576, 0, [], 50⟩

theorem decode_reads_host_run : (Decode.main Crates.documented (calmDisk Crates.documented plainArgs [.ok oneFrame])
    Session.decodeHere .json true).map
      (fun s => (Decode.readJson (Decode.output (fun _ _ => []) s.stdout), s.stats.totalSeen, s.stats.decodeErrors))
    = .ok (some [.v1 ⟨7, 0, 1, 0, .new⟩], 1, 0) := by
  have hlogs : Host.Logs Crates.documented (calm [.ok oneFrame]) plainArgs [.ok oneFrame] _ :=
    logs_calm (show Host.Source.ofSpec plainArgs.input = some .stdin from rfl) (by decide +kernel)
  have hmounts := mounts_calm Crates.documented_standard hlogs []
  have hcounted : counted Crates.documented (calm [.ok oneFrame]) plainArgs [.ok oneFrame]
      = [.v1 ⟨7, 0, 1, 0, .new⟩] := by decide +kernel
  have hok : (calmRun Crates.documented plainArgs [.ok oneFrame]).pipeline.stats.ok = 1 := by decide +kernel
  have hreads := (decode_reads_host Crates.documented_standard hlogs
    (show Host.Inspects _ _ Session.decodeHere from ⟨rfl, [], rfl, hmounts⟩) true (fun _ _ => [])).2.2
  rw [hcounted, hok] at hreads
  exact hreads

/-- A datagram socket, small files, and two types. -/
def keepArgs : Host.Args := ⟨"udp:0.0.0.0:9000".toList, 20, 0, [2, 1], 0⟩

theorem filter_late_run :
    (Decode.decodeAll Crates.documented (calmDisk Crates.documented keepArgs [.ok twoFrames])
        ⟨[], some [], some 1, 0, []⟩).toOption.getD []
      = (Decode.decodeAll Crates.documented (calmDisk Crates.documented plainArgs [.ok twoFrames])
        ⟨[], some [], some 1, 0, [2, 1]⟩).toOption.getD [] := by
  have hlogs : Host.Logs Crates.documented (calm [.ok twoFrames]) keepArgs [.ok twoFrames] _ :=
    logs_calm (show Host.Source.ofSpec keepArgs.input = some (.udp "0.0.0.0:9000".toList) from rfl) (by decide +kernel)
  have hlogs' : Host.Logs Crates.documented (calm [.ok twoFrames]) plainArgs [.ok twoFrames] _ :=
    logs_calm (show Host.Source.ofSpec plainArgs.input = some .stdin from rfl) (by decide +kernel)
  exact filter_late Crates.documented_standard ⟨rfl, rfl⟩ (by decide +kernel) hlogs hlogs'
    (mounts_calm Crates.documented_standard hlogs []) (mounts_calm Crates.documented_standard hlogs' []) (some 1)

end Telemetry
