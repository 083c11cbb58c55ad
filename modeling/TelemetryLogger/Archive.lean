import TelemetryLogger.Logbook
/-!
# Archive — what is in a directory of segment files, and what `telemetry-decode` makes of it

The files of a directory are numbered from 1, and the decoder reads them in this order (`Stands.read`).  A host that is
started again writes over the files from the first one on, so that those behind its last file are of earlier runs
(`decode_after_restarts`).
-/
namespace Telemetry

open FileStorage (segmentPath)
open Record (image)
open Decode (Disk PathBuf)

/-! ## Numbered files -/

/-- The name of file `i`, counted from 0. -/
def fileName (i : Nat) : FileName := segmentPath (UInt32.ofNat (i + 1))

/-- **These files stand in the directory**, numbered, and all else is as in `dir₀`. -/
structure Stands (dir₀ : Dir) (files : List (List UInt8)) (dir : Dir) : Prop where
  file : ∀ i bytes, files[i]? = some bytes → dir (fileName i) = some bytes
  others : ∀ name, (∀ i < files.length, name ≠ fileName i) → dir name = dir₀ name

theorem fileName_ne {i j : Nat} (hi : i + 1 < 2 ^ 32) (hj : j + 1 < 2 ^ 32) (h : i ≠ j) : fileName i ≠ fileName j :=
  Session.segmentPath_ne hi hj (fun heq => h (Nat.succ.inj heq))

/-- A session whose index has counted these files. -/
def Session.ofFiles (n : Nat) (dir : Dir) : Session :=
  ⟨{ FileStorage.new 0 with segmentIndex := UInt32.ofNat n }, dir,
    (List.range n).map (fun i => (UInt32.ofNat (i + 1), true))⟩

namespace Session

theorem created_ofFiles (n : Nat) (dir : Dir) :
    (ofFiles n dir).created = (List.range n).map (fun i => UInt32.ofNat (i + 1)) := by
  rw [created, ofFiles, List.filter_eq_self.2, List.map_map]
  · rfl
  · exact List.forall_mem_map.2 (fun i hi => rfl)

theorem names_ofFiles (n : Nat) (dir : Dir) : (ofFiles n dir).names = (List.range n).map fileName := by
  rw [names, created_ofFiles, List.map_map]
  rfl

theorem length_creates_ofFiles (n : Nat) (dir : Dir) : (ofFiles n dir).creates.length = n := by
  rw [ofFiles, List.length_map, List.length_range]

theorem numbered_ofFiles (n : Nat) (dir : Dir) : (ofFiles n dir).Numbered := by
  constructor
  · rw [length_creates_ofFiles]
    rfl
  · rw [length_creates_ofFiles, ofFiles, List.map_map]
    rfl

theorem inventory_ofFiles {dir₀ dir : Dir} {files : List (List UInt8)} (h : Stands dir₀ files dir) :
    (ofFiles files.length dir).Inventory dir₀ := by
  refine ⟨fun path hpath => (by cases hpath), fun name => ?_⟩
  rw [names_ofFiles, List.mem_map]
  show (dir name).isSome ↔ _
  by_cases hname : ∃ i < files.length, name = fileName i
  · obtain ⟨i, hi, rfl⟩ := hname
    rw [h.file i _ (List.getElem?_eq_getElem hi)]
    exact iff_of_true rfl (Or.inr ⟨i, List.mem_range.2 hi, rfl⟩)
  · rw [h.others name (fun i hi heq => hname ⟨i, hi, heq⟩)]
    refine (or_iff_left ?_).symm
    rintro ⟨i, hi, rfl⟩
    exact hname ⟨i, List.mem_range.1 hi, rfl⟩

end Session

/-- **The decoder reads the files in the order of their numbers**, if no other segment files are there. -/
theorem Stands.read {dir₀ dir : Dir} {files : List (List UInt8)} (h : Stands dir₀ files dir)
    (hunused : Session.Unused dir₀) (hfew : files.length ≤ 99999) (c : Crates) {disk : Disk} {dargs : Decode.Args}
    (hinspects : Host.Inspects disk dir dargs) : Decode.read c disk dargs =
      if files = [] then .error .noInputFiles else .ok (files.flatMap (readSegment c)) := by
  obtain ⟨hfiles, d, hdir, hmounts⟩ := hinspects
  have hroom : (Session.ofFiles files.length dir).creates.length < 2 ^ 32 := by
    rw [Session.length_creates_ofFiles]
    omega
  have hnum := Session.numbered_ofFiles files.length dir
  have hinv := Session.inventory_ofFiles h
  have hshows : Session.Shows disk d (Session.ofFiles files.length dir) := ⟨hmounts.listed, hmounts.read⟩
  have hordered : (Session.ofFiles files.length dir).created.Pairwise Decode.Ordered := by
    rw [Session.created_ofFiles, Session.ordered_range_iff (by omega)]
    exact hfew
  have hvisits := Session.visits_only hnum hinv hroom hshows hfiles hdir hunused hordered
  have hcontents : (Session.ofFiles files.length dir).names.flatMap
        (fun name => readSegment c ((Session.ofFiles files.length dir).contents name))
      = files.flatMap (readSegment c) := by
    have hfile : (List.range files.length).map (fun i => (dir (fileName i)).getD []) = files := by
      apply List.ext_getElem?
      intro i
      rw [List.getElem?_map]
      by_cases hi : i < files.length
      · rw [List.getElem?_range hi, List.getElem?_eq_getElem hi, Option.map_some,
          h.file i _ (List.getElem?_eq_getElem hi)]
        rfl
      · rw [List.getElem?_eq_none (by simpa using hi), List.getElem?_eq_none (by simpa using hi)]
        rfl
    rw [Session.names_ofFiles, List.flatMap_map]
    conv_rhs => rw [← hfile, List.flatMap_map]
    rfl
  have hnone : (Session.ofFiles files.length dir).created = [] ↔ files = [] := by
    rw [Session.created_ofFiles, List.map_eq_nil_iff, List.range_eq_nil, List.length_eq_zero_iff]
  rw [read_of_visits hinv hshows hvisits, hcontents]
  simp only [hnone]

/-- No segment file is there exactly if none stands. -/
theorem Stands.unused_iff {dir₀ dir : Dir} {files : List (List UInt8)} (h : Stands dir₀ files dir)
    (hunused : Session.Unused dir₀) : Session.Unused dir ↔ files = [] := by
  constructor
  · intro hnone
    by_contra hne
    have hfirst := h.file 0 _ (List.getElem?_eq_getElem (List.length_pos_iff.2 hne))
    rw [fileName, hnone _ (Decode.isSegmentName_segmentPath _)] at hfirst
    cases hfirst
  · rintro rfl name hname
    rw [h.others name (fun i hi => absurd hi (Nat.not_lt_zero i))]
    exact hunused name hname

/-- A disk with these files alone. -/
theorem Stands.mounts {dir : Dir} {files : List (List UInt8)} (h : Stands (fun _ => none) files dir)
    (hroom : files.length < 2 ^ 32) (d : PathBuf) :
    Mounts (Session.diskOf (Session.ofFiles files.length dir)) d dir := by
  rw [← Session.length_creates_ofFiles files.length dir] at hroom
  have hshows := Session.shows_diskOf (Session.numbered_ofFiles files.length dir) (Session.inventory_ofFiles h) hroom d
  exact ⟨hshows.listed, hshows.read⟩

/-! ## A session over old files -/

/-- The new files, and the old ones behind them. -/
def overlay {α : Type} (new old : List α) : List α := new ++ old.drop new.length

theorem length_overlay {α : Type} (new old : List α) : (overlay new old).length = max new.length old.length := by
  rw [overlay, List.length_append, List.length_drop]
  omega

theorem map_overlay {α β : Type} (f : α → β) (new old : List α) :
    (overlay new old).map f = overlay (new.map f) (old.map f) := by
  rw [overlay, overlay, List.map_append, List.map_drop, List.length_map]

/-- **A session writes its packs over the files.** -/
theorem stands_after (M : Nat) (dir : Dir) {qs : List (Request × Io)} (hok : ∀ q ∈ qs, q.2.Succeeds)
    (hroom : (Pack.pack List.length M (written qs)).length < 2 ^ 32) :
    Stands dir ((Pack.pack List.length M (written qs)).map List.flatten) ((Session.new M dir).after qs).dir := by
  have hlaid := Session.laid_after M dir qs hok
  have hholds := Session.holds_after M dir qs hok hroom
  have hinv := Session.inventory_after M dir qs
  have hnames : ((Session.new M dir).after qs).names
      = (List.range (Pack.pack List.length M (written qs)).length).map fileName := by
    rw [Session.names, (Session.numbered_after M dir qs).created_eq (Session.created_after M dir qs hok),
      hlaid.packing.creates, List.map_map]
    rfl
  generalize Pack.pack List.length M (written qs) = packs at hroom hlaid hholds hnames
  constructor
  · intro i bytes hbytes
    rw [List.getElem?_map, Option.map_eq_some_iff] at hbytes
    obtain ⟨p, hp, rfl⟩ := hbytes
    have hi : i < packs.length := (List.getElem?_eq_some_iff.1 hp).1
    have hsome := (hinv.present (fileName i)).2
      (Or.inr (hnames ▸ List.mem_map.2 ⟨i, List.mem_range.2 hi, rfl⟩))
    obtain ⟨bytes, hbytes⟩ := Option.isSome_iff_exists.1 hsome
    have hcontents := hholds.contents i p hp
    rw [Session.contents, ← fileName, hbytes] at hcontents
    rw [hbytes]
    exact congrArg some hcontents
  · intro name hname
    rw [hlaid.dir]
    refine Overwrite.overwrite_of_not_mem dir (fun s hs => ?_)
    obtain ⟨j, hlt, hle, hnumber⟩ := Session.number_of_mem hs
    obtain ⟨j, rfl⟩ := Nat.exists_eq_succ_of_ne_zero (Nat.ne_of_gt hlt)
    rw [Session.Segment.path, hnumber]
    refine fun heq => hname j ?_ heq.symm
    rw [List.length_map]
    omega

theorem Stands.overlaid {dir₀ dir dir' : Dir} {old new : List (List UInt8)} (h : Stands dir₀ old dir)
    (h' : Stands dir new dir') (hold : old.length < 2 ^ 32) (hnew : new.length < 2 ^ 32) :
    Stands dir₀ (overlay new old) dir' := by
  constructor
  · intro i bytes hbytes
    by_cases hi : i < new.length
    · rw [overlay, List.getElem?_append_left hi] at hbytes
      exact h'.file i bytes hbytes
    · have hle : new.length ≤ i := Nat.not_lt.1 hi
      rw [overlay, List.getElem?_append_right hle, List.getElem?_drop, Nat.add_sub_cancel' hle] at hbytes
      have hlt : i < old.length := (List.getElem?_eq_some_iff.1 hbytes).1
      rw [h'.others (fileName i) (fun j hj => fileName_ne (by omega) (by omega) (by omega))]
      exact h.file i bytes hbytes
  · intro name hname
    rw [length_overlay] at hname
    rw [h'.others name (fun i hi => hname i (Nat.lt_of_lt_of_le hi (Nat.le_max_left _ _)))]
    exact h.others name (fun i hi => hname i (Nat.lt_of_lt_of_le hi (Nat.le_max_right _ _)))

/-! ## Hosts started one after another -/

namespace Host

/-- One run of the host: the system and the arguments, what was read, and what is left. -/
structure Process where
  world : World
  args : Args
  reads : List (Except IoErrorKind Chunk)
  left : Loop Files

/-- The directory after these runs. -/
def dirAfter : Dir → List Process → Dir
  | dir, [] => dir
  | _, p :: ps => dirAfter p.left.storage.1.2.1 ps

/-- **Runs one after another**, each in the directory that the one before it left. -/
def Restarts (c : Crates) : Dir → List Process → Prop
  | _, [] => True
  | dir, p :: ps => p.world.dir = dir ∧ Ran c p.world p.args p.reads p.left ∧ Restarts c p.left.storage.1.2.1 ps

/-- The records that a run counts, by the file that they are written to. -/
def Process.files (c : Crates) (p : Process) : List (List StoredRecord) :=
  Pack.pack (fun r => (image c r).length) p.args.segmentSize (counted c p.world p.args p.reads)

/-- The files after these runs, each written over those before it. -/
def filesAfter (c : Crates) (old : List (List StoredRecord)) (runs : List Process) : List (List StoredRecord) :=
  runs.foldl (fun old p => overlay (p.files c) old) old

end Host

/-- The bytes of a file with these records. -/
def fileOf (c : Crates) (rs : List StoredRecord) : List UInt8 := rs.flatMap (image c)

/-- The files of these writes. -/
theorem flatten_packs (c : Crates) (M : Nat) {data : List (List UInt8)} {rs : List StoredRecord}
    (h : data = rs.map (image c)) : (Pack.pack List.length M data).map List.flatten
      = (Pack.pack (fun r => (image c r).length) M rs).map (fileOf c) := by
  rw [h, Pack.pack_map, List.map_map]
  exact List.map_congr_left (fun rs _ => List.flatMap_def.symm)

theorem stands_nil (c : Crates) (dir : Dir) : Stands dir (([] : List (List StoredRecord)).map (fileOf c)) dir :=
  ⟨fun i bytes h => (by cases h), fun name _ => rfl⟩

section

variable {c : Crates} (hc : c.Standard)

include hc

theorem readSegment_fileOf (files : List (List StoredRecord)) :
    (files.map (fileOf c)).flatMap (readSegment c) = files.flatten.map .ok := by
  have hfile : ∀ rs ∈ files, readSegment c (fileOf c rs) = rs.map .ok := fun rs _ => readSegment_records hc rs
  rw [List.flatMap_map, List.flatMap_congr hfile, List.map_flatten, List.flatMap_def]

theorem Host.Ran.stands {world : Host.World} {args : Host.Args} {reads : List (Except IoErrorKind Chunk)}
    {l : Loop Host.Files} (h : Host.Ran c world args reads l)
    (hroom : (Host.Process.files c ⟨world, args, reads, l⟩).length < 2 ^ 32) :
    Stands world.dir ((Host.Process.files c ⟨world, args, reads, l⟩).map (fileOf c)) l.storage.1.2.1 := by
  have hstate := h.state hc
  have hwritten : written (requests world.io l.storage.2) = (counted c world args reads).map (image c) :=
    (written_requests world.io l.storage.2).trans hstate.data
  have hpacks : (Pack.pack List.length args.segmentSize (written (requests world.io l.storage.2))).map List.flatten
      = (Host.Process.files c ⟨world, args, reads, l⟩).map (fileOf c) := flatten_packs c _ hwritten
  have hlen := congrArg List.length hpacks
  rw [List.length_map, List.length_map] at hlen
  have hstands := stands_after args.segmentSize world.dir (requests_succeed h.succeeds l.storage.2) (hlen ▸ hroom)
  rw [hpacks] at hstands
  rw [hstate.tied.dir]
  exact hstands

/-- **The files of the runs**, one run written over the other. -/
theorem stands_restarts {dir₀ : Dir} : ∀ {runs : List Host.Process} {dir : Dir} {old : List (List StoredRecord)},
    Stands dir₀ (old.map (fileOf c)) dir → old.length ≤ 99999 → Host.Restarts c dir runs →
    (∀ p ∈ runs, (p.files c).length ≤ 99999) →
    Stands dir₀ ((Host.filesAfter c old runs).map (fileOf c)) (Host.dirAfter dir runs) ∧
      (Host.filesAfter c old runs).length ≤ 99999
  | [], _, _, h, hold, _, _ => ⟨h, hold⟩
  | p :: ps, dir, old, h, hold, ⟨hdir, hran, hrest⟩, hfew => by
    have hp := hfew p List.mem_cons_self
    have hnew := hran.stands hc (by show (p.files c).length < 2 ^ 32; omega)
    rw [hdir] at hnew
    have hover := h.overlaid hnew (by rw [List.length_map]; omega)
      (by rw [List.length_map]; show (p.files c).length < 2 ^ 32; omega)
    rw [← map_overlay] at hover
    have hlen : (overlay (p.files c) old).length ≤ 99999 := by
      rw [length_overlay]
      exact Nat.max_le.2 ⟨hp, hold⟩
    have ih := stands_restarts hover hlen hrest (fun q hq => hfew q (List.mem_cons_of_mem p hq))
    exact ih

/-- **What is left after restarts.**  Hosts run one after another in a directory that held no segment files, each with
at most 99999 files.  The files of a run replace the first files of the runs before it; a reader of the decoder's `JSON`
gets the records in the files that are left, in the order of the files, if they pass the decoder's filter. -/
theorem decode_after_restarts {dir : Dir} (hunused : Session.Unused dir) {runs : List Host.Process}
    (hruns : Host.Restarts c dir runs) (hfew : ∀ p ∈ runs, (p.files c).length ≤ 99999) {disk : Disk}
    {dargs : Decode.Args} (hinspects : Host.Inspects disk (Host.dirAfter dir runs) dargs) (stats : Bool)
    (draw : List (List Char) → List (List (List Char)) → List Char) :
    let files := Host.filesAfter c [] runs
    (∀ p ∈ runs, (p.files c).flatten = counted c p.world p.args p.reads) ∧
    (Decode.main c disk dargs .json stats).map (fun s => Decode.readJson (Decode.output draw s.stdout))
      = if files = [] then .error .noInputFiles
        else .ok (some (files.flatten.filter (Decode.passesFilter dargs))) := by
  intro files
  obtain ⟨hstands, hlen⟩ := stands_restarts hc (stands_nil c dir) (Nat.zero_le _) hruns hfew
  refine ⟨fun p _ => Pack.flatten_pack _ _ _, ?_⟩
  have hread := hstands.read hunused (by rw [List.length_map]; exact hlen) c hinspects
  rw [readSegment_fileOf hc] at hread
  rw [Decode.readJson_main, Decode.decodeAll_eq, hread]
  simp only [List.map_eq_nil_iff]
  split_ifs with hempty
  · rfl
  · exact congrArg (fun rs => Except.ok (some rs)) (Session.shown_ok dargs _)

end

/-- A run without a filter on a system on which nothing fails, with a file for each record. -/
def smallRun (c : Crates) (reads : List (Except IoErrorKind Chunk)) (dir : Dir) : Host.Process :=
  let args := ⟨"-".toList, 20, 0, [], 50⟩
  ⟨⟨.ok (), dir, fun _ => healthyIo, fun _ => .ok reads⟩, args, reads,
    (runLoop c (FileStorage.storage fun _ => healthyIo).traced args.statsInterval (Pipeline.new (Host.filterOf args).1)
      ((.new args.segmentSize, dir, 0), []) reads).1⟩

theorem ran_smallRun (c : Crates) (reads : List (Except IoErrorKind Chunk)) (dir : Dir) :
    Host.Ran c (smallRun c reads dir).world (smallRun c reads dir).args reads (smallRun c reads dir).left :=
  ⟨fun _ => ⟨⟨rfl, rfl⟩, rfl⟩, ⟨.stdin, rfl, rfl⟩, ⟨_, rfl⟩⟩

/-- The first frame again, later. -/
def lateFrame : Chunk := ⟨[3, 1, 1, 1, 1, 1, 1, 1, 1, 3, 165, 125, 0].map (⟨·, 9⟩), by decide⟩

/-- Two records in a file each, and then one record by a later run. -/
theorem decode_after_restarts_run :
    let first := smallRun Crates.documented [.ok twoFrames] (fun _ => none)
    let second := smallRun Crates.documented [.ok lateFrame] first.left.storage.1.2.1
    let disk := Session.diskOf (Session.ofFiles 2 second.left.storage.1.2.1)
    (Decode.main Crates.documented disk Session.decodeHere .json true).map
        (fun s => Decode.readJson (Decode.output (fun _ _ => []) s.stdout))
      = .ok (some [.v1 ⟨9, 0, 1, 0, .new⟩, .v1 ⟨7, 1, 1, 0, .new⟩]) := by
  intro first second disk
  have hc := Crates.documented_standard
  have hunused : Session.Unused (fun _ => none) := fun _ _ => rfl
  have hruns : Host.Restarts Crates.documented (fun _ => none) [first, second] :=
    ⟨rfl, ran_smallRun _ _ _, rfl, ran_smallRun _ _ _, trivial⟩
  have hfiles : Host.filesAfter Crates.documented [] [first, second]
      = [[.v1 ⟨9, 0, 1, 0, .new⟩], [.v1 ⟨7, 1, 1, 0, .new⟩]] := by decide +kernel
  have hfew : ∀ p ∈ [first, second], (p.files Crates.documented).length ≤ 99999 := by
    rw [List.forall_mem_cons, List.forall_mem_singleton]
    exact ⟨by decide +kernel, by decide +kernel⟩
  have hstands := (stands_restarts hc (stands_nil Crates.documented fun _ => none) (Nat.zero_le _) hruns hfew).1
  rw [hfiles] at hstands
  have hprints := (decode_after_restarts hc hunused hruns hfew
    (show Host.Inspects disk _ Session.decodeHere from ⟨rfl, [], rfl, hstands.mounts (by decide) []⟩) true
    (fun _ _ => [])).2
  rw [hfiles] at hprints
  exact hprints

end Telemetry
