import TelemetryLogger.Rotation
import TelemetryLogger.Lib.Decimal
import Mathlib.Data.List.DropRight
import Mathlib.Data.List.Sort
/-!
# Decode — `telemetry-decode` reads a directory

The tool visits the segment files in the order of their names.  The index in a name is padded to five digits, so this is
the order in which one storage created the files as long as the names compare as the indices do (`decode_order_iff`): up
to file 99999 if no `File::create` fails.
-/
namespace Telemetry

open FileStorage (Wrote segmentPath)
open Record (encode image)

namespace Decode

/-! ## The tool -/

/-- A path, by its components: paths compare as lists of names. -/
abbrev PathBuf : Type := List FileName

/-- What the system answers: the entries of a directory, in any order, and the bytes of a file. -/
structure Disk where
  readDir : PathBuf → Except IoError (List (Except IoError FileName))
  read : PathBuf → Except IoError (List UInt8)

structure Args where
  files : List PathBuf
  inDir : Option PathBuf
  since : Option UInt32
  minSeverity : UInt8
  packetTypes : List UInt8

/-- The two exits of the tool with an error. -/
inductive Failure
  | readingDirectory (dir : PathBuf) (e : IoError)
  | noInputFiles
  deriving DecidableEq

/-- What is behind the last dot, unless this dot starts the name. -/
def extension (name : FileName) : Option (List Char) :=
  let front := name.rdropWhile (· != '.')
  if name = ['.', '.'] ∨ front = [] ∨ front = ['.'] then none else some (name.rtakeWhile (· != '.'))

def isSegmentName (name : FileName) : Bool :=
  ['s', 'e', 'g', '-'].isPrefixOf name && (extension name).any (fun ext => ext.map Char.toLower = ['b', 'i', 'n'])

def collectSegmentsInDir (disk : Disk) (dir : PathBuf) : Except IoError (List PathBuf) := do
  let entries ← disk.readDir dir
  let names ← entries.mapM id
  return (names.filter isSegmentName).map (fun name => dir ++ [name])

/-- The paths that `main` visits, in order. -/
def decodePaths (disk : Disk) (args : Args) : Except Failure (List PathBuf) :=
  match args.inDir with
  | none => .ok (args.files.mergeSort (· ≤ ·))
  | some dir =>
    match collectSegmentsInDir disk dir with
    | .error e => .error (.readingDirectory dir e)
    | .ok found => .ok ((args.files ++ found).mergeSort (· ≤ ·))

def readSegmentFile (c : Crates) (disk : Disk) (path : PathBuf) : Except IoError (List (Except Error StoredRecord)) :=
  (disk.read path).map (readSegment c)

def passesFilter (args : Args) : StoredRecord → Bool
  | .v1 r =>
    if args.since.any (fun sinceSeq => r.sequence < sinceSeq) then false
    else if r.severity < args.minSeverity then false
    else if !args.packetTypes.isEmpty && !args.packetTypes.contains r.packetType then false
    else true

/-- The records printed of those in one file. -/
def shown (args : Args) (results : List (Except Error StoredRecord)) : List StoredRecord :=
  (results.filterMap Except.toOption).filter (passesFilter args)

/-- A file that cannot be read is passed over with a warning. -/
def decodeFile (c : Crates) (disk : Disk) (args : Args) (path : PathBuf) : List StoredRecord :=
  match readSegmentFile c disk path with
  | .error _ => []
  | .ok results => shown args results

/-- The records that `main` prints, in order. -/
def decodeAll (c : Crates) (disk : Disk) (args : Args) : Except Failure (List StoredRecord) :=
  match decodePaths disk args with
  | .error e => .error e
  | .ok paths => if paths.isEmpty then .error .noInputFiles else .ok (paths.flatMap (decodeFile c disk args))

/-! ## Paths in order -/

theorem path_lt_iff : ∀ (dir : PathBuf) {a b : FileName}, dir ++ [a] < dir ++ [b] ↔ a < b
  | [], a, b => by simp [List.cons_lt_cons_iff]
  | x :: dir, a, b => by
    rw [List.cons_append, List.cons_append, List.cons_lt_cons_iff]
    simp [path_lt_iff dir]

/-- **Some of the paths of a sorted list are in the order given** exactly if they grow. -/
theorem sublist_iff_pairwise {paths visited : List PathBuf} (hsorted : visited.Pairwise (· ≤ ·))
    (hsub : paths ⊆ visited) (hnodup : paths.Nodup) : paths.Sublist visited ↔ paths.Pairwise (· < ·) := by
  constructor
  · intro h
    have hne : paths.Pairwise (· ≠ ·) := hnodup
    exact (hsorted.sublist h).imp₂ (fun _ _ => lt_of_le_of_ne) hne
  · intro h
    exact List.sublist_of_subperm_of_pairwise (List.subperm_of_subset hnodup hsub) (h.imp le_of_lt) hsorted

/-- `seg-`, the padded index and `.bin`. -/
theorem segmentPath_eq (i : UInt32) :
    segmentPath i = ['s', 'e', 'g', '-'] ++ (Decimal.pad 5 i.toNat ++ '.' :: ['b', 'i', 'n']) := by
  unfold segmentPath Decimal.pad
  simp only [List.append_assoc]

/-- **Names compare as text**: the smaller index is first exactly if it is at most the first digits of the greater. -/
def Ordered (i j : UInt32) : Prop :=
  i.toNat ≤ j.toNat / 10 ^ (Decimal.width 5 j.toNat - Decimal.width 5 i.toNat)

instance (i j : UInt32) : Decidable (Ordered i j) := inferInstanceAs (Decidable (_ ≤ _))

theorem segmentPath_lt_iff {i j : UInt32} (h : i.toNat < j.toNat) : segmentPath i < segmentPath j ↔ Ordered i j := by
  rw [segmentPath_eq, segmentPath_eq, Decimal.append_lt_append_iff _ _ rfl,
    Decimal.pad_lt_iff (by decide) ['b', 'i', 'n'] 5 h]
  simp [Ordered]

theorem isSegmentName_segmentPath (i : UInt32) : isSegmentName (segmentPath i) = true := by
  have hfront : (segmentPath i).rdropWhile (· != '.') = 's' :: (['e', 'g', '-'] ++ Decimal.pad 5 i.toNat ++ ['.']) := by
    simp [segmentPath_eq, List.rdropWhile]
  have hext : (segmentPath i).rtakeWhile (· != '.') = ['b', 'i', 'n'] := by
    simp [segmentPath_eq, List.rtakeWhile]
  have hstart : ['s', 'e', 'g', '-'].isPrefixOf (segmentPath i) = true := by simp [segmentPath_eq, List.isPrefixOf]
  have hextension : extension (segmentPath i) = some ['b', 'i', 'n'] := by
    unfold extension
    rw [hfront, hext]
    apply if_neg
    simp [segmentPath_eq]
  rw [isSegmentName, hstart, hextension]
  decide

end Decode

namespace Session

open Decode

/-! ## The files of a session -/

/-- The names of the files created, in order. -/
def names (x : Session) : List FileName := x.created.map segmentPath

/-- **What a session leaves in its directory**: the files that were there, and those it created. -/
structure Inventory (dir : Dir) (x : Session) : Prop where
  current : ∀ path ∈ x.storage.currentFile, path ∈ x.names
  present : ∀ name, (x.dir name).isSome ↔ (dir name).isSome ∨ name ∈ x.names

theorem isSome_update (dir : Dir) (path name : FileName) (bytes : List UInt8) :
    (Function.update dir path (some bytes) name).isSome ↔ (dir name).isSome ∨ name = path := by
  rw [Function.update_apply]
  split
  · rename_i h
    simp [h]
  · rename_i h
    simp [h]

theorem Inventory.write {dir : Dir} {x : Session} (h : x.Inventory dir) {io : Io} {data : List UInt8}
    {r : FileStorage × Dir × Except FileStorageError Unit} {creates : List (UInt32 × Bool)}
    (hwrote : Wrote x.storage x.dir io data r creates) :
    (⟨r.1, r.2.1, x.creates ++ creates⟩ : Session).Inventory dir := by
  cases hwrote with
  | stuck =>
    rw [List.append_nil]
    exact h
  | stopped =>
    have hnames : (⟨{ x.storage with segmentIndex := x.storage.segmentIndex + 1 }, x.dir,
        x.creates ++ [(x.storage.segmentIndex + 1, false)]⟩ : Session).names = x.names := by
      rw [names, created_append]
      simp [names]
    constructor
    · rw [hnames]
      exact h.current
    · rw [hnames]
      exact h.present
  | rotated =>
    constructor
    · rintro path ⟨⟩
      rw [names, created_append]
      simp
    · intro name
      rw [names, created_append, List.map_append, List.mem_append, isSome_update, h.present, or_assoc]
      simp [names]
  | @appended hrot path hfile =>
    have hold : (x.dir path).isSome := (h.present path).2 (Or.inr (h.current path hfile))
    rw [List.append_nil]
    refine ⟨h.current, ?_⟩
    intro name
    rw [isSome_update, or_iff_left_of_imp (fun hname => by rw [hname]; exact hold)]
    exact h.present name

theorem inventory_after (M : Nat) (dir : Dir) (requests : List (Request × Io)) :
    ((new M dir).after requests).Inventory dir := by
  apply after_invariant (I := fun x => x.Inventory dir) _ requests
  · exact ⟨fun path h => (by cases h), fun name => by simp [names, new, created]⟩
  · exact fun x io data r creates h hwrote => h.write hwrote

/-- **The indices grow**, until they come round. -/
theorem Numbered.increasing {x : Session} (h : x.Numbered) (hroom : x.creates.length < 2 ^ 32) :
    x.created.Pairwise (fun i j => i.toNat < j.toNat) := by
  have hsub : x.created.Sublist (x.creates.map (·.1)) := List.filter_sublist.map _
  refine List.Pairwise.sublist hsub ?_
  rw [h.creates, List.pairwise_map]
  refine List.pairwise_lt_range.imp_of_mem ?_
  intro m n hm hn hlt
  rw [List.mem_range] at hm hn
  rw [UInt32.toNat_ofNat_of_lt' (Nat.lt_of_le_of_lt hm hroom), UInt32.toNat_ofNat_of_lt' (Nat.lt_of_le_of_lt hn hroom)]
  exact Nat.succ_lt_succ hlt

/-- The paths of the files created, in order. -/
def paths (d : PathBuf) (x : Session) : List PathBuf := x.names.map (fun name => d ++ [name])

theorem pairwise_paths (d : PathBuf) {x : Session} (h : x.created.Pairwise (fun i j => i.toNat < j.toNat)) :
    (x.paths d).Nodup ∧ ((x.paths d).Pairwise (· < ·) ↔ x.created.Pairwise Ordered) := by
  unfold paths names
  constructor
  · rw [List.Nodup, List.pairwise_map, List.pairwise_map]
    refine h.imp ?_
    intro i j hlt heq
    rw [List.append_cancel_left_eq, List.cons.injEq] at heq
    rw [Log.segmentPath_injective heq.1] at hlt
    exact Nat.lt_irrefl _ hlt
  · rw [List.pairwise_map, List.pairwise_map]
    constructor
    · intro hp
      exact hp.imp₂ (fun i j hlt hij => (segmentPath_lt_iff hij).1 ((path_lt_iff d).1 hlt)) h
    · intro hp
      exact hp.imp₂ (fun i j ho hij => (path_lt_iff d).2 ((segmentPath_lt_iff hij).2 ho)) h

/-! ## The directory, seen by the tool -/

/-- The disk holds the session's directory at `d`. -/
structure Shows (disk : Disk) (d : PathBuf) (x : Session) : Prop where
  listed : ∃ entries : List FileName, disk.readDir d = .ok (entries.map .ok) ∧ entries.Nodup ∧
    ∀ name, name ∈ entries ↔ (x.dir name).isSome
  read : ∀ name, (x.dir name).isSome → disk.read (d ++ [name]) = .ok (x.contents name)

theorem Shows.collect {disk : Disk} {d : PathBuf} {x : Session} (h : Shows disk d x) :
    ∃ found : List FileName, collectSegmentsInDir disk d = .ok (found.map (fun name => d ++ [name])) ∧ found.Nodup ∧
      ∀ name, name ∈ found ↔ (x.dir name).isSome ∧ isSegmentName name = true := by
  obtain ⟨entries, hread, hnodup, hmem⟩ := h.listed
  refine ⟨entries.filter isSegmentName, ?_, hnodup.filter _, fun name => by rw [List.mem_filter, hmem]⟩
  have hentries : (entries.map Except.ok).mapM (id : Except IoError FileName → _) = .ok entries := by
    rw [List.mapM_map]
    exact (mapM_eq_pure (fun name => rfl) entries).trans (congrArg _ (List.map_id' entries))
  rw [collectSegmentsInDir, hread]
  show ((entries.map Except.ok).mapM id >>= _) = _
  rw [hentries]
  rfl

theorem Shows.decodeFile {c : Crates} {disk : Disk} {d : PathBuf} {x : Session} (h : Shows disk d x) (args : Args)
    {name : FileName} (hname : (x.dir name).isSome) :
    Decode.decodeFile c disk args (d ++ [name]) = shown args (readSegment c (x.contents name)) := by
  unfold Decode.decodeFile readSegmentFile
  rw [h.read name hname]
  rfl

/-- There is no segment file in the directory. -/
def Unused (dir : Dir) : Prop := ∀ name, isSegmentName name = true → dir name = none

/-- **Decode order is write order**, for the tool on the directory at `d` after these requests: it visits the files
created in the order of their creation; where the directory held no other segment files it visits only these, and prints
their records file by file; and if the writes are encoded records and nothing fails, it prints what the filter passes of
the records, in order. -/
structure DecodesInOrder (c : Crates) (disk : Disk) (args : Args) (d : PathBuf) (M : Nat) (dir : Dir)
    (requests : List (Request × Io)) : Prop where
  visits : ∃ visited, decodePaths disk args = .ok visited ∧ (((new M dir).after requests).paths d).Sublist visited
  alone : Unused dir → decodePaths disk args = .ok (((new M dir).after requests).paths d) ∧
    decodeAll c disk args = if ((new M dir).after requests).created = [] then .error .noInputFiles
      else .ok (((new M dir).after requests).names.flatMap
        (fun name => shown args (readSegment c (((new M dir).after requests).contents name))))
  records : Unused dir → (∀ q ∈ requests, q.2.Succeeds) → ∀ rs : List StoredRecord, rs ≠ [] →
    rs.mapM (fun r => encode c r maxStoredRecordBytes) = .ok (written requests) →
    decodeAll c disk args = .ok (rs.filter (passesFilter args))

section

variable {c : Crates} {disk : Disk} {args : Args} {d : PathBuf} {dir : Dir} {x : Session}

/-- **The tool visits the files created**, in the order of their names; and only these, where the directory held no
segment files. -/
theorem exists_visited (hnum : x.Numbered) (hinv : x.Inventory dir) (hroom : x.creates.length < 2 ^ 32)
    (hshows : Shows disk d x) (hfiles : args.files = []) (hdir : args.inDir = some d) :
    ∃ visited, decodePaths disk args = .ok visited ∧ visited.Pairwise (· ≤ ·) ∧ x.paths d ⊆ visited ∧
      (Unused dir → visited.Perm (x.paths d)) := by
  obtain ⟨found, hcollect, hnodup, hmem⟩ := hshows.collect
  have hnames : x.names ⊆ found := by
    intro name hname
    obtain ⟨i, -, rfl⟩ := List.mem_map.1 hname
    exact (hmem _).2 ⟨(hinv.present _).2 (Or.inr hname), isSegmentName_segmentPath i⟩
  refine ⟨(found.map (fun name => d ++ [name])).mergeSort (· ≤ ·), ?_, List.pairwise_mergeSort' (· ≤ ·) _, ?_, ?_⟩
  · unfold decodePaths
    rw [hdir, hfiles]
    simp only
    rw [hcollect]
    rfl
  · exact fun path hpath => List.mem_mergeSort.2 (List.map_subset _ hnames hpath)
  · intro hunused
    have hperm : found.Perm x.names := by
      rw [List.perm_ext_iff_of_nodup hnodup (List.Nodup.of_map _ (pairwise_paths d (hnum.increasing hroom)).1)]
      intro name
      refine ⟨?_, fun hname => hnames hname⟩
      rw [hmem, hinv.present]
      rintro ⟨hold | hnew, hseg⟩
      · rw [hunused name hseg] at hold
        cases hold
      · exact hnew
    exact (List.mergeSort_perm _ _).trans (hperm.map _)

/-- **The files created are visited in order exactly if their names are in order.** -/
theorem visits_iff (hnum : x.Numbered) (hinv : x.Inventory dir) (hroom : x.creates.length < 2 ^ 32)
    (hshows : Shows disk d x) (hfiles : args.files = []) (hdir : args.inDir = some d) :
    (∃ visited, decodePaths disk args = .ok visited ∧ (x.paths d).Sublist visited) ↔ x.created.Pairwise Ordered := by
  obtain ⟨visited, hvisited, hsorted, hsub, -⟩ := exists_visited hnum hinv hroom hshows hfiles hdir
  obtain ⟨hnodup, hordered⟩ := pairwise_paths d (hnum.increasing hroom)
  rw [← hordered, ← sublist_iff_pairwise hsorted hsub hnodup, hvisited]
  simp

/-- Where the directory held no segment files, the files created are all. -/
theorem visits_only (hnum : x.Numbered) (hinv : x.Inventory dir) (hroom : x.creates.length < 2 ^ 32)
    (hshows : Shows disk d x) (hfiles : args.files = []) (hdir : args.inDir = some d) (hunused : Unused dir)
    (hordered : x.created.Pairwise Ordered) : decodePaths disk args = .ok (x.paths d) := by
  obtain ⟨visited, hvisited, hsorted, hsub, hperm⟩ := exists_visited hnum hinv hroom hshows hfiles hdir
  obtain ⟨hnodup, hordered'⟩ := pairwise_paths d (hnum.increasing hroom)
  have hsublist := (sublist_iff_pairwise hsorted hsub hnodup).2 (hordered'.2 hordered)
  rw [hvisited, hsublist.eq_of_length (hperm hunused).length_eq.symm]

theorem decodeAll_of_visits (hinv : x.Inventory dir) (hshows : Shows disk d x)
    (hvisits : decodePaths disk args = .ok (x.paths d)) :
    decodeAll c disk args = if x.created = [] then .error .noInputFiles
      else .ok (x.names.flatMap (fun name => shown args (readSegment c (x.contents name)))) := by
  have hfiles : (x.paths d).flatMap (decodeFile c disk args)
      = x.names.flatMap (fun name => shown args (readSegment c (x.contents name))) := by
    rw [paths, List.flatMap_map]
    apply List.flatMap_congr
    intro name hname
    exact hshows.decodeFile args ((hinv.present name).2 (Or.inr hname))
  unfold decodeAll
  rw [hvisits]
  simp only
  rw [hfiles]
  simp [paths, names]

end

theorem shown_flatMap {α : Type} (args : Args) (f : α → List (Except Error StoredRecord)) : ∀ xs : List α,
    xs.flatMap (fun a => shown args (f a)) = shown args (xs.flatMap f)
  | [] => rfl
  | a :: xs => by
    rw [List.flatMap_cons, List.flatMap_cons, shown_flatMap args f xs]
    simp [shown]

theorem shown_ok (args : Args) (rs : List StoredRecord) : shown args (rs.map .ok) = rs.filter (passesFilter args) := by
  unfold shown
  rw [List.filterMap_map]
  exact congrArg _ (List.filterMap_some)

/-- Without I/O errors every call of `File::create` is a file. -/
theorem created_after (M : Nat) (dir : Dir) (requests : List (Request × Io)) : (∀ q ∈ requests, q.2.Succeeds) →
    ∀ e ∈ ((new M dir).after requests).creates, e.2 = true := by
  apply after_induction (P := fun _ x => ∀ e ∈ x.creates, e.2 = true)
  · exact fun e he => absurd he List.not_mem_nil
  · intro ds x io data hio h e he
    rcases List.mem_append.1 he with he | he
    · exact h e he
    · unfold FileStorage.createsOf at he
      split at he
      · rw [List.mem_singleton.1 he, hio.1.2]
        rfl
      · cases he

/-- **If every `File::create` succeeds, the files are numbered from 1.** -/
theorem Numbered.created_eq {x : Session} (h : x.Numbered) (hcreated : ∀ e ∈ x.creates, e.2 = true) :
    x.created = (List.range x.creates.length).map (fun n => UInt32.ofNat (n + 1)) := by
  rw [created, List.filter_eq_self.2 hcreated, h.creates]

/-- **Names of five digits are in order, and the sixth digit breaks the order.** -/
theorem ordered_range_iff {m : Nat} (hm : m < 2 ^ 32) :
    ((List.range m).map (fun n => UInt32.ofNat (n + 1))).Pairwise Ordered ↔ m ≤ 99999 := by
  rw [List.pairwise_map]
  constructor
  · intro h
    by_contra hmany
    have hlt : 99999 < m := by omega
    have hpair := List.pairwise_iff_getElem.1 h 99998 99999 (by simp; omega) (by simpa using hlt) (by decide)
    rw [List.getElem_range, List.getElem_range] at hpair
    exact absurd hpair (by decide)
  · intro hfew
    refine List.pairwise_lt_range.imp_of_mem ?_
    intro i j hi hj hlt
    rw [List.mem_range] at hi hj
    unfold Ordered
    rw [UInt32.toNat_ofNat_of_lt' (Nat.lt_of_le_of_lt hi hm), UInt32.toNat_ofNat_of_lt' (Nat.lt_of_le_of_lt hj hm),
      Decimal.width_of_lt (by decide) (by omega), Decimal.width_of_lt (by decide) (by omega)]
    simp
    omega

/-- The files 1 to `segment_count()` are then the files created. -/
theorem Numbered.files_eq {x : Session} (h : x.Numbered) (hcreated : ∀ e ∈ x.creates, e.2 = true)
    (hroom : x.creates.length < 2 ^ 32) : x.files = x.names.map x.contents := by
  have hcount : x.storage.segmentCount.toNat = x.creates.length := by
    rw [FileStorage.segmentCount, h.index, UInt32.toNat_ofNat_of_lt' hroom]
  rw [files, hcount, names, h.created_eq hcreated, List.map_map, List.map_map]
  rfl

theorem flatMap_names {c : Crates} (hc : c.Standard) (M : Nat) (dir : Dir) {requests : List (Request × Io)}
    (hok : ∀ q ∈ requests, q.2.Succeeds) (hroom : ((new M dir).after requests).creates.length < 2 ^ 32)
    {rs : List StoredRecord}
    (hrs : rs.mapM (fun r => encode c r maxStoredRecordBytes) = .ok (written requests)) :
    ((new M dir).after requests).names.flatMap
        (fun name => readSegment c (((new M dir).after requests).contents name)) = rs.map .ok := by
  have hcreates := (packing_after M dir requests hok).creates
  have hfiles := (numbered_after M dir requests).files_eq (created_after M dir requests hok) hroom
  have hread := flatMap_files hc M dir hok (hcreates ▸ hroom) hrs
  rwa [hfiles, List.flatMap_map] at hread

/-! ## Decode order -/

/-- **When decode order is write order.**  In a run of one storage with any answers, as long as its index has not come
round, `telemetry-decode --in-dir` visits the files in the order of their creation, and prints their records in this
order, if and only if every two file names compare as their indices do.  If no `File::create` fails: if and only if
there are at most 99999 files. -/
theorem decode_order_iff {c : Crates} (hc : c.Standard) (M : Nat) (dir : Dir) (requests : List (Request × Io))
    (hroom : ((new M dir).after requests).creates.length < 2 ^ 32) {disk : Disk} {d : PathBuf}
    (hshows : Shows disk d ((new M dir).after requests)) {args : Args} (hfiles : args.files = [])
    (hdir : args.inDir = some d) :
    (DecodesInOrder c disk args d M dir requests ↔ ((new M dir).after requests).created.Pairwise Ordered) ∧
    ((∀ e ∈ ((new M dir).after requests).creates, e.2 = true) →
      (DecodesInOrder c disk args d M dir requests ↔ ((new M dir).after requests).created.length ≤ 99999)) := by
  have hnum := numbered_after M dir requests
  have hinv := inventory_after M dir requests
  have hiff : DecodesInOrder c disk args d M dir requests ↔ ((new M dir).after requests).created.Pairwise Ordered := by
    rw [← visits_iff hnum hinv hroom hshows hfiles hdir]
    constructor
    · exact fun h => h.visits
    · intro hvisits
      have hordered := (visits_iff hnum hinv hroom hshows hfiles hdir).1 hvisits
      have honly := fun hunused => visits_only hnum hinv hroom hshows hfiles hdir hunused hordered
      have hall := fun hunused => decodeAll_of_visits (c := c) hinv hshows (honly hunused)
      refine ⟨hvisits, fun hunused => ⟨honly hunused, hall hunused⟩, ?_⟩
      intro hunused hok rs hne hrs
      have hread := flatMap_names hc M dir hok hroom hrs
      rw [hall hunused, if_neg,
        shown_flatMap args (fun name => readSegment c (((new M dir).after requests).contents name)), hread, shown_ok]
      intro hnone
      rw [names, hnone] at hread
      exact hne (List.map_eq_nil_iff.1 hread.symm)
  refine ⟨hiff, ?_⟩
  intro hcreated
  have hcreated := hnum.created_eq hcreated
  rw [hiff, hcreated, ordered_range_iff hroom, List.length_map, List.length_range]

/-- The disk with this directory, wherever it is. -/
def diskOf (x : Session) : Disk where
  readDir _ := .ok (x.names.map .ok)
  read path :=
    match x.dir (path.getLastD []) with
    | some bytes => .ok bytes
    | none => .error (.os 2)

theorem shows_diskOf {x : Session} (hnum : x.Numbered) (h : x.Inventory (fun _ => none))
    (hroom : x.creates.length < 2 ^ 32) (d : PathBuf) : Shows (diskOf x) d x := by
  constructor
  · refine ⟨x.names, rfl, List.Nodup.of_map _ (pairwise_paths d (hnum.increasing hroom)).1, ?_⟩
    intro name
    rw [h.present]
    simp
  · intro name hname
    obtain ⟨bytes, hbytes⟩ := Option.isSome_iff_exists.1 hname
    unfold diskOf contents
    simp [hbytes]

/-- `--in-dir .`, and nothing filtered. -/
def decodeHere : Args := ⟨[], some [], none, 0, []⟩

theorem decode_order_run :
    let requests : List (Request × Io) := [(.write (image Crates.documented firstRecord), healthyIo),
      (.write (image Crates.documented secondRecord), ⟨.ok (), .error (.os 28), none⟩), (.flush, healthyIo),
      (.write (image Crates.documented secondRecord), healthyIo)]
    let x := (new 20 (fun _ => none)).after requests
    x.created = [1, 3] ∧ DecodesInOrder Crates.documented (diskOf x) decodeHere [] 20 (fun _ => none) requests := by
  intro requests x
  have hroom : x.creates.length < 2 ^ 32 := by decide +kernel
  have hshows := shows_diskOf (numbered_after 20 (fun _ => none) requests)
    (inventory_after 20 (fun _ => none) requests) hroom []
  refine ⟨by decide +kernel, ?_⟩
  exact (decode_order_iff Crates.documented_standard 20 (fun _ => none) requests hroom hshows rfl rfl).1.2
    (by decide +kernel)

/-! ## One record in each file -/

theorem map_eq_of_flatMap {α β : Type} {g : α → List β} : ∀ {as : List α}, (∀ a ∈ as, ∃ b, g a = [b]) →
    as.map g = (as.flatMap g).map (fun b => [b])
  | [], _ => rfl
  | a :: as, h => by
    obtain ⟨b, hb⟩ := h a List.mem_cons_self
    have ih := map_eq_of_flatMap (fun a ha => h a (List.mem_cons_of_mem _ ha))
    rw [List.map_cons, List.flatMap_cons, List.map_append, ih, hb]
    rfl

/-- **Distinct records, one in each file, are printed in order only if the files are visited in order.** -/
theorem visits_of_prints {c : Crates} {disk : Disk} {args : Args} {d : PathBuf} {dir : Dir} {x : Session}
    (hnum : x.Numbered) (hinv : x.Inventory dir) (hroom : x.creates.length < 2 ^ 32)
    (hshows : Shows disk d x) (hfiles : args.files = []) (hdir : args.inDir = some d) (hunused : Unused dir)
    {rs : List StoredRecord} (hnodup : rs.Nodup)
    (hone : x.names.map (fun name => shown args (readSegment c (x.contents name))) = rs.map (fun r => [r]))
    (hprints : decodeAll c disk args = .ok rs) : decodePaths disk args = .ok (x.paths d) := by
  obtain ⟨visited, hvisited, -, -, hperm⟩ := exists_visited hnum hinv hroom hshows hfiles hdir
  have hperm := hperm hunused
  have hpaths : (x.paths d).map (decodeFile c disk args) = rs.map (fun r => [r]) := by
    rw [← hone, paths, List.map_map]
    apply List.map_congr_left
    intro name hname
    exact hshows.decodeFile args ((hinv.present name).2 (Or.inr hname))
  have hflat : visited.flatMap (decodeFile c disk args) = rs := by
    unfold decodeAll at hprints
    rw [hvisited] at hprints
    simp only at hprints
    split at hprints
    · cases hprints
    · exact Except.ok.inj hprints
  have hsingle : ∀ path ∈ visited, ∃ r, decodeFile c disk args path = [r] := by
    intro path hpath
    have hmem := List.mem_map_of_mem (f := decodeFile c disk args) (hperm.subset hpath)
    rw [hpaths] at hmem
    obtain ⟨r, -, hr⟩ := List.mem_map.1 hmem
    exact ⟨r, hr.symm⟩
  have hsame : visited.map (decodeFile c disk args) = (x.paths d).map (decodeFile c disk args) := by
    rw [map_eq_of_flatMap hsingle, hflat, hpaths]
  have hnodup' : ((x.paths d).map (decodeFile c disk args)).Nodup := by
    rw [hpaths]
    exact hnodup.map (fun r r' h => (List.cons.inj h).1)
  have heq : visited = x.paths d := by
    apply List.ext_getElem hperm.length_eq
    intro i hi hi'
    apply List.inj_on_of_nodup_map hnodup' (hperm.subset (List.getElem_mem hi)) (List.getElem_mem hi')
    simpa [List.getElem?_eq_getElem, hi, hi'] using congrArg (·[i]?) hsame
  rw [hvisited, heq]

/-- Records told apart by their sequence. -/
def numberedRecord (n : Nat) : StoredRecord := .v1 ⟨0, UInt32.ofNat n, 1, 0, .new⟩

/-- Writes of records, which all succeed. -/
def recordWrites (rs : List StoredRecord) : List (Request × Io) :=
  rs.map (fun r => (.write (image Crates.documented r), healthyIo))

theorem recordWrites_succeed (rs : List StoredRecord) : ∀ q ∈ recordWrites rs, q.2.Succeeds := by
  intro q hq
  obtain ⟨r, -, rfl⟩ := List.mem_map.1 hq
  exact ⟨⟨rfl, rfl⟩, rfl⟩

theorem written_recordWrites (rs : List StoredRecord) :
    written (recordWrites rs) = rs.map (image Crates.documented) := by
  rw [written, recordWrites, List.filterMap_map]
  exact congrFun List.filterMap_eq_map' rs

/-- With no room in a file every write opens one. -/
theorem recordWrites_created (rs : List StoredRecord) (dir : Dir) :
    ((new 0 dir).after (recordWrites rs)).creates.length = rs.length ∧
      (rs.length < 2 ^ 32 → ((new 0 dir).after (recordWrites rs)).files = rs.map (image Crates.documented)) := by
  have hok := recordWrites_succeed rs
  have hheavy : ∀ d ∈ written (recordWrites rs), 0 < d.length := by
    intro d hd
    rw [written_recordWrites] at hd
    obtain ⟨r, -, rfl⟩ := List.mem_map.1 hd
    rw [Record.length_image]
    exact Nat.succ_pos _
  have hpack := Pack.pack_of_heavy hheavy
  have hlen : (Pack.pack List.length 0 (written (recordWrites rs))).length = rs.length := by
    rw [hpack, List.length_map, written_recordWrites, List.length_map]
  constructor
  · rw [(packing_after 0 dir _ hok).creates, hlen]
  · intro hroom
    rw [(holds_after 0 dir _ hok (by rw [hlen]; exact hroom)).files_eq, hpack, written_recordWrites]
    simp

theorem recordWrites_broken {rs : List StoredRecord} (hnodup : rs.Nodup) (hmany : 99999 < rs.length)
    (hroom : rs.length < 2 ^ 32) (hshown : ∀ r ∈ rs, passesFilter decodeHere r = true) :
    let x := (new 0 (fun _ => none)).after (recordWrites rs)
    x.created.length = rs.length ∧ Shows (diskOf x) [] x ∧ decodeAll Crates.documented (diskOf x) decodeHere ≠ .ok rs ∧
      ¬ DecodesInOrder Crates.documented (diskOf x) decodeHere [] 0 (fun _ => none) (recordWrites rs) := by
  intro x
  have hnum : x.Numbered := numbered_after 0 (fun _ => none) (recordWrites rs)
  have hinv : x.Inventory (fun _ => none) := inventory_after 0 (fun _ => none) (recordWrites rs)
  have hcreated := created_after 0 (fun _ => none) (recordWrites rs) (recordWrites_succeed rs)
  obtain ⟨hlen, hfiles⟩ := recordWrites_created rs (fun _ => none)
  have hroom' : x.creates.length < 2 ^ 32 := by rw [hlen]; exact hroom
  have hshows := shows_diskOf hnum hinv hroom' []
  have hnumbered := hnum.created_eq hcreated
  have hlost : ¬ ∃ visited, decodePaths (diskOf x) decodeHere = .ok visited ∧ (x.paths []).Sublist visited := by
    rw [visits_iff hnum hinv hroom' hshows rfl rfl, hnumbered, ordered_range_iff hroom', hlen]
    exact Nat.not_le.2 hmany
  refine ⟨by rw [hnumbered, List.length_map, List.length_range, hlen], hshows, ?_, fun h => hlost h.visits⟩
  intro hprints
  have hone : x.names.map (fun name => shown decodeHere (readSegment Crates.documented (x.contents name)))
      = rs.map (fun r => [r]) := by
    have hcontents := (hnum.files_eq hcreated hroom').symm.trans (hfiles hroom)
    show x.names.map ((fun bytes => shown decodeHere (readSegment Crates.documented bytes)) ∘ x.contents) = _
    rw [← List.map_map, hcontents, List.map_map]
    apply List.map_congr_left
    intro r hr
    have hread := readSegment_records Crates.documented_standard [r]
    rw [List.flatMap_singleton] at hread
    show shown decodeHere (readSegment Crates.documented (image Crates.documented r)) = [r]
    rw [hread, shown_ok, List.filter_singleton, hshown r hr]
    rfl
  have hvisits := visits_of_prints hnum hinv hroom' hshows rfl rfl (fun _ _ => rfl) hnodup hone hprints
  exact hlost ⟨_, hvisits, List.Sublist.refl _⟩

theorem numberedRecord_nodup {n : Nat} (hn : n < 2 ^ 32) : ((List.range n).map numberedRecord).Nodup := by
  apply List.nodup_range.map_on
  intro i hi j hj h
  rw [List.mem_range] at hi hj
  have hsequence : UInt32.ofNat i = UInt32.ofNat j := by
    unfold numberedRecord at h
    simpa using h
  have hvalue := congrArg UInt32.toNat hsequence
  rwa [UInt32.toNat_ofNat_of_lt' (Nat.lt_trans hi hn), UInt32.toNat_ofNat_of_lt' (Nat.lt_trans hj hn)] at hvalue

theorem decode_order_broken {n : Nat} (hmany : 99999 < n) (hroom : n < 2 ^ 32) :
    let rs := (List.range n).map numberedRecord
    let x := (new 0 (fun _ => none)).after (recordWrites rs)
    x.created.length = n ∧ Shows (diskOf x) [] x ∧ decodeAll Crates.documented (diskOf x) decodeHere ≠ .ok rs ∧
      ¬ DecodesInOrder Crates.documented (diskOf x) decodeHere [] 0 (fun _ => none) (recordWrites rs) := by
  intro rs
  have hlen : rs.length = n := by rw [List.length_map, List.length_range]
  have hshown : ∀ r ∈ rs, passesFilter decodeHere r = true := by
    intro r hr
    obtain ⟨i, -, rfl⟩ := List.mem_map.1 hr
    rfl
  have hbroken := recordWrites_broken (numberedRecord_nodup hroom) (by rw [hlen]; exact hmany)
    (by rw [hlen]; exact hroom) hshown
  rwa [hlen] at hbroken

/-- File 100000 is visited before file 99999, and its record is printed too early. -/
theorem decode_order_lost :
    let rs := (List.range 100000).map numberedRecord
    let x := (new 0 (fun _ => none)).after (recordWrites rs)
    segmentPath 100000 < segmentPath 99999 ∧ x.created.length = 100000 ∧ Shows (diskOf x) [] x ∧
      decodeAll Crates.documented (diskOf x) decodeHere ≠ .ok rs ∧
      ¬ DecodesInOrder Crates.documented (diskOf x) decodeHere [] 0 (fun _ => none) (recordWrites rs) :=
  ⟨by decide +kernel, decode_order_broken (by decide) (by decide)⟩

end Session

end Telemetry
