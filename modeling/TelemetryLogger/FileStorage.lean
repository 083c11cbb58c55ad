import TelemetryLogger.Delivery
import Mathlib.Logic.Function.Basic
/-!
# FileStorage — rotating segment files (`telemetry-std`, `FileStorage`)

The output directory maps file names to contents.  A call comes with the answers of the system calls it may make; a
`write_all` that fails has persisted a proper prefix of its data.  A write is stuck at the flush, stopped at the
creation of the file, or appends (`write_wrote`).  A log is a run of writes of encoded records, with those acknowledged
so far: they all survive if none is appended to the rest of a failed write (`acknowledged_survive`).

`currentSize` and `maxSegmentBytes` are natural numbers where the source has `usize`: a 64-bit `usize` is assumed, and
sizes below `2 ^ 64`, so that no sum of them wraps.
-/
namespace Telemetry

open Record (encode image)

abbrev FileName : Type := List Char

abbrev Dir : Type := FileName → Option (List UInt8)

inductive IoError
  | os (code : Int)
  | other (message : String)
  deriving DecidableEq

inductive FileStorageError
  | io (e : IoError)
  deriving DecidableEq

/-- The answers of the system calls one call of the storage may make. -/
structure Io where
  flush : Except IoError Unit
  create : Except IoError Unit
  /-- How many bytes `write_all` persists before its error, if there is one. -/
  writeError : Option (Nat × IoError)

/-- The error of a `write_all` of `data`: there is none once all of it is persisted. -/
def Io.failsAt (io : Io) (data : List UInt8) : Option (Nat × IoError) :=
  io.writeError.filter (fun e => e.1 < data.length)

def Io.writeAll (io : Io) (bytes data : List UInt8) : List UInt8 × Except IoError Unit :=
  match io.failsAt data with
  | some (kept, e) => (bytes ++ data.take kept, .error e)
  | none => (bytes ++ data, .ok ())

structure FileStorage where
  maxSegmentBytes : Nat
  currentFile : Option FileName
  segmentIndex : UInt32
  currentSize : Nat

namespace FileStorage

def new (maxSegmentBytes : Nat) : FileStorage := ⟨maxSegmentBytes, none, 0, 0⟩

/-- `seg-{index:05}.bin`. -/
def segmentPath (index : UInt32) : FileName :=
  let digits := Nat.toDigits 10 index.toNat
  ['s', 'e', 'g', '-'] ++ List.replicate (5 - digits.length) '0' ++ digits ++ ['.', 'b', 'i', 'n']

def flushCurrent (st : FileStorage) (io : Io) : Except IoError Unit :=
  match st.currentFile with
  | some _ => io.flush
  | none => .ok ()

def openNextSegment (st : FileStorage) (dir : Dir) (io : Io) : FileStorage × Dir × Except FileStorageError Unit :=
  match st.flushCurrent io with
  | .error e => (st, dir, .error (.io e))
  | .ok _ =>
    let st := { st with segmentIndex := st.segmentIndex + 1 }
    let path := segmentPath st.segmentIndex
    match io.create with
    | .error e => (st, dir, .error (.io e))
    | .ok _ => ({ st with currentFile := some path, currentSize := 0 }, Function.update dir path (some []), .ok ())

def needsRotate (st : FileStorage) (data : List UInt8) : Bool :=
  st.currentFile.isNone || st.currentSize + data.length > st.maxSegmentBytes

/-- The end of `write`, after the rotation. -/
def writeCurrent (st : FileStorage) (dir : Dir) (io : Io) (data : List UInt8) :
    FileStorage × Dir × Except FileStorageError Unit :=
  match st.currentFile with
  | some path =>
    match io.writeAll ((dir path).getD []) data with
    | (bytes, .error e) => (st, Function.update dir path (some bytes), .error (.io e))
    | (bytes, .ok _) =>
      ({ st with currentSize := st.currentSize + data.length }, Function.update dir path (some bytes), .ok ())
  | none => (st, dir, .error (.io (.other "internal: no segment file open after rotation")))

def write (st : FileStorage) (dir : Dir) (io : Io) (data : List UInt8) :
    FileStorage × Dir × Except FileStorageError Unit :=
  if st.needsRotate data then
    match st.openNextSegment dir io with
    | (st, dir, .error e) => (st, dir, .error e)
    | (st, dir, .ok _) => st.writeCurrent dir io data
  else st.writeCurrent dir io data

def flush (st : FileStorage) (io : Io) : Except FileStorageError Unit := (st.flushCurrent io).mapError .io

/-! ## Where a write goes -/

/-- The file a write appends to. -/
def target (st : FileStorage) (data : List UInt8) : FileName :=
  if st.needsRotate data then segmentPath (st.segmentIndex + 1) else st.currentFile.getD []

/-- What is in that file when the bytes are appended. -/
def found (st : FileStorage) (dir : Dir) (data : List UInt8) : List UInt8 :=
  if st.needsRotate data then [] else (dir (st.target data)).getD []

end FileStorage

def Io.Opens (io : Io) : Prop := io.flush = .ok () ∧ io.create = .ok ()

instance (io : Io) : Decidable io.Opens := inferInstanceAs (Decidable (_ ∧ _))

def Io.persisted (io : Io) (data : List UInt8) : List UInt8 :=
  match io.failsAt data with
  | some (kept, _) => data.take kept
  | none => data

namespace FileStorage

/-! ## One write -/

/-- What `write_all` answers. -/
def answer (io : Io) (data : List UInt8) : Except FileStorageError Unit :=
  match io.failsAt data with
  | some (_, e) => .error (.io e)
  | none => .ok ()

/-- What `write` adds to the size. -/
def counted (io : Io) (data : List UInt8) : Nat := if io.failsAt data = none then data.length else 0

/-- The calls of `File::create` that `write` makes: the index in the name, and whether a file was created. -/
def createsOf (st : FileStorage) (io : Io) (data : List UInt8) : List (UInt32 × Bool) :=
  if st.needsRotate data = true ∧ st.flushCurrent io = .ok () then [(st.segmentIndex + 1, io.create.isOk)] else []

/-- **What a write does.** -/
inductive Wrote (st : FileStorage) (dir : Dir) (io : Io) (data : List UInt8) :
    FileStorage × Dir × Except FileStorageError Unit → List (UInt32 × Bool) → Prop
  | stuck (hrot : st.needsRotate data = true) {e : IoError} (hflush : st.flushCurrent io = .error e) :
      Wrote st dir io data (st, dir, .error (.io e)) []
  | stopped (hrot : st.needsRotate data = true) (hflush : st.flushCurrent io = .ok ()) {e : IoError}
      (hcreate : io.create = .error e) :
      Wrote st dir io data ({ st with segmentIndex := st.segmentIndex + 1 }, dir, .error (.io e))
        [(st.segmentIndex + 1, false)]
  | rotated (hrot : st.needsRotate data = true) (hflush : st.flushCurrent io = .ok ()) (hcreate : io.create = .ok ()) :
      Wrote st dir io data ({ st with
        currentFile := some (segmentPath (st.segmentIndex + 1))
        segmentIndex := st.segmentIndex + 1
        currentSize := counted io data },
        Function.update dir (segmentPath (st.segmentIndex + 1)) (some (io.persisted data)), answer io data)
        [(st.segmentIndex + 1, true)]
  | appended (hrot : st.needsRotate data = false) {path : FileName} (hfile : st.currentFile = some path) :
      Wrote st dir io data ({ st with currentSize := st.currentSize + counted io data },
        Function.update dir path (some ((dir path).getD [] ++ io.persisted data)), answer io data) []

theorem flushCurrent_of_opens {io : Io} (hio : io.Opens) (st : FileStorage) : st.flushCurrent io = .ok () := by
  unfold flushCurrent
  split
  · exact hio.1
  · rfl

theorem openNextSegment_ok {st : FileStorage} {io : Io} (hflush : st.flushCurrent io = .ok ())
    (hcreate : io.create = .ok ()) (dir : Dir) : st.openNextSegment dir io = ({ st with
      currentFile := some (segmentPath (st.segmentIndex + 1)), segmentIndex := st.segmentIndex + 1, currentSize := 0 },
      Function.update dir (segmentPath (st.segmentIndex + 1)) (some []), .ok ()) := by
  rw [openNextSegment, hflush, hcreate]

theorem writeCurrent_eq {st : FileStorage} {path : FileName} (hfile : st.currentFile = some path) (dir : Dir) (io : Io)
    (data : List UInt8) : st.writeCurrent dir io data = ({ st with currentSize := st.currentSize + counted io data },
      Function.update dir path (some ((dir path).getD [] ++ io.persisted data)), answer io data) := by
  obtain ⟨maxSegmentBytes, file, index, size⟩ := st
  subst hfile
  unfold writeCurrent Io.writeAll Io.persisted counted answer
  cases io.failsAt data with
  | some f => rfl
  | none => rfl

theorem write_wrote (st : FileStorage) (dir : Dir) (io : Io) (data : List UInt8) :
    Wrote st dir io data (st.write dir io data) (st.createsOf io data) := by
  unfold write createsOf
  cases hrot : st.needsRotate data with
  | true =>
    rw [if_pos rfl]
    cases hflush : st.flushCurrent io with
    | error e =>
      rw [openNextSegment, hflush, if_neg (fun h => by cases h.2)]
      exact .stuck hrot hflush
    | ok u =>
      rw [if_pos ⟨rfl, rfl⟩]
      cases hcreate : io.create with
      | error e =>
        rw [openNextSegment, hflush, hcreate]
        exact .stopped hrot hflush hcreate
      | ok u =>
        rw [openNextSegment_ok hflush hcreate]
        simp only
        rw [writeCurrent_eq rfl, Function.update_self, Function.update_idem]
        simp only [Nat.zero_add]
        exact .rotated hrot hflush hcreate
  | false =>
    rw [if_neg Bool.false_ne_true, if_neg (fun h => Bool.false_ne_true h.1)]
    cases hfile : st.currentFile with
    | none =>
      rw [needsRotate, hfile] at hrot
      cases hrot
    | some path =>
      rw [writeCurrent_eq hfile]
      exact .appended hrot hfile

theorem answer_eq_ok_iff (io : Io) (data : List UInt8) : answer io data = .ok () ↔ io.failsAt data = none := by
  unfold answer
  cases io.failsAt data <;> simp

/-- **What a write does** when files can be opened. -/
theorem write_spec {io : Io} (hio : io.Opens) (st : FileStorage) (dir : Dir) (data : List UInt8) :
    (st.write dir io data).1.currentFile = some (st.target data) ∧
    (st.write dir io data).2.1
      = Function.update dir (st.target data) (some (st.found dir data ++ io.persisted data)) ∧
    ((st.write dir io data).2.2 = .ok () ↔ io.failsAt data = none) := by
  have hwrote := st.write_wrote dir io data
  generalize st.write dir io data = r, st.createsOf io data = creates at hwrote ⊢
  unfold found target
  cases hwrote with
  | stuck _ hflush =>
    rw [flushCurrent_of_opens hio] at hflush
    cases hflush
  | stopped _ _ hcreate =>
    rw [hio.2] at hcreate
    cases hcreate
  | rotated hrot =>
    rw [if_pos hrot, if_pos hrot]
    exact ⟨rfl, rfl, answer_eq_ok_iff io data⟩
  | appended hrot hfile =>
    rw [hrot, hfile]
    exact ⟨rfl, rfl, answer_eq_ok_iff io data⟩

theorem flush_eq {io : Io} (hio : io.Opens) (st : FileStorage) : st.flush io = .ok () := by
  rw [flush, flushCurrent_of_opens hio]
  rfl

/-- The storage as the pipeline sees it, in a directory, when its `n`-th call meets the answers `io n`. -/
def storage (io : Nat → Io) : Storage (FileStorage × Dir × Nat) FileStorageError where
  write x data :=
    match x.1.write x.2.1 (io x.2.2) data with
    | (st, dir, res) => ((st, dir, x.2.2 + 1), res)
  flush x := ((x.1, x.2.1, x.2.2 + 1), x.1.flush (io x.2.2))

/-- **A storage whose system calls all succeed never fails.** -/
theorem storage_healthy {io : Nat → Io} (hio : ∀ n, (io n).Opens) (hwrite : ∀ n, (io n).writeError = none) :
    Healthy (storage io) := by
  constructor
  · intro x data
    have hnone : (io x.2.2).failsAt data = none := by
      rw [Io.failsAt, hwrite]
      rfl
    exact congrArg Except.isOk ((x.1.write_spec (hio _) x.2.1 data).2.2.2 hnone)
  · intro x
    exact congrArg Except.isOk (flush_eq (hio x.2.2) x.1)

end FileStorage

/-! ## Logs -/

/-- A write of an encoded record, with the answers it meets. -/
structure Attempt (c : Crates) where
  record : StoredRecord
  data : List UInt8
  encoded : encode c record maxStoredRecordBytes = .ok data
  io : Io

/-- A storage and its directory, with the records whose write returned `Ok`, each with the file it was written to. -/
structure Log where
  storage : FileStorage
  dir : Dir
  acked : List (FileName × StoredRecord)

namespace Log

variable {c : Crates}

def new (maxSegmentBytes : Nat) (dir : Dir) : Log := ⟨.new maxSegmentBytes, dir, []⟩

def attempt (x : Log) (a : Attempt c) : Log :=
  match x.storage.write x.dir a.io a.data with
  | (storage, dir, .ok _) => ⟨storage, dir, x.acked ++ storage.currentFile.toList.map (·, a.record)⟩
  | (storage, dir, .error _) => ⟨storage, dir, x.acked⟩

def run (x : Log) (attempts : List (Attempt c)) : Log := attempts.foldl attempt x

def contents (x : Log) (path : FileName) : List UInt8 := (x.dir path).getD []

def ackedIn (x : Log) (path : FileName) : List StoredRecord := (x.acked.filter (fun ack => ack.1 = path)).map (·.2)

/-- A new segment has a new name: nothing is acknowledged under it. -/
def Fresh (x : Log) (a : Attempt c) : Prop :=
  x.storage.needsRotate a.data = true → x.ackedIn (x.storage.target a.data) = []

/-- **A write that succeeds in the open segment** finds the bytes there ending at a delimiter, or none. -/
def Tidy (x : Log) (a : Attempt c) : Prop :=
  x.storage.needsRotate a.data = false → a.io.failsAt a.data = none →
    Split.opened 0 (x.contents (x.storage.target a.data)) = []

instance (x : Log) (a : Attempt c) : Decidable (x.Fresh a) := inferInstanceAs (Decidable (_ → _))

instance (x : Log) (a : Attempt c) : Decidable (x.Tidy a) := inferInstanceAs (Decidable (_ → _ → _))

/-- Every attempt of a run meets `P` where it is made. -/
def Always (P : Log → Attempt c → Prop) : Log → List (Attempt c) → Prop
  | _, [] => True
  | x, a :: attempts => P x a ∧ Always P (x.attempt a) attempts

instance decidableAlways {P : Log → Attempt c → Prop} [∀ x a, Decidable (P x a)] :
    ∀ (x : Log) (attempts : List (Attempt c)), Decidable (Always P x attempts)
  | _, [] => isTrue trivial
  | x, a :: attempts =>
    have := decidableAlways (P := P) (x.attempt a) attempts
    inferInstanceAs (Decidable (P x a ∧ Always P (x.attempt a) attempts))

/-- **Whatever is appended to a file later**, the records acknowledged in it are read from it, in order. -/
def Durable (c : Crates) (x : Log) : Prop :=
  ∀ path more, ((x.ackedIn path).map .ok).Sublist (readSegment c (x.contents path ++ more))

theorem attempt_spec (x : Log) {a : Attempt c} (hio : a.io.Opens) :
    (x.attempt a).dir = Function.update x.dir (x.storage.target a.data)
      (some (x.storage.found x.dir a.data ++ a.io.persisted a.data)) ∧
    (x.attempt a).acked
      = x.acked ++ if a.io.failsAt a.data = none then [(x.storage.target a.data, a.record)] else [] := by
  obtain ⟨hfile, hdir, hres⟩ := x.storage.write_spec hio x.dir a.data
  unfold attempt
  split
  · rename_i storage dir u hwrite
    rw [hwrite] at hfile hdir hres
    rw [if_pos (hres.1 rfl)]
    exact ⟨hdir, congrArg (fun f : Option FileName => x.acked ++ f.toList.map (·, a.record)) hfile⟩
  · rename_i storage dir e hwrite
    rw [hwrite] at hdir hres
    rw [if_neg (fun h => by cases hres.2 h), List.append_nil]
    exact ⟨hdir, rfl⟩

theorem contents_attempt (x : Log) {a : Attempt c} (hio : a.io.Opens) (path : FileName) :
    (x.attempt a).contents path
      = if path = x.storage.target a.data then x.storage.found x.dir a.data ++ a.io.persisted a.data
        else x.contents path := by
  unfold contents
  rw [(x.attempt_spec hio).1, Function.update_apply]
  split <;> rfl

theorem ackedIn_attempt (x : Log) {a : Attempt c} (hio : a.io.Opens) (path : FileName) :
    (x.attempt a).ackedIn path = x.ackedIn path
      ++ if path = x.storage.target a.data ∧ a.io.failsAt a.data = none then [a.record] else [] := by
  unfold ackedIn
  rw [(x.attempt_spec hio).2, List.filter_append, List.map_append]
  refine congrArg (_ ++ ·) ?_
  by_cases hok : a.io.failsAt a.data = none
  · rw [if_pos hok, List.filter_singleton]
    by_cases hpath : path = x.storage.target a.data
    · rw [if_pos ⟨hpath, hok⟩, hpath, decide_eq_true rfl]
      rfl
    · rw [if_neg (fun h => hpath h.1), decide_eq_false (Ne.symm hpath)]
      rfl
  · rw [if_neg hok, if_neg (fun h => hok h.2)]
    rfl

theorem sublist_readSegment (hc : c.Standard) {rs : List StoredRecord} {bytes more : List UInt8} {a : Attempt c}
    (hbytes : Split.opened 0 bytes = []) (hrs : (rs.map .ok).Sublist (readSegment c bytes))
    (hok : a.io.failsAt a.data = none) :
    ((rs ++ [a.record]).map .ok).Sublist (readSegment c (bytes ++ (a.io.persisted a.data ++ more))) := by
  have hdata : a.io.persisted a.data = image c a.record := by
    rw [Io.persisted, hok]
    exact Except.ok.inj (a.encoded.symm.trans (Record.encode_eq_ok hc a.record (by decide)))
  rw [hdata, readSegment_append hbytes, readSegment_image hc, List.map_append]
  exact hrs.append (List.Sublist.cons_cons _ (List.nil_sublist _))

/-- **What an attempt keeps.** -/
theorem Durable.attempt (hc : c.Standard) {x : Log} (h : x.Durable c) {a : Attempt c} (hio : a.io.Opens)
    (hfresh : x.Fresh a) (htidy : x.Tidy a) : (x.attempt a).Durable c := by
  intro path more
  rw [contents_attempt x hio, ackedIn_attempt x hio]
  by_cases hpath : path = x.storage.target a.data
  case neg =>
    rw [if_neg hpath, if_neg (fun h => hpath h.1), List.append_nil]
    exact h path more
  subst hpath
  rw [if_pos rfl, List.append_assoc]
  unfold FileStorage.found
  cases hrot : x.storage.needsRotate a.data with
  | true =>
    -- a new segment: nothing was acknowledged there
    rw [if_pos rfl, hfresh hrot]
    by_cases hok : a.io.failsAt a.data = none
    · rw [if_pos ⟨rfl, hok⟩]
      exact sublist_readSegment hc (Split.opened_nil 0) (List.nil_sublist _) hok
    · rw [if_neg (fun h => hok h.2)]
      exact List.nil_sublist _
  | false =>
    rw [if_neg Bool.false_ne_true]
    by_cases hok : a.io.failsAt a.data = none
    · rw [if_pos ⟨rfl, hok⟩]
      have hrs := h (x.storage.target a.data) []
      rw [List.append_nil] at hrs
      exact sublist_readSegment hc (htidy hrot hok) hrs hok
    · rw [if_neg (fun h => hok h.2), List.append_nil]
      exact h _ _

theorem durable_new (maxSegmentBytes : Nat) (dir : Dir) : (new maxSegmentBytes dir).Durable c :=
  fun _ _ => List.nil_sublist _

theorem Durable.run (hc : c.Standard) : ∀ {attempts : List (Attempt c)} {x : Log}, x.Durable c →
    (∀ a ∈ attempts, a.io.Opens) → Always Fresh x attempts → Always Tidy x attempts → (x.run attempts).Durable c
  | [], _, h, _, _, _ => h
  | a :: _, _, h, hio, hfresh, htidy =>
    (h.attempt hc (hio a List.mem_cons_self) hfresh.1 htidy.1).run hc (fun b hb => hio b (List.mem_cons_of_mem a hb))
      hfresh.2 htidy.2

/-! ## A name is given once -/

theorem segmentPath_injective : Function.Injective FileStorage.segmentPath := by
  intro i j h
  unfold FileStorage.segmentPath at h
  have hdigits := List.append_cancel_right h
  rw [List.append_assoc, List.append_assoc] at hdigits
  have hvalue := congrArg (fun digits => Nat.ofDigitChars 10 digits 0) (List.append_cancel_left hdigits)
  simp only [Nat.ofDigitChars_append, Nat.ofDigitChars_replicate_zero, Nat.mul_zero,
    Nat.ofDigitChars_ten_toDigits] at hvalue
  exact UInt32.toNat_inj.1 hvalue

theorem write_segmentIndex {io : Io} (hio : io.Opens) (st : FileStorage) (dir : Dir) (data : List UInt8) :
    (st.write dir io data).1.segmentIndex
      = if st.needsRotate data = true then st.segmentIndex + 1 else st.segmentIndex := by
  have hwrote := st.write_wrote dir io data
  generalize st.write dir io data = r, st.createsOf io data = creates at hwrote ⊢
  cases hwrote with
  | stuck _ hflush =>
    rw [FileStorage.flushCurrent_of_opens hio] at hflush
    cases hflush
  | stopped hrot => exact (if_pos hrot).symm
  | rotated hrot => exact (if_pos hrot).symm
  | appended hrot => rw [hrot, if_neg Bool.false_ne_true]

def Named (st : FileStorage) (path : FileName) : Prop :=
  ∃ i, i ≤ st.segmentIndex.toNat ∧ path = FileStorage.segmentPath (UInt32.ofNat i)

structure Numbered (x : Log) : Prop where
  current : ∀ path, x.storage.currentFile = some path → Named x.storage path
  acked : ∀ ack ∈ x.acked, Named x.storage ack.1

theorem attempt_storage (x : Log) (a : Attempt c) : (x.attempt a).storage = (x.storage.write x.dir a.io a.data).1 := by
  unfold attempt
  split
  · rename_i h
    rw [h]
  · rename_i h
    rw [h]

theorem segmentIndex_attempt (x : Log) {a : Attempt c} (hio : a.io.Opens)
    (hroom : x.storage.segmentIndex.toNat + 1 < 2 ^ 32) : (x.attempt a).storage.segmentIndex.toNat
      = x.storage.segmentIndex.toNat + if x.storage.needsRotate a.data = true then 1 else 0 := by
  rw [attempt_storage, write_segmentIndex hio]
  split
  · rw [UInt32.toNat_add]
    exact Nat.mod_eq_of_lt hroom
  · rfl

theorem Numbered.attempt {x : Log} (h : x.Numbered) {a : Attempt c} (hio : a.io.Opens)
    (hroom : x.storage.segmentIndex.toNat + 1 < 2 ^ 32) : (x.attempt a).Numbered := by
  have hindex := segmentIndex_attempt x hio hroom
  have hmono : ∀ {path}, Named x.storage path → Named (x.attempt a).storage path := by
    rintro path ⟨i, hi, rfl⟩
    exact ⟨i, hindex ▸ Nat.le_add_right_of_le hi, rfl⟩
  have htarget : Named (x.attempt a).storage (x.storage.target a.data) := by
    unfold FileStorage.target
    cases hrot : x.storage.needsRotate a.data with
    | true =>
      rw [hrot] at hindex
      refine ⟨x.storage.segmentIndex.toNat + 1, Nat.le_of_eq hindex.symm, ?_⟩
      rw [if_pos rfl, UInt32.ofNat_add, UInt32.ofNat_toNat]
      rfl
    | false =>
      rw [if_neg Bool.false_ne_true]
      cases hfile : x.storage.currentFile with
      | none =>
        rw [FileStorage.needsRotate, hfile] at hrot
        cases hrot
      | some path => exact hmono (h.current path hfile)
  constructor
  · intro path hpath
    rw [attempt_storage, (x.storage.write_spec hio x.dir a.data).1] at hpath
    exact Option.some.inj hpath ▸ htarget
  · intro ack hack
    rw [(x.attempt_spec hio).2] at hack
    rcases List.mem_append.1 hack with hack | hack
    · exact hmono (h.acked ack hack)
    · split at hack
      · rw [List.mem_singleton.1 hack]
        exact htarget
      · cases hack

theorem Numbered.fresh {x : Log} (h : x.Numbered) (a : Attempt c) (hroom : x.storage.segmentIndex.toNat + 1 < 2 ^ 32) :
    x.Fresh a := by
  intro hrot
  unfold ackedIn FileStorage.target
  rw [if_pos hrot, List.map_eq_nil_iff, List.filter_eq_nil_iff]
  intro ack hack heq
  obtain ⟨i, hi, hname⟩ := h.acked ack hack
  have hnew := segmentPath_injective (hname.symm.trans (of_decide_eq_true heq))
  have hvalue := congrArg UInt32.toNat hnew
  rw [UInt32.toNat_add, UInt32.toNat_ofNat', Nat.mod_eq_of_lt (by omega)] at hvalue
  have hone : (x.storage.segmentIndex.toNat + 1) % 2 ^ 32 = _ := Nat.mod_eq_of_lt hroom
  exact absurd (hvalue.trans hone) (by omega)

theorem always_fresh : ∀ {attempts : List (Attempt c)} {x : Log}, x.Numbered → (∀ a ∈ attempts, a.io.Opens) →
    x.storage.segmentIndex.toNat + attempts.length < 2 ^ 32 → Always Fresh x attempts
  | [], _, _, _, _ => trivial
  | a :: attempts, x, h, hio, hroom => by
    rw [List.length_cons] at hroom
    have hopens := hio a List.mem_cons_self
    have hindex := segmentIndex_attempt x hopens (by omega)
    refine ⟨h.fresh a (by omega), ?_⟩
    refine always_fresh (h.attempt hopens (by omega)) (fun b hb => hio b (List.mem_cons_of_mem a hb)) ?_
    rw [hindex]
    split <;> omega

theorem numbered_new (maxSegmentBytes : Nat) (dir : Dir) : (new maxSegmentBytes dir).Numbered :=
  ⟨fun path h => (by cases (h : none = some path)), fun _ h => absurd h List.not_mem_nil⟩

/-- **The names of a storage are new** until it has made 2^32 writes. -/
theorem fresh_of_few (maxSegmentBytes : Nat) (dir : Dir) {attempts : List (Attempt c)}
    (hio : ∀ a ∈ attempts, a.io.Opens) (hfew : attempts.length < 2 ^ 32) :
    Always Fresh (new maxSegmentBytes dir) attempts :=
  always_fresh (numbered_new maxSegmentBytes dir) hio (Nat.lt_of_le_of_lt (Nat.le_of_eq (Nat.zero_add _)) hfew)

/-! ## What survives -/

/-- **An acknowledged record survives its neighbours' failed writes** in a run of fresh and tidy attempts: every record
whose write returned `Ok` is read from the segment it was written to, and those of one segment are read in order. -/
theorem acknowledged_survive (hc : c.Standard) (maxSegmentBytes : Nat) (dir : Dir) {attempts : List (Attempt c)}
    (hio : ∀ a ∈ attempts, a.io.Opens) (hfresh : Always Fresh (new maxSegmentBytes dir) attempts)
    (htidy : Always Tidy (new maxSegmentBytes dir) attempts) :
    let x := (new maxSegmentBytes dir).run attempts
    (∀ ack ∈ x.acked, .ok ack.2 ∈ readSegment c (x.contents ack.1)) ∧
    ∀ path, ((x.ackedIn path).map .ok).Sublist (readSegment c (x.contents path)) := by
  intro x
  have hread : ∀ path, ((x.ackedIn path).map .ok).Sublist (readSegment c (x.contents path)) := by
    intro path
    have h := (durable_new maxSegmentBytes dir).run hc hio hfresh htidy path []
    rwa [List.append_nil] at h
  refine ⟨?_, hread⟩
  intro ack hack
  refine (hread ack.1).subset (List.mem_map_of_mem ?_)
  exact List.mem_map.2 ⟨ack, List.mem_filter.2 ⟨hack, decide_eq_true rfl⟩, rfl⟩

end Log

/-- Two records, and a `write_all` that persists four bytes of its data, or none, before it fails. -/
def firstRecord : StoredRecord := .v1 ⟨5, 7, 2, 1, ⟨[1, 0, 2], by decide⟩⟩

def secondRecord : StoredRecord := .v1 ⟨9, 8, 1, 1, ⟨[], by decide⟩⟩

def healthyIo : Io := ⟨.ok (), .ok (), none⟩

def failingIo (kept : Nat) : Io := ⟨.ok (), .ok (), some (kept, .os 28)⟩

def attemptOf (r : StoredRecord) (io : Io) : Attempt Crates.documented :=
  ⟨r, image Crates.documented r, Record.encode_eq_ok Crates.documented_standard r (by decide), io⟩

theorem acknowledged_survive_run :
    let x := (Log.new 29 (fun _ => none)).run [attemptOf firstRecord healthyIo, attemptOf secondRecord (failingIo 0),
      attemptOf secondRecord (failingIo 4), attemptOf firstRecord healthyIo, attemptOf secondRecord healthyIo]
    ∀ ack ∈ x.acked, .ok ack.2 ∈ readSegment Crates.documented (x.contents ack.1) :=
  (Log.acknowledged_survive Crates.documented_standard 29 (fun _ => none) (by decide) (by decide +kernel)
    (by decide +kernel)).1

/-- The record behind the rest of a failed write is lost, though its write returned `Ok`. -/
theorem acknowledged_record_lost :
    let x := (Log.new 1000 (fun _ => none)).run [attemptOf firstRecord (failingIo 4), attemptOf secondRecord healthyIo]
    (∀ io ∈ [failingIo 4, healthyIo], io.Opens) ∧
    x.acked = [(FileStorage.segmentPath 1, secondRecord)] ∧
    .ok secondRecord ∉ readSegment Crates.documented (x.contents (FileStorage.segmentPath 1)) := by
  decide +kernel

end Telemetry
