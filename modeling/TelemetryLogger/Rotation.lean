import TelemetryLogger.Session
import TelemetryLogger.Lib.Overwrite
import TelemetryLogger.Lib.Pack
/-!
# Rotation — what is in the segment files

Without I/O errors the segment files of a session hold its writes, packed in order (`holds_after`): a write is never
split, a file is closed only by a write that would not fit, and reading the files in index order gives back the records.
This lasts as long as the `u32` index does (`rotation_iff`).
-/
namespace Telemetry

open FileStorage (Wrote counted segmentPath)
open Overwrite (overwrite overwrite_concat overwrite_last)
open Record (encode image)

def Io.Succeeds (io : Io) : Prop := io.Opens ∧ io.writeError = none

theorem Io.Succeeds.failsAt {io : Io} (h : io.Succeeds) (data : List UInt8) : io.failsAt data = none := by
  rw [Io.failsAt, h.2]
  rfl

theorem Io.Succeeds.persisted {io : Io} (h : io.Succeeds) (data : List UInt8) : io.persisted data = data := by
  rw [Io.persisted, h.failsAt]

theorem Io.Succeeds.counted {io : Io} (h : io.Succeeds) (data : List UInt8) : counted io data = data.length :=
  if_pos (h.failsAt data)

def Request.data : Request → Option (List UInt8)
  | .write data => some data
  | .flush => none

/-- The writes of a run. -/
def written (requests : List (Request × Io)) : List (List UInt8) := requests.filterMap (fun q => q.1.data)

namespace Session

/-- The files 1 to `segment_count()`. -/
def files (x : Session) : List (List UInt8) :=
  (List.range x.storage.segmentCount.toNat).map (fun i => x.contents (segmentPath (UInt32.ofNat (i + 1))))

/-! ## A write that succeeds -/

theorem step_of_rotate (x : Session) {io : Io} (hio : io.Succeeds) {data : List UInt8}
    (hrot : x.storage.needsRotate data = true) : (step x (.write data, io)).1 = ⟨{ x.storage with
      currentFile := some (segmentPath (x.storage.segmentIndex + 1))
      segmentIndex := x.storage.segmentIndex + 1
      currentSize := data.length },
      Function.update x.dir (segmentPath (x.storage.segmentIndex + 1)) (some data),
      x.creates ++ [(x.storage.segmentIndex + 1, true)]⟩ := by
  have hwrote := x.storage.write_wrote x.dir io data
  show (⟨(x.storage.write x.dir io data).1, (x.storage.write x.dir io data).2.1, _⟩ : Session) = _
  generalize x.storage.write x.dir io data = r, x.storage.createsOf io data = creates at hwrote ⊢
  cases hwrote with
  | stuck _ hflush =>
    rw [FileStorage.flushCurrent_of_opens hio.1] at hflush
    cases hflush
  | stopped _ _ hcreate =>
    rw [hio.1.2] at hcreate
    cases hcreate
  | rotated => rw [hio.persisted, hio.counted]
  | appended hnot =>
    rw [hrot] at hnot
    cases hnot

theorem step_of_append (x : Session) {io : Io} (hio : io.Succeeds) {data : List UInt8}
    (hrot : x.storage.needsRotate data = false) {path : FileName} (hfile : x.storage.currentFile = some path) :
    (step x (.write data, io)).1 = ⟨{ x.storage with currentSize := x.storage.currentSize + data.length },
      Function.update x.dir path (some (x.contents path ++ data)), x.creates⟩ := by
  have hwrote := x.storage.write_wrote x.dir io data
  show (⟨(x.storage.write x.dir io data).1, (x.storage.write x.dir io data).2.1, _⟩ : Session) = _
  generalize x.storage.write x.dir io data = r, x.storage.createsOf io data = creates at hwrote ⊢
  cases hwrote with
  | appended _ hfile' =>
    obtain rfl := Option.some.inj (hfile.symm.trans hfile')
    rw [hio.persisted, hio.counted, List.append_nil]
    rfl
  | stuck hyes => rw [hrot] at hyes; cases hyes
  | stopped hyes => rw [hrot] at hyes; cases hyes
  | rotated hyes => rw [hrot] at hyes; cases hyes

/-! ## The last pack is open -/

theorem load_length (p : List (List UInt8)) : Pack.load List.length p = p.flatten.length := List.length_flatten.symm

/-- **The session packs its writes**: the open file is the last pack, whatever its name. -/
structure Packing (M : Nat) (packs : List (List (List UInt8))) (x : Session) : Prop where
  limit : x.storage.maxSegmentBytes = M
  opened : x.storage.currentFile.isSome = packs.getLast?.isSome
  size : x.storage.currentSize = (packs.getLast?.getD []).flatten.length
  creates : x.creates.length = packs.length

theorem Packing.needsRotate_eq_true {M : Nat} {packs : List (List (List UInt8))} {x : Session} (h : x.Packing M packs)
    {data : List UInt8} (hfull : ∀ p ∈ packs.getLast?, M < Pack.load List.length p + data.length) :
    x.storage.needsRotate data = true := by
  have hopened := h.opened
  unfold FileStorage.needsRotate
  rw [h.size, h.limit]
  cases hlast : packs.getLast? with
  | none =>
    rw [hlast, Option.isSome_none, Option.isSome_eq_false_iff] at hopened
    rw [hopened, Bool.true_or]
  | some p =>
    have hfull := hfull p hlast
    rw [load_length] at hfull
    rw [Option.getD_some, Bool.or_eq_true, decide_eq_true_iff]
    exact Or.inr hfull

theorem Packing.needsRotate_eq_false {M : Nat} {init : List (List (List UInt8))} {p : List (List UInt8)} {x : Session}
    (h : x.Packing M (init ++ [p])) {data : List UInt8} (hfit : Pack.load List.length p + data.length ≤ M) :
    x.storage.needsRotate data = false ∧ ∃ path, x.storage.currentFile = some path := by
  have hopened := h.opened
  have hsize := h.size
  rw [List.getLast?_concat] at hopened hsize
  rw [load_length] at hfit
  obtain ⟨path, hpath⟩ := Option.isSome_iff_exists.1 hopened
  refine ⟨?_, path, hpath⟩
  unfold FileStorage.needsRotate
  rw [hpath, hsize, h.limit]
  simpa using hfit

/-- **A write is packed.** -/
theorem Packing.write {M : Nat} {packs : List (List (List UInt8))} {x : Session} (h : x.Packing M packs) {io : Io}
    (hio : io.Succeeds) (data : List UInt8) :
    (step x (.write data, io)).1.Packing M (Pack.place List.length M packs data) := by
  rcases Pack.place_cases List.length M packs data with ⟨hplace, hlast⟩ | ⟨init, p, rfl, hfit, hplace⟩
  · rw [hplace, step_of_rotate x hio (h.needsRotate_eq_true hlast)]
    refine ⟨h.limit, ?_, ?_, ?_⟩
    · rw [List.getLast?_concat]
      rfl
    · rw [List.getLast?_concat]
      simp
    · rw [List.length_append, List.length_append, h.creates]
      rfl
  · obtain ⟨hrot, path, hpath⟩ := h.needsRotate_eq_false hfit
    have hsize := h.size
    rw [List.getLast?_concat] at hsize
    rw [hplace, step_of_append x hio hrot hpath]
    refine ⟨h.limit, ?_, ?_, ?_⟩
    · rw [List.getLast?_concat, hpath]
      rfl
    · rw [List.getLast?_concat]
      simp [hsize]
    · rw [h.creates, List.length_append, List.length_append]
      rfl

theorem written_snoc (requests : List (Request × Io)) (q : Request × Io) :
    written (requests ++ [q]) = written requests ++ q.1.data.toList := by
  rw [written, List.filterMap_append, ← written]
  cases h : q.1.data <;> simp [h]

/-- **Induction along a run without I/O errors**, on its writes. -/
theorem after_induction {P : List (List UInt8) → Session → Prop} {M : Nat} {dir : Dir} (hnew : P [] (new M dir))
    (hwrite : ∀ (ds : List (List UInt8)) (x : Session) (io : Io) (data : List UInt8), io.Succeeds → P ds x →
      P (ds ++ [data]) (step x (.write data, io)).1)
    (requests : List (Request × Io)) : (∀ q ∈ requests, q.2.Succeeds) →
    P (written requests) ((new M dir).after requests) := by
  induction requests using List.reverseRecOn with
  | nil => exact fun _ => hnew
  | append_singleton requests q ih =>
    intro hok
    have ih := ih (fun q hq => hok q (List.mem_append_left _ hq))
    have hio := hok q (List.mem_append_right requests (List.mem_singleton_self q))
    obtain ⟨request, io⟩ := q
    rw [after_snoc, written_snoc]
    cases request with
    | flush => rwa [show Request.flush.data.toList = ([] : List (List UInt8)) from rfl, List.append_nil]
    | write data => exact hwrite _ _ io data hio ih

/-- **A file is created for every pack**, whether or not the index lasts. -/
theorem packing_after (M : Nat) (dir : Dir) (requests : List (Request × Io)) : (∀ q ∈ requests, q.2.Succeeds) →
    ((new M dir).after requests).Packing M (Pack.pack List.length M (written requests)) := by
  apply after_induction (P := fun ds x => x.Packing M (Pack.pack List.length M ds))
  · exact ⟨rfl, rfl, rfl, rfl⟩
  · intro ds x io data hio h
    rw [Pack.pack_snoc]
    exact h.write hio data

/-! ## The directory after a run -/

/-- A segment of a run: the number in its name, and its writes. -/
structure Segment where
  number : UInt32
  writes : List (List UInt8)

  deriving DecidableEq

namespace Segment

def path (s : Segment) : FileName := segmentPath s.number

def bytes (s : Segment) : List UInt8 := s.writes.flatten

end Segment

/-- The directory, with these segments written to it. -/
def layOut (dir : Dir) (segments : List Segment) : Dir := overwrite Segment.path (fun s => some s.bytes) dir segments

/-- Packs are numbered as the index counts: from 1, and modulo 2^32. -/
def numberFrom (k : Nat) : List (List (List UInt8)) → List Segment
  | [] => []
  | p :: packs => ⟨UInt32.ofNat (k + 1), p⟩ :: numberFrom (k + 1) packs

theorem numberFrom_append : ∀ (k : Nat) (ps qs : List (List (List UInt8))),
    numberFrom k (ps ++ qs) = numberFrom k ps ++ numberFrom (k + ps.length) qs
  | _, [], _ => rfl
  | k, p :: ps, qs => by
    rw [List.cons_append, numberFrom, numberFrom_append (k + 1) ps qs, List.length_cons, Nat.add_assoc,
      Nat.add_comm 1 ps.length]
    rfl

theorem number_of_mem : ∀ {k : Nat} {packs : List (List (List UInt8))} {s : Segment}, s ∈ numberFrom k packs →
    ∃ i, k < i ∧ i ≤ k + packs.length ∧ s.number = UInt32.ofNat i
  | k, p :: packs, s, h => by
    rw [List.length_cons]
    rcases List.mem_cons.1 h with rfl | h
    · exact ⟨k + 1, Nat.lt_succ_self k, by omega, rfl⟩
    · obtain ⟨i, hlt, hle, hs⟩ := number_of_mem h
      exact ⟨i, by omega, by omega, hs⟩

/-- **The session has overwritten the directory with its packs**, each under its number. -/
structure Laid (M : Nat) (dir : Dir) (packs : List (List (List UInt8))) (x : Session) : Prop where
  packing : x.Packing M packs
  index : x.storage.segmentIndex = UInt32.ofNat packs.length
  current : x.storage.currentFile = packs.getLast?.map (fun _ => segmentPath x.storage.segmentIndex)
  dir : x.dir = layOut dir (numberFrom 0 packs)

theorem layOut_concat (dir : Dir) (packs : List (List (List UInt8))) (p : List (List UInt8)) :
    layOut dir (numberFrom 0 (packs ++ [p])) = Function.update (layOut dir (numberFrom 0 packs))
      (segmentPath (UInt32.ofNat (packs.length + 1))) (some p.flatten) := by
  rw [numberFrom_append, Nat.zero_add]
  exact overwrite_concat Segment.path _ dir _ _

theorem Laid.write {M : Nat} {dir : Dir} {packs : List (List (List UInt8))} {x : Session} (h : x.Laid M dir packs)
    {io : Io} (hio : io.Succeeds) (data : List UInt8) :
    (step x (.write data, io)).1.Laid M dir (Pack.place List.length M packs data) := by
  have hpacking := h.packing.write hio data
  rcases Pack.place_cases List.length M packs data with ⟨hplace, hlast⟩ | ⟨init, p, rfl, hfit, hplace⟩
  · -- the next file
    rw [hplace] at hpacking ⊢
    rw [step_of_rotate x hio (h.packing.needsRotate_eq_true hlast)] at hpacking ⊢
    have hnext : x.storage.segmentIndex + 1 = UInt32.ofNat (packs.length + 1) := by
      rw [h.index, UInt32.ofNat_add]
      rfl
    refine ⟨hpacking, ?_, ?_, ?_⟩
    · rw [List.length_append]
      exact hnext
    · rw [List.getLast?_concat]
      rfl
    · rw [layOut_concat, ← h.dir, ← hnext]
      simp
  · -- the open file
    obtain ⟨hrot, -⟩ := h.packing.needsRotate_eq_false hfit
    obtain ⟨-, hindex, hcurrent, hdir⟩ := h
    rw [List.getLast?_concat] at hcurrent
    rw [List.length_append, List.length_singleton] at hindex
    rw [layOut_concat, ← hindex] at hdir
    rw [hplace] at hpacking ⊢
    rw [step_of_append x hio hrot hcurrent] at hpacking ⊢
    refine ⟨hpacking, ?_, ?_, ?_⟩
    · rw [List.length_append]
      exact hindex
    · rw [List.getLast?_concat]
      exact hcurrent
    · rw [layOut_concat, ← hindex, contents, hdir, Function.update_self, Function.update_idem]
      simp

/-- **Without I/O errors a session overwrites the directory with its packs**, one file after the other. -/
theorem laid_after (M : Nat) (dir : Dir) (requests : List (Request × Io)) : (∀ q ∈ requests, q.2.Succeeds) →
    ((new M dir).after requests).Laid M dir (Pack.pack List.length M (written requests)) := by
  apply after_induction (P := fun ds x => x.Laid M dir (Pack.pack List.length M ds))
  · exact ⟨⟨rfl, rfl, rfl, rfl⟩, rfl, rfl, rfl⟩
  · intro ds x io data hio h
    rw [Pack.pack_snoc]
    exact h.write hio data

/-! ## The files hold the packs -/

/-- **The session's files hold these packs of writes**, under their numbers. -/
structure Holds (M : Nat) (packs : List (List (List UInt8))) (x : Session) : Prop where
  packing : x.Packing M packs
  index : x.storage.segmentIndex.toNat = packs.length
  current : x.storage.currentFile = packs.getLast?.map (fun _ => segmentPath x.storage.segmentIndex)
  contents : ∀ i p, packs[i]? = some p → x.contents (segmentPath (UInt32.ofNat (i + 1))) = p.flatten

theorem segmentPath_ne {i j : Nat} (hi : i < 2 ^ 32) (hj : j < 2 ^ 32) (h : i ≠ j) :
    segmentPath (UInt32.ofNat i) ≠ segmentPath (UInt32.ofNat j) := by
  intro heq
  have hvalue := congrArg UInt32.toNat (Log.segmentPath_injective heq)
  rw [UInt32.toNat_ofNat_of_lt' hi, UInt32.toNat_ofNat_of_lt' hj] at hvalue
  exact h hvalue

/-- **While the index lasts no pack overwrites another.** -/
theorem Laid.holds {M : Nat} {dir : Dir} {packs : List (List (List UInt8))} {x : Session} (h : x.Laid M dir packs)
    (hroom : packs.length < 2 ^ 32) : x.Holds M packs := by
  refine ⟨h.packing, ?_, h.current, ?_⟩
  · rw [h.index, UInt32.toNat_ofNat_of_lt' hroom]
  · intro i p hp
    obtain ⟨hi, rfl⟩ := List.getElem?_eq_some_iff.1 hp
    have hsplit : packs = packs.take i ++ packs[i] :: packs.drop (i + 1) := by
      rw [← List.drop_eq_getElem_cons hi, List.take_append_drop]
    have hlen : (packs.take i).length = i := List.length_take_of_le (Nat.le_of_lt hi)
    have hrest : (packs.drop (i + 1)).length = packs.length - (i + 1) := List.length_drop
    rw [contents, h.dir]
    conv_lhs => rw [hsplit, numberFrom_append, hlen, Nat.zero_add, numberFrom]
    have hlater : ∀ s ∈ numberFrom (i + 1) (packs.drop (i + 1)), s.path ≠ segmentPath (UInt32.ofNat (i + 1)) := by
      intro s hs
      obtain ⟨j, hlt, hle, hnumber⟩ := number_of_mem hs
      rw [Segment.path, hnumber]
      exact segmentPath_ne (by omega) (by omega) (by omega)
    exact congrArg (·.getD []) (overwrite_last dir _ (⟨UInt32.ofNat (i + 1), packs[i]⟩ : Segment) hlater)

/-- **Without I/O errors the files hold the writes packed in order**, while the index lasts. -/
theorem holds_after (M : Nat) (dir : Dir) (requests : List (Request × Io)) (hok : ∀ q ∈ requests, q.2.Succeeds)
    (hroom : (Pack.pack List.length M (written requests)).length < 2 ^ 32) :
    ((new M dir).after requests).Holds M (Pack.pack List.length M (written requests)) :=
  (laid_after M dir requests hok).holds hroom

theorem Holds.files_eq {M : Nat} {packs : List (List (List UInt8))} {x : Session} (h : x.Holds M packs) :
    x.files = packs.map List.flatten := by
  have hcount : x.storage.segmentCount.toNat = packs.length := h.index
  apply List.ext_getElem?
  intro i
  rw [files, hcount, List.getElem?_map, List.getElem?_map]
  by_cases hi : i < packs.length
  · rw [List.getElem?_range hi, List.getElem?_eq_getElem hi]
    exact congrArg some (h.contents i _ (List.getElem?_eq_getElem hi))
  · rw [List.getElem?_eq_none (by simpa using hi), List.getElem?_eq_none (by simpa using hi)]
    rfl

/-! ## Rotation -/

/-- **The files are the writes, whole, in order and packed**: one pack a file, and the size is that of the last. -/
structure Rotated (M : Nat) (ds : List (List UInt8)) (x : Session) : Prop where
  concatenated : x.files.flatten = ds.flatten
  packed : ∃ packs, packs.flatten = ds ∧ x.files = packs.map List.flatten ∧ Pack.Packed List.length M packs
  size : x.storage.currentSize = (x.files.getLast?.getD []).length

theorem Holds.rotated {M : Nat} {packs : List (List (List UInt8))} {x : Session} (h : x.Holds M packs)
    (hpacked : Pack.Packed List.length M packs) : x.Rotated M packs.flatten := by
  refine ⟨?_, ⟨packs, rfl, h.files_eq, hpacked⟩, ?_⟩
  · rw [h.files_eq, List.flatten_flatten]
  · rw [h.files_eq, h.packing.size, List.getLast?_map]
    cases packs.getLast? <;> rfl

/-- **Packed files are numbered by a `u32`.** -/
theorem Rotated.few {M : Nat} {ds : List (List UInt8)} {x : Session} (h : x.Rotated M ds) :
    (Pack.pack List.length M ds).length < 2 ^ 32 := by
  obtain ⟨packs, rfl, hfiles, hpacked⟩ := h.packed
  have hlen := congrArg List.length hfiles
  rw [files, List.length_map, List.length_map, List.length_range] at hlen
  rw [Pack.pack_flatten_of_packed hpacked, ← hlen]
  exact x.storage.segmentCount.toNat_lt

theorem flatMap_readSegment {c : Crates} (hc : c.Standard) : ∀ {packs : List (List (List UInt8))}
    {rs : List StoredRecord}, packs.flatten = rs.map (image c) →
    (packs.map List.flatten).flatMap (readSegment c) = rs.map .ok
  | [], rs, h => by
    obtain rfl : rs = [] := List.map_eq_nil_iff.1 h.symm
    rfl
  | p :: packs, rs, h => by
    obtain ⟨rs₁, rs₂, rfl, rfl, hrest⟩ := List.map_eq_append_iff.1 h.symm
    rw [List.map_cons, List.flatMap_cons, flatMap_readSegment hc hrest.symm, ← List.flatMap_def,
      readSegment_records hc, List.map_append]

/-- **Encoded records are read back in order** from the files that hold them. -/
theorem flatMap_files {c : Crates} (hc : c.Standard) (M : Nat) (dir : Dir) {requests : List (Request × Io)}
    (hok : ∀ q ∈ requests, q.2.Succeeds) (hfew : (Pack.pack List.length M (written requests)).length < 2 ^ 32)
    {rs : List StoredRecord} (hrs : rs.mapM (fun r => encode c r maxStoredRecordBytes) = .ok (written requests)) :
    ((new M dir).after requests).files.flatMap (readSegment c) = rs.map .ok := by
  rw [mapM_eq_pure (fun r => Record.encode_eq_ok hc r (by decide : 507 ≤ maxStoredRecordBytes))] at hrs
  rw [(holds_after M dir requests hok hfew).files_eq]
  apply flatMap_readSegment hc
  rw [Pack.flatten_pack]
  exact (Except.ok.inj hrs).symm

/-- **Segment rotation.**  After a run without I/O errors: the files 1 to `segment_count()` are the writes, in order and
whole, each file at most `M` bytes or one longer write, and closed only by a write that did not fit; `current_size` is
the length of the last file; and if the writes are encoded records, they are read back in order.  This holds if and only
if the writes pack into fewer files than a `u32` counts. -/
theorem rotation_iff {c : Crates} (hc : c.Standard) (M : Nat) (dir : Dir) {requests : List (Request × Io)}
    (hok : ∀ q ∈ requests, q.2.Succeeds) :
    let x := (new M dir).after requests
    (x.Rotated M (written requests) ∧
      ∀ rs : List StoredRecord, rs.mapM (fun r => encode c r maxStoredRecordBytes) = .ok (written requests) →
        x.files.flatMap (readSegment c) = rs.map .ok) ↔
    (Pack.pack List.length M (written requests)).length < 2 ^ 32 := by
  intro x
  constructor
  · exact fun h => h.1.few
  · intro hfew
    have hholds := holds_after M dir requests hok hfew
    constructor
    · have hrotated := hholds.rotated (Pack.packed_pack (written requests))
      rwa [Pack.flatten_pack] at hrotated
    · exact fun rs hrs => flatMap_files hc M dir hok hfew hrs

theorem rotation_run :
    let requests : List (Request × Io) := [(.write (image Crates.documented firstRecord), healthyIo),
      (.flush, healthyIo), (.write (image Crates.documented secondRecord), healthyIo)]
    let x := (new 20 (fun _ => none)).after requests
    x.Rotated 20 (written requests) ∧ ∀ rs : List StoredRecord,
      rs.mapM (fun r => encode Crates.documented r maxStoredRecordBytes) = .ok (written requests) →
        x.files.flatMap (readSegment Crates.documented) = rs.map .ok := by
  intro requests
  have hok : ∀ q ∈ requests, q.2.Succeeds := by
    intro q hq
    simp only [requests, List.mem_cons, List.not_mem_nil, or_false] at hq
    rcases hq with rfl | rfl | rfl <;> exact ⟨⟨rfl, rfl⟩, rfl⟩
  exact (rotation_iff Crates.documented_standard 20 (fun _ => none) hok).2 (by decide +kernel)

/-- `n` writes of one byte each, none of which fits. -/
def oversized (n : Nat) : List (Request × Io) := List.replicate n (.write [1], healthyIo)

theorem oversized_succeeds (n : Nat) : ∀ q ∈ oversized n, q.2.Succeeds := by
  intro q hq
  rw [(List.mem_replicate.1 hq).2]
  exact ⟨⟨rfl, rfl⟩, rfl⟩

theorem written_oversized (n : Nat) : written (oversized n) = List.replicate n [1] := by
  rw [written, oversized, List.filterMap_replicate_of_some (f := fun q : Request × Io => q.1.data) rfl]

theorem segmentCount_oversized (n : Nat) (dir : Dir) :
    ((new 0 dir).after (oversized n)).storage.segmentCount = UInt32.ofNat n := by
  have hlen := (packing_after 0 dir (oversized n) (oversized_succeeds n)).creates
  rw [written_oversized, Pack.pack_of_heavy (fun d hd => by rw [(List.mem_replicate.1 hd).2]; exact Nat.one_pos),
    List.length_map, List.length_replicate] at hlen
  rw [FileStorage.segmentCount, (numbered_after 0 dir (oversized n)).index, hlen]

theorem oversized_wraps {n : Nat} (hn : n ≠ 0) (hwrap : UInt32.ofNat n = 0) (dir : Dir) :
    ((new 0 dir).after (oversized n)).storage.segmentCount = 0 ∧
      ((new 0 dir).after (oversized n)).files.flatten ≠ (written (oversized n)).flatten := by
  have hcount := (segmentCount_oversized n dir).trans hwrap
  refine ⟨hcount, ?_⟩
  intro h
  rw [files, hcount, written_oversized] at h
  have hone := List.flatten_eq_nil_iff.1 h.symm [1] (List.mem_replicate.2 ⟨hn, rfl⟩)
  cases hone

/-- After 2^32 files the index is back at 0, and no file is counted. -/
theorem rotation_wraps : ((new 0 (fun _ => none)).after (oversized (2 ^ 32))).storage.segmentCount = 0 ∧
    ((new 0 (fun _ => none)).after (oversized (2 ^ 32))).files.flatten ≠ (written (oversized (2 ^ 32))).flatten :=
  oversized_wraps (by decide) (by decide) _

end Session

end Telemetry
