import TelemetryLogger.FileStorage
/-!
# Session — runs of one file storage, with every failure it can meet

A session is a run of writes and flushes with the answers they meet and the calls of `File::create` so far.  Its
bookkeeping is right in every state exactly when every step is `Clean` (`bookkeeping_iff`).
-/
namespace Telemetry

namespace FileStorage

def segmentCount (st : FileStorage) : UInt32 := st.segmentIndex

def currentPath (st : FileStorage) : Option FileName :=
  if st.segmentIndex = 0 then none else some (segmentPath st.segmentIndex)

/-- `write` counts what `write_all` persisted, unless some of it was persisted before an error. -/
theorem counted_eq_iff (io : Io) (data : List UInt8) :
    counted io data = (io.persisted data).length ↔ ∀ f ∈ io.failsAt data, f.1 = 0 := by
  unfold counted Io.persisted
  cases h : io.failsAt data with
  | none => simp
  | some f =>
    have hkept : f.1 < data.length := by simpa using (Option.filter_eq_some_iff.1 h).2
    rw [if_neg (Option.some_ne_none f), List.length_take, Nat.min_eq_left (Nat.le_of_lt hkept)]
    simp [eq_comm]

/-- **A clean write**: a rotation that gets past the flush creates its file, under an index that has not come round; and
a `write_all` that fails has persisted nothing. -/
def CleanWrite (st : FileStorage) (io : Io) (data : List UInt8) : Prop :=
  (st.needsRotate data = true → st.flushCurrent io = .ok () →
    io.create = .ok () ∧ st.segmentIndex.toNat + 1 < 2 ^ 32) ∧
  ((st.needsRotate data = true → st.flushCurrent io = .ok ()) → ∀ f ∈ io.failsAt data, f.1 = 0)

/-- The write fails because rotation does. -/
def RotationFails (st : FileStorage) (dir : Dir) (io : Io) (data : List UInt8) : Prop :=
  st.needsRotate data = true ∧ (st.openNextSegment dir io).2.2 ≠ .ok ()

end FileStorage

/-! ## Runs -/

inductive Request
  | write (data : List UInt8)
  | flush

/-- A storage in its directory, with the calls of `File::create` it has made. -/
structure Session where
  storage : FileStorage
  dir : Dir
  creates : List (UInt32 × Bool)

namespace Session

open FileStorage (Wrote counted counted_eq_iff segmentPath)

def new (maxSegmentBytes : Nat) (dir : Dir) : Session := ⟨.new maxSegmentBytes, dir, []⟩

def step (x : Session) : Request × Io → Session × Except FileStorageError Unit
  | (.write data, io) =>
    match x.storage.write x.dir io data with
    | (storage, dir, res) => (⟨storage, dir, x.creates ++ x.storage.createsOf io data⟩, res)
  | (.flush, io) => (x, x.storage.flush io)

def after (x : Session) (requests : List (Request × Io)) : Session := (Machine.run step x requests).1

/-- The indices of the files created, in order. -/
def created (x : Session) : List UInt32 := (x.creates.filter (·.2)).map (·.1)

def contents (x : Session) (path : FileName) : List UInt8 := (x.dir path).getD []

theorem after_snoc (x : Session) (requests : List (Request × Io)) (q : Request × Io) :
    x.after (requests ++ [q]) = (step (x.after requests) q).1 := Machine.run_snoc_fst _ _ _ _

/-- **An invariant of the writes is an invariant of the run.** -/
theorem after_invariant {I : Session → Prop} (hwrite : ∀ (x : Session) (io : Io) (data : List UInt8)
      (r : FileStorage × Dir × Except FileStorageError Unit) (creates : List (UInt32 × Bool)), I x →
      Wrote x.storage x.dir io data r creates → I ⟨r.1, r.2.1, x.creates ++ creates⟩)
    (requests : List (Request × Io)) {x : Session} (hx : I x) : I (x.after requests) := by
  apply Machine.run_invariant step _ requests x hx
  rintro x ⟨request, io⟩ hx
  cases request with
  | flush => exact hx
  | write data => exact hwrite x io data _ _ hx (x.storage.write_wrote x.dir io data)

/-- **The index counts the calls of `File::create`**, those that failed too, and numbers them. -/
structure Numbered (x : Session) : Prop where
  index : x.storage.segmentIndex = UInt32.ofNat x.creates.length
  creates : x.creates.map (·.1) = (List.range x.creates.length).map (fun n => UInt32.ofNat (n + 1))

theorem Numbered.create {x : Session} (h : x.Numbered) {storage : FileStorage}
    (hstorage : storage.segmentIndex = x.storage.segmentIndex + 1) (dir : Dir) (ok : Bool) :
    (⟨storage, dir, x.creates ++ [(x.storage.segmentIndex + 1, ok)]⟩ : Session).Numbered := by
  have hindex : x.storage.segmentIndex + 1 = UInt32.ofNat (x.creates.length + 1) := by
    rw [h.index, UInt32.ofNat_add]
    rfl
  constructor
  · rw [List.length_append, hstorage, hindex]
    rfl
  · rw [List.length_append, List.length_singleton, List.range_succ, List.map_append, List.map_append, h.creates, hindex]
    rfl

theorem numbered_after (maxSegmentBytes : Nat) (dir : Dir) (requests : List (Request × Io)) :
    ((new maxSegmentBytes dir).after requests).Numbered := by
  apply after_invariant (I := Numbered) _ requests ⟨rfl, rfl⟩
  intro x io data r creates hx hwrote
  cases hwrote with
  | stuck => rwa [List.append_nil]
  | stopped => exact hx.create rfl _ _
  | rotated => exact hx.create rfl _ _
  | appended =>
    rw [List.append_nil]
    exact ⟨hx.index, hx.creates⟩

/-! ## Bookkeeping -/

/-- **The bookkeeping is right**: the files are counted, the path is that of the open file, the size is its length. -/
structure Accurate (x : Session) : Prop where
  count : x.storage.segmentCount.toNat = x.created.length
  path : x.storage.currentPath = x.storage.currentFile
  size : ∀ path ∈ x.storage.currentFile, x.storage.currentSize = (x.contents path).length

/-- The count, the path and the size are as before. -/
def SameBooks (x x' : Session) : Prop :=
  x'.storage.segmentCount = x.storage.segmentCount ∧ x'.storage.currentPath = x.storage.currentPath ∧
    x'.storage.currentSize = x.storage.currentSize

def RotationFails (x : Session) : Request × Io → Prop
  | (.write data, io) => x.storage.RotationFails x.dir io data
  | (.flush, _) => False

def Clean (x : Session) : Request × Io → Prop
  | (.write data, io) => x.storage.CleanWrite io data
  | (.flush, _) => True

theorem accurate_new (maxSegmentBytes : Nat) (dir : Dir) : (new maxSegmentBytes dir).Accurate :=
  ⟨rfl, rfl, fun _ h => (by cases h)⟩

theorem created_append (x : Session) (storage : FileStorage) (dir : Dir) (more : List (UInt32 × Bool)) :
    (⟨storage, dir, x.creates ++ more⟩ : Session).created = x.created ++ (more.filter (·.2)).map (·.1) := by
  rw [created, List.filter_append, List.map_append]
  rfl

theorem contents_update (storage : FileStorage) (dir : Dir) (path : FileName) (bytes : List UInt8)
    (creates : List (UInt32 × Bool)) (path' : FileName) :
    (⟨storage, Function.update dir path (some bytes), creates⟩ : Session).contents path'
      = if path' = path then bytes else (dir path').getD [] := by
  show (Function.update dir path (some bytes) path').getD [] = _
  rw [Function.update_apply]
  split <;> rfl

/-- The index comes round, or it counts one more. -/
theorem toNat_succ_eq_iff (i : UInt32) : (i + 1).toNat = i.toNat + 1 ↔ i.toNat + 1 < 2 ^ 32 := by
  rw [UInt32.toNat_add]
  have := i.toNat_lt
  have hone : (1 : UInt32).toNat = 1 := rfl
  omega

/-- **One write keeps the books exactly when it is clean.** -/
theorem accurate_write_iff {x : Session} (h : x.Accurate) {io : Io} {data : List UInt8}
    {r : FileStorage × Dir × Except FileStorageError Unit} {creates : List (UInt32 × Bool)}
    (hwrote : Wrote x.storage x.dir io data r creates) :
    (⟨r.1, r.2.1, x.creates ++ creates⟩ : Session).Accurate ↔ x.storage.CleanWrite io data := by
  cases hwrote with
  | stuck hrot hflush =>
    have hnot : ¬ x.storage.flushCurrent io = .ok () := fun hok => by rw [hok] at hflush; cases hflush
    rw [List.append_nil]
    exact iff_of_true h ⟨fun _ hok => absurd hok hnot, fun hok => absurd (hok hrot) hnot⟩
  | stopped hrot hflush hcreate =>
    apply iff_of_false
    · -- the index is one ahead of the files
      intro hacc
      have hcount := hacc.count
      rw [created_append] at hcount
      have hsame : (x.storage.segmentIndex + 1).toNat = x.storage.segmentIndex.toNat :=
        hcount.trans ((congrArg List.length (List.append_nil _)).trans h.count.symm)
      exact absurd (UInt32.toNat_inj.1 hsame) (by simp)
    · intro hclean
      have hok := (hclean.1 hrot hflush).1
      rw [hcreate] at hok
      cases hok
  | rotated hrot hflush hcreate =>
    have hcount : (x.created ++ [x.storage.segmentIndex + 1]).length = x.storage.segmentIndex.toNat + 1 := by
      rw [List.length_append, ← h.count]
      rfl
    constructor
    · intro hacc
      refine ⟨fun _ _ => ⟨hcreate, (toNat_succ_eq_iff _).1 ?_⟩, fun _ => (counted_eq_iff io data).1 ?_⟩
      · have hnew := hacc.count
        rw [created_append] at hnew
        exact hnew.trans hcount
      · have hsize := hacc.size _ rfl
        rwa [contents_update, if_pos rfl] at hsize
    · intro hclean
      have hnext := (toNat_succ_eq_iff _).2 (hclean.1 hrot hflush).2
      refine ⟨?_, ?_, ?_⟩
      · rw [created_append]
        exact hnext.trans hcount.symm
      · apply if_neg
        intro hzero
        have hvalue := hnext.symm.trans (congrArg UInt32.toNat hzero)
        cases hvalue
      · rintro path ⟨⟩
        rw [contents_update, if_pos rfl]
        exact (counted_eq_iff io data).2 (hclean.2 (fun _ => hflush))
  | @appended hrot path hfile =>
    have hsize := h.size path hfile
    have hnot : ¬ x.storage.needsRotate data = true := by simp [hrot]
    have hlen : (((x.dir path).getD []) ++ io.persisted data).length
        = x.storage.currentSize + (io.persisted data).length := by
      rw [List.length_append, hsize]
      rfl
    rw [List.append_nil]
    constructor
    · intro hacc
      refine ⟨fun hrot' => absurd hrot' hnot, fun _ => (counted_eq_iff io data).1 ?_⟩
      have hnew := hacc.size path hfile
      rw [contents_update, if_pos rfl, hlen] at hnew
      exact Nat.add_left_cancel hnew
    · intro hclean
      refine ⟨h.count, h.path, ?_⟩
      intro path' hpath'
      obtain rfl := Option.some.inj (hfile.symm.trans hpath')
      rw [contents_update, if_pos rfl, hlen]
      have hcounted := (counted_eq_iff io data).2 (hclean.2 (fun hrot' => absurd hrot' hnot))
      exact congrArg (x.storage.currentSize + ·) hcounted

theorem accurate_step_iff {x : Session} (h : x.Accurate) : ∀ q : Request × Io,
    (step x q).1.Accurate ↔ x.Clean q
  | (.write data, io) => accurate_write_iff h (x.storage.write_wrote x.dir io data)
  | (.flush, _) => iff_of_true h trivial

/-- **A clean write whose rotation fails** was stuck at the flush, and changed nothing. -/
theorem sameBooks_of_rotationFails {x : Session} : ∀ {q : Request × Io}, x.Clean q → x.RotationFails q →
    SameBooks x (step x q).1
  | (.write data, io), hclean, ⟨hrot, hfails⟩ => by
    have hstuck : ¬ x.storage.flushCurrent io = .ok () := by
      intro hflush
      apply hfails
      rw [FileStorage.openNextSegment_ok hflush (hclean.1 hrot hflush).1]
    have hwrote := x.storage.write_wrote x.dir io data
    show SameBooks x ⟨(x.storage.write x.dir io data).1, _, _⟩
    generalize x.storage.write x.dir io data = r, x.storage.createsOf io data = creates at hwrote ⊢
    cases hwrote with
    | stuck => exact ⟨rfl, rfl, rfl⟩
    | stopped _ hflush => exact absurd hflush hstuck
    | rotated _ hflush => exact absurd hflush hstuck
    | appended hnot =>
      rw [hrot] at hnot
      cases hnot

theorem accurate_after (maxSegmentBytes : Nat) (dir : Dir) : ∀ requests : List (Request × Io),
    (∀ pre q post, requests = pre ++ q :: post → ((new maxSegmentBytes dir).after pre).Clean q) →
    ((new maxSegmentBytes dir).after requests).Accurate := by
  intro requests
  induction requests using List.reverseRecOn with
  | nil => exact fun _ => accurate_new maxSegmentBytes dir
  | append_singleton requests q ih =>
    intro hclean
    rw [after_snoc]
    refine (accurate_step_iff (ih ?_) q).2 (hclean requests q [] rfl)
    intro pre q' post hsplit
    exact hclean pre q' (post ++ [q]) (by rw [hsplit, List.append_assoc, List.cons_append])

/-- **When the bookkeeping survives I/O errors.**  In a run of writes and flushes that meets any answers, the number of
files, the path and the size are right in every state, and a write that fails in the rotation leaves them as they were,
if and only if every step is clean. -/
theorem bookkeeping_iff (maxSegmentBytes : Nat) (dir : Dir) (requests : List (Request × Io)) :
    ((∀ pre, pre <+: requests → ((new maxSegmentBytes dir).after pre).Accurate) ∧
      ∀ pre q post, requests = pre ++ q :: post → ((new maxSegmentBytes dir).after pre).RotationFails q →
        SameBooks ((new maxSegmentBytes dir).after pre) ((new maxSegmentBytes dir).after (pre ++ [q]))) ↔
    ∀ pre q post, requests = pre ++ q :: post → ((new maxSegmentBytes dir).after pre).Clean q := by
  constructor
  · rintro ⟨hacc, -⟩ pre q post rfl
    have hnext := hacc (pre ++ [q]) ⟨post, by rw [List.append_assoc, List.singleton_append]⟩
    rw [after_snoc] at hnext
    exact (accurate_step_iff (hacc pre (List.prefix_append _ _)) q).1 hnext
  · intro hclean
    constructor
    · rintro pre ⟨post, rfl⟩
      apply accurate_after
      rintro pre' q post' rfl
      exact hclean pre' q (post' ++ post) (by rw [List.append_assoc, List.cons_append])
    · intro pre q post hsplit hfails
      rw [after_snoc]
      exact sameBooks_of_rotationFails (hclean pre q post hsplit) hfails

/-- A file that is not created is counted, and is the current path; the bytes of a failed `write_all` are not. -/
theorem bookkeeping_lost :
    let uncreated := (new 1000 (fun _ => none)).after [(.write [1, 0], ⟨.ok (), .error (.os 28), none⟩)]
    let partly := (new 1000 (fun _ => none)).after [(.write [1, 2, 3, 0], failingIo 2)]
    (¬ uncreated.Accurate ∧ uncreated.storage.segmentCount = 1 ∧ uncreated.created = [] ∧
      uncreated.storage.currentPath = some (segmentPath 1) ∧ uncreated.storage.currentFile = none) ∧
    ¬ partly.Accurate ∧ partly.storage.currentFile = some (segmentPath 1) ∧ partly.storage.currentSize = 0 ∧
      partly.contents (segmentPath 1) = [1, 2] := by
  intro uncreated partly
  have huncreated : uncreated.storage.segmentCount = 1 ∧ uncreated.created = [] ∧
      uncreated.storage.currentPath = some (segmentPath 1) ∧ uncreated.storage.currentFile = none := by decide
  have hpartly : partly.storage.currentFile = some (segmentPath 1) ∧ partly.storage.currentSize = 0 ∧
      partly.contents (segmentPath 1) = [1, 2] := by decide +kernel
  refine ⟨⟨?_, huncreated⟩, ?_, hpartly⟩
  · intro hacc
    have hcount := hacc.count
    rw [huncreated.1, huncreated.2.1] at hcount
    cases hcount
  · intro hacc
    have hsize := hacc.size _ hpartly.1
    rw [hpartly.2.1, hpartly.2.2] at hsize
    cases hsize

end Session

end Telemetry
