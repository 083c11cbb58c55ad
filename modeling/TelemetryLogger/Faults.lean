import TelemetryLogger.Crash
/-!
# Faults — a host on a disk that fails

Any call on the disk may fail, and of a write that fails any first part of the bytes may be in the file.  A file is then
made of what is there of each write (`Filled`), and a write that fails costs the reader its own record and at most the
one that was acknowledged next behind it (`decode_after_faults`).
-/
namespace Telemetry

open Record (image)

/-! ## What is read of a file -/

/-- What is in a file of one write. -/
structure Shard where
  data : List UInt8
  kept : List UInt8

/-- The write returned `Ok`. -/
def Shard.whole (s : Shard) : Bool := s.kept == s.data

/-- There is something of it, but not all. -/
def Shard.torn (s : Shard) : Bool := !s.whole && !s.kept.isEmpty

/-- The write was one of a record, and a first part of it is there. -/
structure Shard.Of (c : Crates) (s : Shard) : Prop where
  part : s.kept <+: s.data
  record : ∃ r, s.data = image c r

/-- Whether no part of a write stands at the end, and the data of a write that came whole upon such an end. -/
def Shard.follow (closed : Bool) (s : Shard) : Bool × Option (List UInt8) :=
  if s.whole then (true, if closed then some s.data else none) else (closed && !s.torn, none)

/-- The data that came whole, but for what came right behind a torn write. -/
def settledShards (closed : Bool) (ss : List Shard) : List (List UInt8) :=
  (Machine.run Shard.follow closed ss).2.filterMap id

/-- **What is read where these records were acknowledged**, all but some of them for sure, and this many others are
torn. -/
structure Salvage (acked safe : List StoredRecord) (torn : Nat) (results : List (Except Error StoredRecord)) :
    Prop where
  sublist : safe.Sublist acked
  most : acked.length ≤ safe.length + torn
  read : (safe.map .ok).Sublist results
  seen : results.length ≤ acked.length + torn
  errors : results.countP (!·.isOk) ≤ torn

namespace Salvage

variable {acked acked' safe safe' : List StoredRecord} {n m : Nat} {results results' : List (Except Error StoredRecord)}

theorem append (h : Salvage acked safe n results) (h' : Salvage acked' safe' m results') :
    Salvage (acked ++ acked') (safe ++ safe') (n + m) (results ++ results') := by
  obtain ⟨hsub, hmost, hread, hseen, herrors⟩ := h
  obtain ⟨hsub', hmost', hread', hseen', herrors'⟩ := h'
  refine ⟨hsub.append hsub', ?_, ?_, ?_, ?_⟩
  · rw [List.length_append, List.length_append]
    omega
  · rw [List.map_append]
    exact hread.append hread'
  · rw [List.length_append, List.length_append]
    omega
  · rw [List.countP_append]
    omega

theorem mono (h : Salvage acked safe n results) (hle : n ≤ m) : Salvage acked safe m results := by
  obtain ⟨hsub, hmost, hread, hseen, herrors⟩ := h
  exact ⟨hsub, by omega, hread, by omega, by omega⟩

/-- **Where nothing is torn** all is read. -/
theorem eq_of_none (h : Salvage acked safe 0 results) : results = acked.map .ok := by
  obtain ⟨hsub, hmost, hread, hseen, -⟩ := h
  obtain rfl := hsub.eq_of_length_le hmost
  exact (hread.eq_of_length_le (by rw [List.length_map]; exact hseen)).symm

theorem nil (n : Nat) : Salvage [] [] n [] :=
  ⟨List.Sublist.slnil, Nat.zero_le _, List.Sublist.slnil, Nat.zero_le _, Nat.zero_le _⟩

/-- A record that is read. -/
theorem single (r : StoredRecord) : Salvage [r] [r] 0 [.ok r] :=
  ⟨List.Sublist.refl _, Nat.le_refl 1, List.Sublist.refl _, Nat.le_refl 1, Nat.le_refl 0⟩

/-- Bytes without their record. -/
theorem torn (result : Except Error StoredRecord) : Salvage [] [] 1 [result] :=
  ⟨List.Sublist.slnil, Nat.zero_le _, List.nil_sublist _, Nat.le_refl 1, List.countP_le_length⟩

/-- A record behind such bytes. -/
theorem merged (r : StoredRecord) (result : Except Error StoredRecord) : Salvage [r] [] 1 [result] :=
  ⟨List.nil_sublist _, Nat.le_refl 1, List.nil_sublist _, Nat.le_succ 1, List.countP_le_length⟩

end Salvage

section

variable {c : Crates} (hc : c.Standard)

include hc

/-- A part of a record has a delimiter only if it is the whole. -/
theorem Shard.Of.zero_not_mem {s : Shard} (h : s.Of c) (hwhole : s.whole = false) : 0 ∉ s.kept := by
  obtain ⟨hpart, r, hr⟩ := h
  have hne : s.kept ≠ s.data := by simpa [Shard.whole] using hwhole
  rw [hr, image] at hpart hne
  rcases List.prefix_concat_iff.1 hpart with heq | hbody
  · exact absurd heq hne
  · exact fun hmem => Record.zero_not_mem_body hc r (hbody.subset hmem)

/-- **What is read of a file**, some bytes without a delimiter in front. -/
theorem salvage_shards : ∀ (ss : List Shard) (head : List UInt8), (∀ s ∈ ss, s.Of c) → 0 ∉ head →
    ∃ acked safe, acked.map (image c) = (ss.filter Shard.whole).map Shard.data ∧
      safe.map (image c) = settledShards head.isEmpty ss ∧
      Salvage acked safe (ss.countP Shard.torn + if head = [] then 0 else 1)
        (readSegment c (head ++ ss.flatMap Shard.kept))
  | [], head, _, hhead => by
    refine ⟨[], [], rfl, rfl, ?_⟩
    rw [List.flatMap_nil, List.append_nil, readSegment_of_not_mem hhead]
    by_cases hnil : head = []
    · rw [hnil, readChunk_nil]
      exact .nil _
    · rw [readChunk_of_ne_nil hnil, if_neg hnil]
      exact .torn _
  | s :: ss, head, hof, hhead => by
    have hs := hof s List.mem_cons_self
    have hss : ∀ s ∈ ss, s.Of c := fun s hs => hof s (List.mem_cons_of_mem _ hs)
    rw [List.flatMap_cons, List.countP_cons, List.filter_cons, settledShards, Machine.run_cons, Shard.follow]
    cases hwhole : s.whole with
    | true =>
      -- the chunk ends here
      obtain ⟨acked, safe, hacked, hsafe, hsalvage⟩ := salvage_shards ss [] hss List.not_mem_nil
      rw [if_pos rfl, Nat.add_zero, List.nil_append] at hsalvage
      obtain ⟨r, hr⟩ := hs.record
      have hkept : s.kept = image c r := (beq_iff_eq.1 hwhole).trans hr
      have hbytes : head ++ (s.kept ++ ss.flatMap Shard.kept)
          = (head ++ Record.body c r) ++ 0 :: ss.flatMap Shard.kept := by
        rw [hkept, image]
        simp
      have hmem : 0 ∉ head ++ Record.body c r := by
        rw [List.mem_append]
        exact not_or.2 ⟨hhead, Record.zero_not_mem_body hc r⟩
      have hne : head ++ Record.body c r ≠ [] := List.append_ne_nil_of_right_ne_nil _ (Record.body_ne_nil hc r)
      have htorn : s.torn = false := by rw [Shard.torn, hwhole]; rfl
      have hrecords : (r :: acked).map (image c) = s.data :: (ss.filter Shard.whole).map Shard.data := by
        rw [List.map_cons, hacked, hr]
      rw [hbytes, readSegment_cut _ hmem, readChunk_of_ne_nil hne, htorn, if_neg Bool.false_ne_true, Nat.add_zero]
      by_cases hnil : head = []
      · refine ⟨r :: acked, r :: safe, hrecords, ?_, ?_⟩
        · rw [List.map_cons, hsafe, ← hr, hnil]
          rfl
        · rw [hnil, List.nil_append, Record.decode_body hc, if_pos rfl, Nat.add_comm]
          exact (Salvage.single r).append hsalvage
      · refine ⟨r :: acked, safe, hrecords, ?_, ?_⟩
        · rw [hsafe, List.isEmpty_eq_false_iff.2 hnil]
          rfl
        · rw [if_neg hnil, Nat.add_comm]
          exact (Salvage.merged r _).append hsalvage
    | false =>
      -- what is there is in front of the next write
      have hmem : 0 ∉ head ++ s.kept := by
        rw [List.mem_append]
        exact not_or.2 ⟨hhead, hs.zero_not_mem hc hwhole⟩
      obtain ⟨acked, safe, hacked, hsafe, hsalvage⟩ := salvage_shards ss _ hss hmem
      have hclosed : (head ++ s.kept).isEmpty = (head.isEmpty && !s.torn) := by
        rw [Shard.torn, hwhole]
        cases head <;> simp
      refine ⟨acked, safe, hacked, ?_, ?_⟩
      · rw [hsafe, hclosed]
        rfl
      · rw [← List.append_assoc]
        refine hsalvage.mono ?_
        by_cases hkept : s.kept = []
        · rw [hkept, List.append_nil]
          omega
        · have htorn : s.torn = true := by simp [Shard.torn, hwhole, hkept]
          rw [htorn, if_pos rfl, if_neg (List.append_ne_nil_of_right_ne_nil _ hkept)]
          omega

/-- **What is read of the files.** -/
theorem salvage_files : ∀ (files : List (List Shard)), (∀ s ∈ files.flatten, s.Of c) →
    ∃ acked safe, acked.map (image c) = (files.flatten.filter Shard.whole).map Shard.data ∧
      safe.map (image c) = files.flatMap (settledShards true) ∧
      Salvage acked safe (files.flatten.countP Shard.torn)
        (files.flatMap (fun ss => readSegment c (ss.flatMap Shard.kept)))
  | [], _ => ⟨[], [], rfl, rfl, .nil _⟩
  | ss :: files, hof => by
    rw [List.flatten_cons] at hof ⊢
    obtain ⟨acked, safe, hacked, hsafe, hsalvage⟩ := salvage_shards hc ss []
      (fun s hs => hof s (List.mem_append_left _ hs)) List.not_mem_nil
    obtain ⟨acked', safe', hacked', hsafe', hsalvage'⟩ := salvage_files files
      (fun s hs => hof s (List.mem_append_right _ hs))
    refine ⟨acked ++ acked', safe ++ safe', ?_, ?_, ?_⟩
    · rw [List.map_append, hacked, hacked', List.filter_append, List.map_append]
    · rw [List.map_append, hsafe, hsafe', List.flatMap_cons]
      rfl
    · rw [List.countP_append, List.flatMap_cons]
      exact hsalvage.append hsalvage'

end

/-! ## What is in the files -/

def Op.returned : Op → Option (List UInt8)
  | .write data ok => if ok then some data else none
  | .flush _ => none

/-- The call was a write, and failed. -/
def Op.lost : Op → Bool
  | .write _ ok => !ok
  | .flush _ => false

/-- Whether the write before, if there was one, returned `Ok`; and the data of a write that did so behind such a one. -/
def Op.follow (settled : Bool) : Op → Bool × Option (List UInt8)
  | .write data ok => (ok, if ok && settled then some data else none)
  | .flush _ => (settled, none)

/-- **The data acknowledged, but for what was written right behind a failed write.** -/
def settledData (settled : Bool) (ops : List Op) : List (List UInt8) :=
  (Machine.run Op.follow settled ops).2.filterMap id

/-- A call that is no acknowledged write. -/
theorem Op.follow_of_returned {op : Op} (h : op.returned = none) (settled : Bool) :
    (op.follow settled).2 = none ∧ ((op.follow settled).1 = true → settled = true) := by
  cases op with
  | flush ok => exact ⟨rfl, id⟩
  | write data ok =>
    cases ok with
    | false => exact ⟨rfl, fun hfalse => by cases hfalse⟩
    | true => cases h

/-- **Each failed write has at most one acknowledged write next behind it.** -/
theorem length_returned_le : ∀ (ops : List Op) (settled : Bool), (ops.filterMap Op.returned).length
    ≤ (settledData settled ops).length + (ops.countP Op.lost + if settled then 0 else 1)
  | [], _ => Nat.zero_le _
  | .flush _ :: ops, settled => length_returned_le ops settled
  | .write data false :: ops, settled => by
    have ih := length_returned_le ops false
    rw [if_neg Bool.false_ne_true] at ih
    have hlost : (Op.write data false :: ops).countP Op.lost = ops.countP Op.lost + 1 := List.countP_cons_of_pos rfl
    rw [hlost]
    exact Nat.le_trans ih (Nat.add_le_add_left (Nat.le_add_right _ _) _)
  | .write data true :: ops, true => by
    have ih := length_returned_le ops true
    show (ops.filterMap Op.returned).length + 1 ≤ (settledData true ops).length + 1 + (ops.countP Op.lost + _)
    omega
  | .write data true :: ops, false => by
    have ih := length_returned_le ops true
    show (ops.filterMap Op.returned).length + 1 ≤ (settledData true ops).length + (ops.countP Op.lost + 1)
    exact Nat.succ_le_succ ih

theorem Io.persisted_prefix (io : Io) (data : List UInt8) : io.persisted data <+: data := by
  unfold Io.persisted
  split
  · exact List.take_prefix _ _
  · exact List.prefix_refl _

/-- All is there exactly if the write returns `Ok`. -/
theorem Io.persisted_beq (io : Io) (data : List UInt8) :
    (io.persisted data == data) = (FileStorage.answer io data).isOk := by
  unfold Io.persisted FileStorage.answer
  cases hfails : io.failsAt data with
  | none => exact beq_self_eq_true _
  | some f =>
    have hlt : f.1 < data.length := of_decide_eq_true (Option.filter_eq_some_iff.1 hfails).2
    have hne : data.take f.1 ≠ data := by
      intro heq
      have hlen := congrArg List.length heq
      rw [List.length_take] at hlen
      omega
    exact beq_eq_false_iff_ne.2 hne

/-- What is there of a write. -/
def Io.shard (io : Io) (data : List UInt8) : Shard := ⟨data, io.persisted data⟩

theorem Io.torn_shard {io : Io} (hio : ∀ f ∈ io.writeError, f.1 = 0) (data : List UInt8) :
    (io.shard data).torn = false := by
  unfold Shard.torn Shard.whole Io.shard Io.persisted
  cases hfails : io.failsAt data with
  | none => simp
  | some f => simp [hio f (Option.filter_eq_some_iff.1 hfails).1]

namespace Session

open FileStorage (Wrote segmentPath answer)

/-- **What is in the files of a session** after these calls: in each, what is there of each write that got to it; the
last one is the open one.  The answers that the calls met are some of `P`. -/
structure Filled (P : Io → Prop) (ops : List Op) (x : Session) (files : List (List Shard)) : Prop where
  contents : x.names.map x.contents = files.map (List.flatMap Shard.kept)
  current : x.storage.currentFile = x.names.getLast?
  parts : ∀ s ∈ files.flatten, ∃ io, P io ∧ s = io.shard s.data
  returned : (files.flatten.filter Shard.whole).map Shard.data = ops.filterMap Op.returned
  data : (files.flatten.map Shard.data).Sublist (ops.filterMap Op.data)
  torn : files.flatten.countP Shard.torn ≤ ops.countP Op.lost
  settled : (settledData true ops).Sublist (files.flatMap (settledShards true))
  closed : (Machine.run Op.follow true ops).1 = true →
    ∀ last ∈ files.getLast?, (Machine.run Shard.follow true last).1 = true

variable {P : Io → Prop} {ops : List Op} {x x' : Session} {files : List (List Shard)}

theorem filled_new (M : Nat) (dir : Dir) : (new M dir).Filled P [] [] :=
  ⟨rfl, rfl, fun s hs => (by cases hs), rfl, List.Sublist.slnil, Nat.le_refl 0, List.Sublist.slnil,
    fun _ last hlast => (by cases hlast)⟩

/-- A call that gets to no file. -/
theorem Filled.missed (h : x.Filled P ops files) (hnames : x'.names = x.names) (hdir : x'.dir = x.dir)
    (hfile : x'.storage.currentFile = x.storage.currentFile) {op : Op} (hop : op.returned = none) :
    x'.Filled P (ops ++ [op]) files := by
  obtain ⟨hnone, hsettled⟩ := Op.follow_of_returned hop (Machine.run Op.follow true ops).1
  refine ⟨?_, ?_, h.parts, ?_, ?_, ?_, ?_, ?_⟩
  · rw [hnames, ← h.contents]
    refine List.map_congr_left (fun name _ => ?_)
    rw [Session.contents, hdir]
    rfl
  · rw [hfile, hnames, h.current]
  · rw [List.filterMap_append, h.returned, List.filterMap_cons_none hop]
    exact (List.append_nil _).symm
  · rw [List.filterMap_append]
    exact h.data.trans (List.sublist_append_left _ _)
  · rw [List.countP_append]
    exact Nat.le_trans h.torn (Nat.le_add_right _ _)
  · rw [settledData, Machine.filterMap_run_snoc, hnone]
    exact (List.append_nil _).symm ▸ h.settled
  · rw [Machine.run_snoc_fst]
    exact fun hclosed => h.closed (hsettled hclosed)

/-- **A write that gets to a file**, the last one or a new one. -/
theorem Filled.tried {init : List (List Shard)} {last : List Shard} (h : x.Filled P ops files)
    (hlast : files = init ++ [last] ∨ files = init ∧ last = []) {io : Io} (hio : P io) (data : List UInt8)
    (hcontents : x'.names.map x'.contents = (init ++ [last ++ [io.shard data]]).map (List.flatMap Shard.kept))
    (hcurrent : x'.storage.currentFile = x'.names.getLast?) :
    x'.Filled P (ops ++ [.write data (answer io data).isOk]) (init ++ [last ++ [io.shard data]]) := by
  have hfiles : files.flatten = init.flatten ++ last := by
    rcases hlast with rfl | ⟨rfl, rfl⟩
    · rw [List.flatten_append, List.flatten_singleton]
    · exact (List.append_nil _).symm
  have hsettled : files.flatMap (settledShards true)
      = init.flatMap (settledShards true) ++ settledShards true last := by
    rcases hlast with rfl | ⟨rfl, rfl⟩
    · rw [List.flatMap_append, List.flatMap_singleton]
    · exact (List.append_nil _).symm
  have hclosed : (Machine.run Op.follow true ops).1 = true → (Machine.run Shard.follow true last).1 = true := by
    rcases hlast with rfl | ⟨rfl, rfl⟩
    · exact fun hopen => h.closed hopen last List.getLast?_concat
    · exact fun _ => rfl
  have hflat : (init ++ [last ++ [io.shard data]]).flatten = files.flatten ++ [io.shard data] := by
    rw [hfiles, List.flatten_append, List.flatten_singleton, List.append_assoc]
  have hwhole : (io.shard data).whole = (answer io data).isOk := io.persisted_beq data
  refine ⟨hcontents, hcurrent, ?_, ?_, ?_, ?_, ?_, ?_⟩
  · rw [hflat]
    intro s hs
    rcases List.mem_append.1 hs with hs | hs
    · exact h.parts s hs
    · rw [List.mem_singleton.1 hs]
      exact ⟨io, hio, rfl⟩
  · rw [hflat, List.filter_append, List.map_append, h.returned, List.filterMap_append, List.filter_singleton, hwhole]
    cases (answer io data).isOk <;> rfl
  · rw [hflat, List.map_append, List.filterMap_append]
    exact h.data.append (List.Sublist.refl _)
  · rw [hflat, List.countP_append, List.countP_append]
    refine Nat.add_le_add h.torn ?_
    rw [List.countP_singleton, List.countP_singleton, Shard.torn, hwhole]
    cases (answer io data).isOk with
    | false =>
      split
      · exact Nat.le_refl 1
      · exact Nat.zero_le 1
    | true => exact Nat.le_refl 0
  · have hshards : settledShards true (last ++ [io.shard data]) = settledShards true last
        ++ ((io.shard data).follow (Machine.run Shard.follow true last).1).2.toList :=
      Machine.filterMap_run_snoc _ _ _ _
    rw [settledData, Machine.filterMap_run_snoc, ← settledData, List.flatMap_append, List.flatMap_singleton, hshards,
      ← List.append_assoc, ← hsettled]
    refine h.settled.append ?_
    rw [Shard.follow, hwhole, Op.follow]
    cases hok : (answer io data).isOk with
    | false => exact List.nil_sublist _
    | true =>
      cases hopen : (Machine.run Op.follow true ops).1 with
      | false => exact List.nil_sublist _
      | true =>
        rw [hclosed hopen]
        exact List.Sublist.refl _
  · rw [Machine.run_snoc_fst, Op.follow]
    intro hok last' hlast'
    rw [List.getLast?_concat] at hlast'
    obtain rfl := Option.some.inj hlast'
    have hdone : (answer io data).isOk = true := hok
    rw [Machine.run_snoc_fst, Shard.follow, hwhole, hdone]
    rfl

theorem names_of_creates {creates : List (UInt32 × Bool)} (h : x'.creates = x.creates ++ creates) :
    x'.names = x.names ++ ((creates.filter (·.2)).map (·.1)).map segmentPath := by
  rw [names, created, h, List.filter_append, List.map_append, List.map_append]
  rfl

theorem contents_of_update {dir : Dir} {path : FileName} {bytes : List UInt8}
    (h : x.dir = Function.update dir path (some bytes)) (name : FileName) :
    x.contents name = if name = path then bytes else (dir name).getD [] := by
  rw [Session.contents, h, Function.update_apply]
  split <;> rfl

/-- **What a write puts in the files**, while their names are new. -/
theorem Filled.write (h : x.Filled P ops files) {io : Io} (hio : P io) {data : List UInt8}
    {r : FileStorage × Dir × Except FileStorageError Unit} {creates : List (UInt32 × Bool)}
    (hwrote : Wrote x.storage x.dir io data r creates) (hstorage : x'.storage = r.1) (hdir : x'.dir = r.2.1)
    (hcreates : x'.creates = x.creates ++ creates) (hnodup : x'.names.Nodup) :
    ∃ files', x'.Filled P (ops ++ [.write data r.2.2.isOk]) files' := by
  have hnames := names_of_creates hcreates
  have hfile := congrArg FileStorage.currentFile hstorage
  cases hwrote with
  | stuck => exact ⟨files, h.missed (hnames.trans (List.append_nil _)) hdir hfile rfl⟩
  | stopped => exact ⟨files, h.missed (hnames.trans (List.append_nil _)) hdir hfile rfl⟩
  | rotated =>
    rw [hnames] at hnodup
    refine ⟨_, h.tried (Or.inr ⟨rfl, rfl⟩) hio data ?_ ?_⟩
    · rw [hnames, List.map_append, List.map_append, ← h.contents]
      refine congrArg₂ (· ++ ·) ?_ ?_
      · refine List.map_congr_left (fun name hname => ?_)
        have hne : name ≠ segmentPath (x.storage.segmentIndex + 1) := by
          rintro rfl
          exact List.disjoint_of_nodup_append hnodup hname List.mem_cons_self
        rw [contents_of_update hdir, if_neg hne]
        rfl
      · show [x'.contents _] = [[] ++ io.persisted data ++ []]
        rw [contents_of_update hdir, if_pos rfl]
        simp
    · rw [hfile, hnames]
      exact List.getLast?_concat.symm
  | @appended hrot path hpath =>
    rw [show ((([] : List (UInt32 × Bool)).filter (·.2)).map (·.1)).map segmentPath = [] from rfl,
      List.append_nil] at hnames
    have hcontents := h.contents
    obtain ⟨init, hinit⟩ := List.getLast?_eq_some_iff.1 (h.current.symm.trans hpath)
    rw [hinit, List.map_append, List.map_singleton] at hcontents
    obtain ⟨before, after, rfl, hbefore, hafter⟩ := List.map_eq_append_iff.1 hcontents.symm
    obtain ⟨last, rfl, hlast⟩ := List.map_eq_singleton_iff.1 hafter
    refine ⟨_, h.tried (Or.inl rfl) hio data ?_ ?_⟩
    · rw [hnames, hinit] at hnodup
      rw [hnames, hinit, List.map_append, List.map_append, hbefore]
      refine congrArg₂ (· ++ ·) ?_ ?_
      · refine List.map_congr_left (fun name hname => ?_)
        have hne : name ≠ path := by
          rintro rfl
          exact List.disjoint_of_nodup_append hnodup hname List.mem_cons_self
        rw [contents_of_update hdir, if_neg hne]
        rfl
      · show [x'.contents path] = [(last ++ [io.shard data]).flatMap Shard.kept]
        rw [contents_of_update hdir, if_pos rfl, List.flatMap_append, List.flatMap_singleton, hlast]
        rfl
    · rw [hfile, hnames, ← h.current]

end Session

/-! ## The host -/

/-- The storage is that of its session, and its files are filled, while their names are new. -/
structure Serves (io : Nat → Io) (M : Nat) (dir : Dir) (y : Host.Files) : Prop where
  tied : Tied io M dir y
  filled : (sessionOf io M dir y.2).creates.length < 2 ^ 32 →
    ∃ files, (sessionOf io M dir y.2).Filled (fun i => ∃ n, i = io n) y.2 files

section Serves

variable {io : Nat → Io} {M : Nat} {dir : Dir}

theorem serves_new : Serves io M dir ((.new M, dir, 0), []) := ⟨tied_new, fun _ => ⟨[], Session.filled_new M dir⟩⟩

theorem names_nodup (ops : List Op) (hroom : (sessionOf io M dir ops).creates.length < 2 ^ 32) :
    (sessionOf io M dir ops).names.Nodup :=
  List.Nodup.of_map _ (Session.pairwise_paths [] ((Session.numbered_after M dir _).increasing hroom)).1

theorem Serves.write {y : Host.Files} (h : Serves io M dir y) (data : List UInt8) :
    Serves io M dir ((FileStorage.storage io).traced.write y data).1 := by
  refine ⟨h.tied.write data, fun hroom => ?_⟩
  have hops : ((FileStorage.storage io).traced.write y data).1.2
      = y.2 ++ [.write data (y.1.1.write y.1.2.1 (io y.1.2.2) data).2.2.isOk] := rfl
  rw [hops, h.tied.storage, h.tied.dir, h.tied.calls] at hroom ⊢
  have hnodup := names_nodup _ hroom
  rw [sessionOf_snoc] at hroom hnodup ⊢
  have hwrote := (sessionOf io M dir y.2).storage.write_wrote (sessionOf io M dir y.2).dir (io y.2.length) data
  obtain ⟨files, hfilled⟩ := h.filled (Nat.lt_of_le_of_lt (by
    show _ ≤ (_ ++ _ : List (UInt32 × Bool)).length
    rw [List.length_append]
    exact Nat.le_add_right _ _) hroom)
  exact hfilled.write ⟨_, rfl⟩ hwrote rfl rfl rfl hnodup

theorem Serves.flush {y : Host.Files} (h : Serves io M dir y) :
    Serves io M dir ((FileStorage.storage io).traced.flush y).1 := by
  refine ⟨h.tied.flush, fun hroom => ?_⟩
  rw [traced_flush, sessionOf_snoc] at hroom ⊢
  obtain ⟨files, hfilled⟩ := h.filled hroom
  exact ⟨files, hfilled.missed rfl rfl rfl rfl⟩

theorem serves_after {c : Crates} (hc : c.Standard) {N Q : Nat} (calls : List Call) (x : Pipeline N Q × Host.Files)
    (h : Serves io M dir x.2) : Serves io M dir (after c (FileStorage.storage io).traced x calls).2 :=
  after_storage hc (fun _ data hy => hy.write data) (fun _ hy => hy.flush) calls x h

end Serves

namespace Host

/-- **A run of the host** on any disk, that reads these reads and leaves `l`. -/
structure Runs (c : Crates) (world : World) (args : Args) (reads : List (Except IoErrorKind Chunk)) (l : Loop Files) :
    Prop where
  connects : ∃ source, Source.ofSpec args.input = some source ∧ world.connect source = .ok reads
  leaves : ∃ res, (main c world args).2 = .ok (l, res)

end Host

theorem length_data (ops : List Op) :
    (ops.filterMap Op.data).length = (ops.filterMap Op.returned).length + ops.countP Op.lost := by
  induction ops with
  | nil => rfl
  | cons op ops ih =>
    rw [List.filterMap_cons, List.filterMap_cons, List.countP_cons]
    cases op with
    | flush ok => exact ih
    | write data ok =>
      cases ok with
      | false => exact congrArg (· + 1) ih
      | true =>
        show _ + 1 = _ + 1 + _
        rw [ih]
        exact Nat.add_right_comm _ _ _

theorem returned_sublist (ops : List Op) : (ops.filterMap Op.returned).Sublist (ops.filterMap Op.data) := by
  induction ops with
  | nil => exact List.Sublist.slnil
  | cons op ops ih =>
    rw [List.filterMap_cons, List.filterMap_cons]
    cases op with
    | flush ok => exact ih
    | write data ok =>
      cases ok with
      | false => exact ih.cons data
      | true => exact ih.cons_cons data

section

variable {c : Crates} (hc : c.Standard) {world : Host.World} {args : Host.Args}
  {reads : List (Except IoErrorKind Chunk)} {l : Loop Host.Files}

include hc

/-- **What a host leaves on any disk**: the records passed to `write`, then those queued, are those counted. -/
theorem Host.Runs.conserved (h : Host.Runs c world args reads l) :
    Serves world.io args.segmentSize world.dir l.storage ∧
    ∃ written, l.storage.2.filterMap Op.data = written.map (image c) ∧
      written ++ l.pipeline.queued = counted c world args reads := by
  obtain ⟨res, hrun⟩ := runLoop_of_main h.connects h.leaves
  obtain ⟨hpipe, hstore⟩ := run_leaves c (FileStorage.storage world.io).traced args.statsInterval reads
    ⟨Pipeline.new (filterOf args).1, ((.new args.segmentSize, world.dir, 0), []), 0, []⟩
  obtain ⟨⟨written, hdata, hrec⟩, -⟩ := conserved_after (N := defaultMaxFrame) (Q := hostQueueDepth) hc
    (FileStorage.storage world.io) (filterOf args).1 (.new args.segmentSize, world.dir, 0) (callsOf (consumed reads))
  have hserves := serves_after hc (callsOf (consumed reads)) ((Pipeline.new (filterOf args).1 : DefaultPipeline),
    (.new args.segmentSize, world.dir, 0), [])
    (show Serves world.io args.segmentSize world.dir ((.new args.segmentSize, world.dir, 0), []) from serves_new)
  have hl := congrArg Prod.fst hrun
  rw [← hpipe] at hrec
  rw [runLoop] at hl
  rw [hl] at hpipe hstore hrec
  rcases hstore with hstore | hstore
  · rw [hstore]
    exact ⟨hserves, written, hdata, hrec⟩
  · rw [hstore]
    exact ⟨hserves.flush, written, (filterMap_data_flush _ _).trans hdata, hrec⟩

omit hc in
/-- **What is read of a host's directory**, if it held no segment files and at most 99999 are created. -/
theorem Serves.read {M : Nat} {y : Host.Files} (h : Serves world.io M world.dir y)
    (hunused : Session.Unused world.dir) (hfew : (sessionOf world.io M world.dir y.2).creates.length ≤ 99999)
    {disk : Decode.Disk} {dargs : Decode.Args} (hinspects : Host.Inspects disk y.1.2.1 dargs) :
    ∃ files, (sessionOf world.io M world.dir y.2).Filled (fun i => ∃ n, i = world.io n) y.2 files ∧
      Decode.read c disk dargs = if (sessionOf world.io M world.dir y.2).created = [] then .error .noInputFiles
        else .ok (files.flatMap (fun ss => readSegment c (ss.flatMap Shard.kept))) := by
  obtain ⟨hargs, d, hdir, hmounts⟩ := hinspects
  have hroom : (sessionOf world.io M world.dir y.2).creates.length < 2 ^ 32 := by omega
  obtain ⟨files, hfilled⟩ := h.filled hroom
  have hnum : (sessionOf world.io M world.dir y.2).Numbered := Session.numbered_after M world.dir _
  have hinv := Session.inventory_after M world.dir (requests world.io y.2)
  rw [h.tied.dir] at hmounts
  have hordered : (sessionOf world.io M world.dir y.2).created.Pairwise Decode.Ordered := by
    have hsub : (sessionOf world.io M world.dir y.2).created.Sublist
        ((sessionOf world.io M world.dir y.2).creates.map (·.1)) := List.filter_sublist.map _
    refine List.Pairwise.sublist hsub ?_
    rw [hnum.creates]
    exact (Session.ordered_range_iff hroom).2 hfew
  have hvisits := Session.visits_only hnum hinv hroom hmounts.shows hargs hdir hunused hordered
  refine ⟨files, hfilled, ?_⟩
  rw [read_of_visits hinv hmounts.shows hvisits]
  refine if_congr Iff.rfl rfl (congrArg Except.ok ?_)
  have hcontents := congrArg (List.flatMap (readSegment c)) hfilled.contents
  rw [List.flatMap_map, List.flatMap_map] at hcontents
  exact hcontents

/-- **A disk that fails.**  Any call of a host on its files may fail, and a write that fails may leave any first part of
its bytes in the file; the directory held no segment files, and at most 99999 files are created.  The records whose
write returned `Ok` are then among those counted, in order, and with the records whose write failed and those still
queued they are all.  The reader gets every record whose write returned `Ok`, in order, but perhaps those written next
behind a failed write; and for each failed write the decoder sees at most one error.  If failed writes leave nothing in
the file, he gets exactly the records whose write returned `Ok`. -/
theorem decode_after_faults (h : Host.Runs c world args reads l) (hunused : Session.Unused world.dir)
    (hfew : (sessionOf world.io args.segmentSize world.dir l.storage.2).creates.length ≤ 99999) {disk : Decode.Disk}
    {dargs : Decode.Args} (hinspects : Host.Inspects disk l.storage.1.2.1 dargs) (stats : Bool)
    (draw : List (List Char) → List (List (List Char)) → List Char) :
    let lost := l.storage.2.countP Op.lost
    ∃ acked safe results,
      acked.map (image c) = l.storage.2.filterMap Op.returned ∧ acked.Sublist (counted c world args reads) ∧
      (counted c world args reads).length = acked.length + lost + l.pipeline.queued.length ∧
      safe.map (image c) = settledData true l.storage.2 ∧ Salvage acked safe lost results ∧
      ((∀ n, ∀ f ∈ (world.io n).writeError, f.1 = 0) → results = acked.map .ok) ∧
      (Decode.main c disk dargs .json stats).map
          (fun s => (Decode.readJson (Decode.output draw s.stdout), s.stats.totalSeen, s.stats.decodeErrors))
        = if (sessionOf world.io args.segmentSize world.dir l.storage.2).created = [] then .error .noInputFiles
          else .ok (some (Decode.shown dargs results), .ofNat results.length,
            .ofNat (results.countP (!·.isOk))) := by
  intro lost
  obtain ⟨hserves, written, hdata, hrec⟩ := h.conserved hc
  obtain ⟨files, hfilled, hread⟩ := hserves.read hunused hfew hinspects
  have hof : ∀ s ∈ files.flatten, s.Of c := by
    intro s hs
    obtain ⟨io, -, hshard⟩ := hfilled.parts s hs
    have hmem := hfilled.data.subset (List.mem_map_of_mem hs)
    rw [hdata] at hmem
    obtain ⟨r, -, hr⟩ := List.mem_map.1 hmem
    refine ⟨?_, r, hr.symm⟩
    rw [hshard]
    exact io.persisted_prefix s.data
  obtain ⟨acked, kept, hacked, hkept, hsalvage⟩ := salvage_files hc files hof
  rw [hfilled.returned] at hacked
  have hsub : acked.Sublist written := by
    have hreturned := returned_sublist l.storage.2
    rw [← hacked, hdata] at hreturned
    obtain ⟨rs, hrs, heq⟩ := List.sublist_map_iff.1 hreturned
    rwa [List.map_injective_iff.2 (Record.image_injective hc) heq]
  obtain ⟨safe, hsafe, hdata_safe⟩ := List.sublist_map_iff.1 (hkept ▸ hfilled.settled)
  have hmost := length_returned_le l.storage.2 true
  rw [← hacked, hdata_safe, List.length_map, List.length_map, if_pos rfl, Nat.add_zero] at hmost
  have hlost := hsalvage.mono hfilled.torn
  refine ⟨acked, safe, _, hacked, ?_, ?_, hdata_safe.symm,
    ⟨hsafe.trans hlost.sublist, hmost, (hsafe.map _).trans hlost.read, hlost.seen, hlost.errors⟩, ?_, ?_⟩
  · rw [← hrec]
    exact hsub.trans (List.sublist_append_left _ _)
  · have hlen := length_data l.storage.2
    rw [hdata, ← hacked, List.length_map, List.length_map] at hlen
    rw [← hrec, List.length_append, hlen]
  · intro hclean
    have hnone : files.flatten.countP Shard.torn = 0 := by
      refine List.countP_eq_zero.2 (fun s hs => ?_)
      obtain ⟨io, ⟨n, rfl⟩, hshard⟩ := hfilled.parts s hs
      rw [hshard, Io.torn_shard (hclean n)]
      exact Bool.false_ne_true
    rw [hnone] at hsalvage
    exact hsalvage.eq_of_none
  · rw [Decode.main_json, hread]
    split_ifs with hnone
    · rfl
    · rfl

end

/-- The heartbeat behind the two frames. -/
def nextFrame : Chunk := ⟨[3, 1, 1, 2, 2, 1, 1, 1, 1, 3, 243, 117, 0].map (⟨·, 9⟩), by decide⟩

/-- A system whose disk takes three bytes of the first write. -/
def faulty : Host.World :=
  ⟨.ok (), fun _ => none, fun n => if n = 0 then shortIo else healthyIo, fun _ => .ok [.ok twoFrames, .ok nextFrame]⟩

/-- What the host leaves there. -/
def faultyRun : Loop Host.Files :=
  (runLoop Crates.documented (FileStorage.storage faulty.io).traced plainArgs.statsInterval
    (Pipeline.new (Host.filterOf plainArgs).1) ((.new plainArgs.segmentSize, faulty.dir, 0), [])
    [.ok twoFrames, .ok nextFrame]).1

def faultySession : Session := sessionOf faulty.io plainArgs.segmentSize faulty.dir faultyRun.storage.2

/-- The second record is written behind the rest of the first one; the third is safe. -/
theorem decode_after_faults_run :
    let second : StoredRecord := .v1 ⟨7, 1, 1, 0, .new⟩
    let third : StoredRecord := .v1 ⟨9, 2, 1, 0, .new⟩
    ∃ results, Salvage [second, third] [third] 1 results ∧
      (Decode.main Crates.documented (Session.diskOf faultySession) Session.decodeHere .json true).map
          (fun s => (Decode.readJson (Decode.output (fun _ _ => []) s.stdout), s.stats.totalSeen, s.stats.decodeErrors))
        = .ok (some (Decode.shown Session.decodeHere results), .ofNat results.length,
          .ofNat (results.countP (!·.isOk))) := by
  intro second third
  have hc := Crates.documented_standard
  have hinjective := List.map_injective_iff.2 (Record.image_injective hc)
  have hruns : Host.Runs Crates.documented faulty plainArgs [.ok twoFrames, .ok nextFrame] faultyRun :=
    ⟨⟨.stdin, rfl, rfl⟩, ⟨_, rfl⟩⟩
  have hfew : faultySession.creates.length ≤ 99999 := by decide +kernel
  have hcreated : faultySession.created ≠ [] := by decide +kernel
  have hlost : faultyRun.storage.2.countP Op.lost = 1 := by decide +kernel
  have hreturned : faultyRun.storage.2.filterMap Op.returned = [second, third].map (image Crates.documented) := by
    decide +kernel
  have hsettled : settledData true faultyRun.storage.2 = [third].map (image Crates.documented) := by decide +kernel
  have hshows := Session.shows_diskOf (Session.numbered_after plainArgs.segmentSize faulty.dir
    (requests faulty.io faultyRun.storage.2)) (Session.inventory_after _ _ _)
    (Nat.lt_of_le_of_lt hfew (by decide)) []
  have hinspects : Host.Inspects (Session.diskOf faultySession) faultyRun.storage.1.2.1 Session.decodeHere := by
    refine ⟨rfl, [], rfl, ?_⟩
    rw [(hruns.conserved hc).1.tied.dir]
    exact ⟨hshows.listed, hshows.read⟩
  obtain ⟨acked, safe, results, hacked, -, -, hsafe, hsalvage, -, hmain⟩ :=
    decode_after_faults hc hruns (fun _ _ => rfl) hfew hinspects true (fun _ _ => [])
  rw [hreturned] at hacked
  rw [hsettled] at hsafe
  obtain rfl : acked = [second, third] := hinjective hacked
  obtain rfl : safe = [third] := hinjective hsafe
  rw [hlost] at hsalvage
  exact ⟨results, hsalvage, hmain.trans (if_neg hcreated)⟩

end Telemetry
