import TelemetryLogger.Archive
/-!
# Crash — a host that is killed while it writes

A kill cuts the calls of the storage off, between two of them or in one, perhaps after a part of its bytes (`CutOff`).
The decoder then reads every record whose write had returned, and at most one result behind them (`decode_after_kill`).
-/
namespace Telemetry

open Record (image)

/-! ## One more write, whose bytes may not all be there -/

/-- **A file is put at the end**, or in place of the last one. -/
theorem Stands.put {dir₀ dir : Dir} {files : List (List UInt8)}
    (hfile : ∀ i bytes, files[i]? = some bytes → dir (fileName i) = some bytes)
    (hothers : ∀ name, (∀ i ≤ files.length, name ≠ fileName i) → dir name = dir₀ name)
    (hroom : files.length + 1 < 2 ^ 32) (bytes : List UInt8) :
    Stands dir₀ (files ++ [bytes]) (Function.update dir (fileName files.length) (some bytes)) := by
  constructor
  · intro i bytes' hbytes
    rcases Nat.lt_trichotomy i files.length with hi | rfl | hi
    · rw [List.getElem?_append_left hi] at hbytes
      rw [Function.update_of_ne (fileName_ne (by omega) hroom (Nat.ne_of_lt hi))]
      exact hfile i bytes' hbytes
    · rw [List.getElem?_concat_length] at hbytes
      rw [Function.update_self, hbytes]
    · rw [List.getElem?_eq_none (by rw [List.length_append, List.length_singleton]; omega)] at hbytes
      cases hbytes
  · intro name hname
    rw [List.length_append, List.length_singleton] at hname
    rw [Function.update_of_ne (hname files.length (Nat.lt_succ_self _))]
    exact hothers name (fun i hi => hname i (Nat.lt_succ_of_le hi))

/-- **What a session leaves that is cut off** before it has made these calls: its directory as it stands, or, once the
next call has its file open, with any first part of its bytes in it. -/
inductive CutOff (x : Session) : List Op → Dir → Prop
  | idle (later : List Op) : CutOff x later x.dir
  | writing (op : Op) (later : List Op) {io : Io} (hopens : io.Opens) :
      CutOff x (op :: later) (Session.step x (op.request, io)).1.dir

/-- **The last write of a session**, of which these bytes are there: they are behind the others of the last file, or
alone in the next one. -/
theorem stands_torn (M : Nat) (dir : Dir) {qs : List (Request × Io)} (hok : ∀ q ∈ qs, q.2.Succeeds) {io : Io}
    (hopens : io.Opens) {data : List UInt8} (hroom : (Pack.pack List.length M (written qs ++ [data])).length < 2 ^ 32) :
    ∃ (init : List (List UInt8)) (last : List UInt8),
      Stands dir (init ++ [last ++ io.persisted data])
        (Session.step ((Session.new M dir).after qs) (.write data, io)).1.dir ∧
      init.length + 1 = (Pack.pack List.length M (written qs ++ [data])).length ∧
      ((Pack.pack List.length M (written qs)).map List.flatten = init ++ [last] ∨
        last = [] ∧ (Pack.pack List.length M (written qs)).map List.flatten = init) := by
  have hstands := stands_after M dir hok (Nat.lt_of_le_of_lt (Pack.length_pack_le _ [data]) hroom)
  obtain ⟨hpacking, hindex, hcurrent, -⟩ := Session.laid_after M dir qs hok
  have hwrite := (((Session.new M dir).after qs).storage.write_spec hopens ((Session.new M dir).after qs).dir data).2.1
  have hdir : (Session.step ((Session.new M dir).after qs) (.write data, io)).1.dir = _ := hwrite
  rw [Pack.pack_snoc] at hroom
  rw [hdir, Pack.pack_snoc]
  generalize Pack.pack List.length M (written qs) = packs at *
  generalize (Session.new M dir).after qs = x at *
  unfold FileStorage.found FileStorage.target
  rcases Pack.place_cases List.length M packs data with ⟨hplace, hlast⟩ | ⟨init, p, rfl, hfit, hplace⟩
  · -- the next file
    have hname : FileStorage.segmentPath (x.storage.segmentIndex + 1) = fileName (packs.map List.flatten).length := by
      rw [hindex, fileName, List.length_map, UInt32.ofNat_add]
      rfl
    rw [hplace, List.length_append, List.length_singleton] at hroom ⊢
    refine ⟨packs.map List.flatten, [], ?_, by rw [List.length_map], Or.inr ⟨rfl, rfl⟩⟩
    rw [hpacking.needsRotate_eq_true hlast, if_pos rfl, if_pos rfl, hname]
    refine Stands.put hstands.file (fun name h => hstands.others name (fun i hi => h i (Nat.le_of_lt hi))) ?_ _
    rw [List.length_map]
    exact hroom
  · -- the open file
    rw [List.getLast?_concat, Option.map_some] at hcurrent
    have hname : FileStorage.segmentPath x.storage.segmentIndex = fileName (init.map List.flatten).length := by
      rw [hindex, fileName, List.length_append, List.length_map]
      rfl
    have hmap : (init ++ [p]).map List.flatten = init.map List.flatten ++ [p.flatten] := by
      rw [List.map_append, List.map_singleton]
    rw [hmap] at hstands
    have hlast := hstands.file (init.map List.flatten).length p.flatten List.getElem?_concat_length
    rw [hplace, List.length_append, List.length_singleton] at hroom ⊢
    refine ⟨init.map List.flatten, p.flatten, ?_, by rw [List.length_map], Or.inl hmap⟩
    rw [(hpacking.needsRotate_eq_false hfit).1, if_neg Bool.false_ne_true, if_neg Bool.false_ne_true, hcurrent,
      Option.getD_some, hname, hlast, Option.getD_some]
    refine Stands.put (fun i bytes hbytes => ?_) (fun name h => hstands.others name (fun i hi => h i ?_)) ?_ _
    · have hi : i < (init.map List.flatten).length := (List.getElem?_eq_some_iff.1 hbytes).1
      exact hstands.file i bytes ((List.getElem?_append_left hi).trans hbytes)
    · rw [List.length_append, List.length_singleton] at hi
      exact Nat.le_of_lt_succ hi
    · rw [List.length_map]
      exact hroom

/-! ## What is read of it -/

section

variable {c : Crates} (hc : c.Standard)

include hc

theorem readSegment_fileOf_append (ys : List UInt8) : ∀ rs : List StoredRecord,
    readSegment c (fileOf c rs ++ ys) = rs.map .ok ++ readSegment c ys
  | [] => rfl
  | r :: rs => by
    have ih := readSegment_fileOf_append ys rs
    rw [fileOf, List.flatMap_cons, ← fileOf, List.append_assoc, readSegment_image hc, ih]
    rfl

/-- What is read behind the records written, where this one may be next. -/
inductive Torn (next : Option StoredRecord) : List (Except Error StoredRecord) → Prop
  | lost : Torn next []
  | whole {r : StoredRecord} (hr : r ∈ next) : Torn next [.ok r]
  | broken : Torn next [.error .codec]

omit hc in
/-- The next record is one more that is kept, or one error, or nothing. -/
theorem Torn.counts {more : List StoredRecord} {tail : List (Except Error StoredRecord)} (h : Torn more.head? tail)
    (rs : List StoredRecord) (dargs : Decode.Args) : ∃ kept errors, rs.length ≤ kept ∧ kept + errors ≤ rs.length + 1 ∧
      Decode.shown dargs (rs.map .ok ++ tail) = ((rs ++ more).take kept).filter (Decode.passesFilter dargs) ∧
      (rs.map Except.ok ++ tail).length = kept + errors ∧
      (rs.map Except.ok ++ tail).countP (!Except.isOk ·) = errors := by
  rw [Decode.shown_append, Session.shown_ok, List.countP_append, countP_ok, Nat.zero_add, List.length_append,
    List.length_map]
  cases h with
  | lost =>
    refine ⟨rs.length, 0, Nat.le_refl _, Nat.le_succ _, ?_, rfl, rfl⟩
    rw [List.take_left]
    exact List.append_nil _
  | @whole r hr =>
    obtain ⟨more, rfl⟩ := List.head?_eq_some_iff.1 hr
    have hlength : (rs ++ [r]).length = rs.length + 1 := List.length_append
    refine ⟨rs.length + 1, 0, Nat.le_succ _, Nat.le_refl _, ?_, rfl, rfl⟩
    rw [List.append_cons, List.take_left' hlength, List.filter_append]
    rfl
  | broken =>
    refine ⟨rs.length, 1, Nat.le_refl _, Nat.le_refl _, ?_, rfl, rfl⟩
    rw [List.take_left]
    exact List.append_nil _

theorem torn_persisted (r : StoredRecord) (io : Io) :
    Torn (some r) (readSegment c (io.persisted (image c r))) := by
  unfold Io.persisted
  cases hfails : io.failsAt (image c r) with
  | none =>
    have hread := readSegment_image hc r []
    rw [List.append_nil, readSegment_nil] at hread
    simp only [hread]
    exact .whole rfl
  | some f =>
    cases r with
    | v1 r =>
      obtain ⟨kept, e⟩ := f
      have hlt : kept < (image c (.v1 r)).length := by
        have hfilter := (Option.filter_eq_some_iff.1 hfails).2
        exact of_decide_eq_true hfilter
      simp only [readSegment_take_image hc r hlt, readCut]
      split
      · exact .lost
      · split
        · exact .whole rfl
        · exact .broken

variable {M : Nat} (dir₀ : Dir) {dir : Dir} {qs : List (Request × Io)} {rs more : List StoredRecord} {later : List Op}

/-- The files of the writes that have returned. -/
theorem files_idle (hok : ∀ q ∈ qs, q.2.Succeeds) (hrs : written qs = rs.map (image c))
    (hroom : (Pack.pack List.length M (written qs)).length < 2 ^ 32) :
    ∃ files, Stands dir₀ files ((Session.new M dir₀).after qs).dir ∧
      files.length = (Pack.pack List.length M (written qs)).length ∧ (files = [] → rs = []) ∧
      files.flatMap (readSegment c) = rs.map .ok := by
  refine ⟨_, stands_after M dir₀ hok hroom, List.length_map _, ?_, ?_⟩
  · rw [flatten_packs c M hrs]
    intro hnil
    rw [← Pack.flatten_pack (fun r => (image c r).length) M rs, List.map_eq_nil_iff.1 hnil]
    rfl
  · rw [flatten_packs c M hrs, readSegment_fileOf hc, Pack.flatten_pack]

/-- The files with what is there of one write more. -/
theorem files_writing (hok : ∀ q ∈ qs, q.2.Succeeds) (hrs : written qs = rs.map (image c)) {r : StoredRecord} {io : Io}
    (hopens : io.Opens) (hroom : (Pack.pack List.length M (written qs ++ [image c r])).length < 2 ^ 32) :
    ∃ files tail, Stands dir₀ files (Session.step ((Session.new M dir₀).after qs) (.write (image c r), io)).1.dir ∧
      files.length = (Pack.pack List.length M (written qs ++ [image c r])).length ∧ files ≠ [] ∧
      Torn (some r) tail ∧ files.flatMap (readSegment c) = rs.map .ok ++ tail := by
  obtain ⟨init, last, hstands, hlen, hfiles⟩ := stands_torn M dir₀ hok hopens hroom
  have hrecords : ∃ (front : List (List StoredRecord)) (back : List StoredRecord),
      init = front.map (fileOf c) ∧ last = fileOf c back ∧ front.flatten ++ back = rs := by
    rw [flatten_packs c M hrs] at hfiles
    rcases hfiles with hsplit | ⟨rfl, rfl⟩
    · obtain ⟨front, back, hpack, rfl, hback⟩ := List.map_eq_append_iff.1 hsplit
      obtain ⟨back, rfl, rfl⟩ := List.map_eq_singleton_iff.1 hback
      refine ⟨front, back, rfl, rfl, ?_⟩
      rw [← Pack.flatten_pack (fun r => (image c r).length) M rs, hpack, List.flatten_append, List.flatten_singleton]
    · exact ⟨_, [], rfl, rfl, by rw [List.append_nil, Pack.flatten_pack]⟩
  obtain ⟨front, back, rfl, rfl, rfl⟩ := hrecords
  refine ⟨_, _, hstands, ?_, List.append_ne_nil_of_right_ne_nil _ (List.cons_ne_nil _ _), torn_persisted hc r io, ?_⟩
  · rw [List.length_append, List.length_singleton, hlen]
  · rw [List.flatMap_append, List.flatMap_singleton, readSegment_fileOf hc, readSegment_fileOf_append hc,
      ← List.append_assoc, ← List.map_append]

/-- **The files of a session that is cut off**: all records whose write has returned are in them, and behind these what
is there of the next one. -/
theorem files_cutOff (hok : ∀ q ∈ qs, q.2.Succeeds) (hrs : written qs = rs.map (image c))
    (hmore : later.filterMap Op.data = more.map (image c))
    (hfew : (Pack.pack List.length M (written qs ++ later.filterMap Op.data)).length ≤ 99999)
    (hcut : CutOff ((Session.new M dir₀).after qs) later dir) :
    ∃ files tail, Stands dir₀ files dir ∧ files.length ≤ 99999 ∧ (files = [] → rs = []) ∧ Torn more.head? tail ∧
      files.flatMap (readSegment c) = rs.map .ok ++ tail := by
  have hsmall : (Pack.pack List.length M (written qs)).length ≤ 99999 := Nat.le_trans (Pack.length_pack_le _ _) hfew
  obtain ⟨files, hstands, hlen, hempty, hread⟩ := files_idle hc dir₀ hok hrs
    (Nat.lt_of_le_of_lt hsmall (by decide))
  have hidle : ∃ files tail, Stands dir₀ files ((Session.new M dir₀).after qs).dir ∧ files.length ≤ 99999 ∧
      (files = [] → rs = []) ∧ Torn more.head? tail ∧ files.flatMap (readSegment c) = rs.map .ok ++ tail :=
    ⟨files, [], hstands, hlen ▸ hsmall, hempty, .lost, by rw [List.append_nil, hread]⟩
  cases hcut with
  | idle => exact hidle
  | @writing op later io hopens =>
    cases op with
    | flush ok => exact hidle
    | write data ok =>
      have hcons : (Op.write data ok :: later).filterMap Op.data = data :: later.filterMap Op.data := rfl
      rw [hcons] at hmore hfew
      obtain ⟨r, more, rfl, rfl, -⟩ := List.map_eq_cons_iff.1 hmore.symm
      have hnext : (Pack.pack List.length M (written qs ++ [image c r])).length ≤ 99999 := by
        refine Nat.le_trans (Pack.length_pack_le _ (later.filterMap Op.data)) ?_
        rw [List.append_assoc]
        exact hfew
      obtain ⟨files, tail, hstands, hlen, hne, htail, hread⟩ := files_writing hc dir₀ hok hrs (r := r) hopens
        (Nat.lt_of_le_of_lt hnext (by decide))
      exact ⟨files, tail, hstands, hlen ▸ hnext, fun hnil => absurd hnil hne, htail, hread⟩

/-- **A host is killed.**  It has made the calls `done` on its storage, and is cut off before the next one or in it,
where a write may have got any first part of its bytes into the file.  If there is a segment file by then, a reader of
the decoder's `JSON` gets every record whose write has returned, and perhaps the next one, in order, if they pass the
decoder's filter; the decoder counts at most one error, and none beside the next record.  If there is none, no write has
returned. -/
theorem decode_after_kill {world : Host.World} {args : Host.Args} {reads : List (Except IoErrorKind Chunk)}
    {l : Loop Host.Files} (h : Host.Logs c world args reads l) {done : List Op}
    (hsplit : l.storage.2 = done ++ later)
    (hcut : CutOff (sessionOf world.io args.segmentSize world.dir done) later dir) {disk : Decode.Disk}
    {dargs : Decode.Args} (hinspects : Host.Inspects disk dir dargs) (stats : Bool)
    (draw : List (List Char) → List (List (List Char)) → List Char) :
    let returned := (done.filterMap Op.data).length
    let printed := (Decode.main c disk dargs .json stats).map
      (fun s => (Decode.readJson (Decode.output draw s.stdout), s.stats.totalSeen, s.stats.decodeErrors))
    (Session.Unused dir → returned = 0 ∧ printed = .error .noInputFiles) ∧
    (¬ Session.Unused dir → ∃ kept errors, returned ≤ kept ∧ kept + errors ≤ returned + 1 ∧
      printed = .ok (some (((counted c world args reads).take kept).filter (Decode.passesFilter dargs)),
        .ofNat (kept + errors), .ofNat errors)) := by
  intro returned printed
  have hdata : (done ++ later).filterMap Op.data = (counted c world args reads).map (image c) :=
    hsplit ▸ (h.state hc).data
  have hfew := h.few
  rw [hsplit] at hfew
  rw [List.filterMap_append] at hdata hfew
  obtain ⟨rs, more, hcounted, hrs, hmore⟩ := List.map_eq_append_iff.1 hdata.symm
  have hlen : returned = rs.length := by rw [← List.length_map (image c), hrs]
  have hwritten := written_requests world.io done
  obtain ⟨files, tail, hstands, hsmall, hempty, htail, hfiles⟩ := files_cutOff hc world.dir
    (requests_succeed h.succeeds done) (hwritten.trans hrs.symm) hmore.symm (hwritten ▸ hfew) hcut
  have hread := hstands.read h.unused hsmall c hinspects
  have hnone := hstands.unused_iff h.unused
  have hprinted : printed = if files = [] then .error .noInputFiles
      else .ok (some (Decode.shown dargs (rs.map .ok ++ tail)), .ofNat (rs.map Except.ok ++ tail).length,
        .ofNat ((rs.map Except.ok ++ tail).countP (!Except.isOk ·))) := by
    show (Decode.main c disk dargs .json stats).map _ = _
    rw [Decode.main_json, hread, hfiles]
    split_ifs <;> rfl
  rw [hprinted, hcounted, hlen]
  refine ⟨fun hunused => ?_, fun hused => ?_⟩
  · have hnil := hnone.1 hunused
    rw [if_pos hnil, hempty hnil]
    exact ⟨rfl, rfl⟩
  · obtain ⟨kept, errors, hkept, hsum, hshown, hseen, hcount⟩ := htail.counts rs dargs
    rw [if_neg (fun hnil => hused (hnone.2 hnil)), hshown, hseen, hcount]
    exact ⟨kept, errors, hkept, hsum, rfl⟩

end

/-- A disk that takes three bytes of a write. -/
def shortIo : Io := ⟨.ok (), .ok (), some (3, .os 5)⟩

/-- The directory of a host that is killed in its second write, of which three bytes are there. -/
def killedDir : Dir :=
  (Session.step (sessionOf (calm [.ok twoFrames]).io plainArgs.segmentSize (calm [.ok twoFrames]).dir
    [.write (image Crates.documented (.v1 ⟨7, 0, 1, 0, .new⟩)) true])
    (.write (image Crates.documented (.v1 ⟨7, 1, 1, 0, .new⟩)), shortIo)).1.dir

/-- Killed in its second write, three bytes in; and killed before its first write has created a file. -/
theorem decode_after_kill_run :
    let printed (n : Nat) (dir : Dir) := (Decode.main Crates.documented (Session.diskOf (Session.ofFiles n dir))
      Session.decodeHere .json true).map
        (fun s => (Decode.readJson (Decode.output (fun _ _ => []) s.stdout), s.stats.totalSeen, s.stats.decodeErrors))
    (∃ kept errors, 1 ≤ kept ∧ kept + errors ≤ 2 ∧ printed 1 killedDir
      = .ok (some (([.v1 ⟨7, 0, 1, 0, .new⟩, .v1 ⟨7, 1, 1, 0, .new⟩] : List StoredRecord).take kept |>.filter
        (Decode.passesFilter Session.decodeHere)), .ofNat (kept + errors), .ofNat errors)) ∧
    printed 0 (fun _ => none) = .error .noInputFiles := by
  intro printed
  have hlogs : Host.Logs Crates.documented (calm [.ok twoFrames]) plainArgs [.ok twoFrames] _ :=
    logs_calm (show Host.Source.ofSpec plainArgs.input = some .stdin from rfl) (by decide +kernel)
  constructor
  · have hsplit : (calmRun Crates.documented plainArgs [.ok twoFrames]).storage.2
        = [Op.write (image Crates.documented (.v1 ⟨7, 0, 1, 0, .new⟩)) true]
          ++ [Op.write (image Crates.documented (.v1 ⟨7, 1, 1, 0, .new⟩)) true, .flush true, .flush true] := by
      decide +kernel
    have hcounted : counted Crates.documented (calm [.ok twoFrames]) plainArgs [.ok twoFrames]
        = [.v1 ⟨7, 0, 1, 0, .new⟩, .v1 ⟨7, 1, 1, 0, .new⟩] := by decide +kernel
    have hopens : shortIo.Opens := ⟨rfl, rfl⟩
    have hone : (Pack.pack List.length plainArgs.segmentSize (written (requests (calm [.ok twoFrames]).io
        [.write (image Crates.documented (.v1 ⟨7, 0, 1, 0, .new⟩)) true])
          ++ [image Crates.documented (.v1 ⟨7, 1, 1, 0, .new⟩)])).length = 1 := by decide +kernel
    have hroom := Nat.lt_of_le_of_lt (Nat.le_of_eq hone) (show 1 < 2 ^ 32 by decide)
    obtain ⟨init, last, hstands, hlen, -⟩ := stands_torn plainArgs.segmentSize (calm [.ok twoFrames]).dir
      (requests_succeed hlogs.succeeds _) hopens hroom
    rw [hone] at hlen
    obtain rfl : init = [] := List.length_eq_zero_iff.1 (Nat.succ.inj hlen)
    rw [← sessionOf, ← killedDir, List.nil_append] at hstands
    have hmounts := hstands.mounts (by rw [List.length_singleton]; decide) []
    have hcut : CutOff (sessionOf (calm [.ok twoFrames]).io plainArgs.segmentSize (calm [.ok twoFrames]).dir
        [.write (image Crates.documented (.v1 ⟨7, 0, 1, 0, .new⟩)) true])
        [.write (image Crates.documented (.v1 ⟨7, 1, 1, 0, .new⟩)) true, .flush true, .flush true] killedDir := by
      have hrequest : (Op.write (image Crates.documented (.v1 ⟨7, 1, 1, 0, .new⟩)) true).request = .write _ := rfl
      rw [killedDir, ← hrequest]
      exact .writing _ _ hopens
    have hkill := (decode_after_kill Crates.documented_standard hlogs hsplit hcut
      (show Host.Inspects (Session.diskOf (Session.ofFiles 1 killedDir)) killedDir Session.decodeHere from
        ⟨rfl, [], rfl, hmounts⟩) true (fun _ _ => [])).2
    rw [hcounted] at hkill
    refine hkill (fun hunused => ?_)
    exact List.cons_ne_nil _ _ ((hstands.unused_iff (fun _ _ => rfl)).1 hunused)
  · have hstands : Stands (fun _ => none) [] (fun _ => none) := stands_nil Crates.documented _
    have hkill := (decode_after_kill Crates.documented_standard hlogs (List.nil_append _).symm (.idle _)
      (show Host.Inspects (Session.diskOf (Session.ofFiles 0 fun _ => none)) (fun _ => none) Session.decodeHere from
        ⟨rfl, [], rfl, hstands.mounts (by decide) []⟩) true (fun _ _ => [])).1
    exact (hkill (fun _ _ => rfl)).2

end Telemetry
