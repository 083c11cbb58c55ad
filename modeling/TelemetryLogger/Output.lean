import TelemetryLogger.Decode
import TelemetryLogger.Lib.Hex
/-!
# Output — what `telemetry-decode` prints

The tool prints the records that pass its filter as a table, as a `JSON` array, or as one `JSON` object on each line,
and counts what it saw.  Its loops add the results of one file after another (`foldl_add`), whatever the format, so its
counters are those of what was read (`stats_main`).
-/
namespace Telemetry

namespace Decode

inductive Format
  | table | json | ndjson
  deriving DecidableEq

/-! ## The tool -/

structure DecodeStats where
  totalSeen : UInt64
  decodeErrors : UInt64
  passedFilter : UInt64
  byType : Vector UInt64 6
  bySeverity : Vector UInt64 5
  deriving DecidableEq

namespace DecodeStats

def default : DecodeStats := ⟨0, 0, 0, Vector.replicate 6 0, Vector.replicate 5 0⟩

def recordSeen (s : DecodeStats) (ok : Bool) : DecodeStats :=
  let s := { s with totalSeen := s.totalSeen + 1 }
  if !ok then { s with decodeErrors := s.decodeErrors + 1 } else s

/-- A counter of an array, if there is one. -/
def bump {n : Nat} (counts : Vector UInt64 n) (raw : UInt8) : Vector UInt64 n :=
  if h : raw.toNat < n then counts.set raw.toNat (counts[raw.toNat] + 1) else counts

def recordPassed (s : DecodeStats) (ptype severity : UInt8) : DecodeStats :=
  { s with
    passedFilter := s.passedFilter + 1
    byType := bump s.byType ptype
    bySeverity := bump s.bySeverity severity }

end DecodeStats

def typeName (raw : UInt8) : List Char :=
  if raw = 0x01 then "Heartbeat".toList
  else if raw = 0x02 then "SensorData".toList
  else if raw = 0x03 then "Event".toList
  else if raw = 0x04 then "Diagnostic".toList
  else if raw = 0x05 then "Control".toList
  else "Unknown".toList

def severityName (raw : UInt8) : List Char :=
  if raw = 0x00 then "Debug".toList
  else if raw = 0x01 then "Info".toList
  else if raw = 0x02 then "Warning".toList
  else if raw = 0x03 then "Error".toList
  else if raw = 0x04 then "Fatal".toList
  else "Unknown".toList

/-- A number as `{}` prints it. -/
def decimal (n : Nat) : List Char := Nat.toDigits 10 n

def payloadPreview (payload : List UInt8) : List Char :=
  let shown := min payload.length 8
  let hex := List.intercalate [' '] ((payload.take shown).map Hex.pair)
  if payload.length > 8 then hex ++ " … (".toList ++ decimal payload.length ++ " bytes)".toList
  else if payload.isEmpty then "(empty)".toList
  else hex

def recordToJson : StoredRecord → List Char
  | .v1 v =>
    "\x7b\"seq\":".toList ++ decimal v.sequence.toNat ++ ",\"ts_us\":".toList ++ decimal v.timestampUs.toNat
      ++ ",\"type\":".toList ++ decimal v.packetType.toNat ++ ",\"type_name\":\"".toList ++ typeName v.packetType
      ++ "\",\"severity\":".toList ++ decimal v.severity.toNat ++ ",\"severity_name\":\"".toList
      ++ severityName v.severity ++ "\",\"payload_hex\":\"".toList ++ Hex.encode v.payload.toList
      ++ "\",\"payload_len\":".toList ++ decimal v.payload.len ++ "\x7d".toList

/-- The cells of a row of the table. -/
def tableRow : StoredRecord → List (List Char)
  | .v1 v =>
    [decimal v.sequence.toNat, decimal v.timestampUs.toNat,
      Hex.pair v.packetType ++ " (".toList ++ typeName v.packetType ++ ")".toList,
      Hex.pair v.severity ++ " (".toList ++ severityName v.severity ++ ")".toList,
      payloadPreview v.payload.toList]

def tableHeader : List (List Char) :=
  ["Seq".toList, "Timestamp (μs)".toList, "Type".toList, "Severity".toList, "Payload".toList]

/-- What goes to the standard output: a line, or a table, which another library draws. -/
inductive Printed
  | line (text : List Char)
  | table (header : List (List Char)) (rows : List (List (List Char)))
  deriving DecidableEq

/-- What goes to the standard error. -/
inductive Message
  | cannotRead (path : PathBuf) (e : IoError)
  | decodeError (path : PathBuf) (e : Error)
  | noRecords
  | statistics (s : DecodeStats)
  deriving DecidableEq

structure State where
  stats : DecodeStats
  tableRows : List StoredRecord
  jsonRecords : List (List Char)
  stdout : List Printed
  stderr : List Message

section

variable (c : Crates) (disk : Disk) (args : Args) (format : Format)

/-- The loop over the results of one file. -/
def onResult (path : PathBuf) (s : State) (result : Except Error StoredRecord) : State :=
  let s := { s with stats := s.stats.recordSeen result.isOk }
  match result with
  | .error e => { s with stderr := s.stderr ++ [.decodeError path e] }
  | .ok record =>
    if !passesFilter args record then s
    else
      match record with
      | .v1 v =>
        let s := { s with stats := s.stats.recordPassed v.packetType v.severity }
        match format with
        | .ndjson => { s with stdout := s.stdout ++ [.line (recordToJson record)] }
        | .json => { s with jsonRecords := s.jsonRecords ++ [recordToJson record] }
        | .table => { s with tableRows := s.tableRows ++ [record] }

/-- The loop over the paths. -/
def onPath (s : State) (path : PathBuf) : State :=
  match readSegmentFile c disk path with
  | .error e => { s with stderr := s.stderr ++ [.cannotRead path e] }
  | .ok records => records.foldl (onResult args format path) s

def printTable (s : State) : State :=
  if s.tableRows.isEmpty then { s with stderr := s.stderr ++ [.noRecords] }
  else { s with stdout := s.stdout ++ [.table tableHeader (s.tableRows.map tableRow)] }

/-- Behind the loop. -/
def emit (s : State) : State :=
  match format with
  | .table => printTable s
  | .json => { s with
      stdout := s.stdout ++ [.line ("[".toList ++ List.intercalate ",\n ".toList s.jsonRecords ++ "]".toList)] }
  | .ndjson => s

def main (stats : Bool) : Except Failure State :=
  match decodePaths disk args with
  | .error e => .error e
  | .ok paths =>
    if paths.isEmpty then .error .noInputFiles
    else
      let s := emit format (paths.foldl (onPath c disk args format) ⟨.default, [], [], [], []⟩)
      .ok (if stats then { s with stderr := s.stderr ++ [.statistics s.stats] } else s)

end

/-! ## A run of the tool -/

/-- The results of the records of a file. -/
def results (c : Crates) (disk : Disk) (path : PathBuf) : List (Except Error StoredRecord) :=
  match readSegmentFile c disk path with
  | .error _ => []
  | .ok records => records

/-- The results of the records of every file, in order. -/
def read (c : Crates) (disk : Disk) (args : Args) : Except Failure (List (Except Error StoredRecord)) :=
  match decodePaths disk args with
  | .error e => .error e
  | .ok paths => if paths.isEmpty then .error .noInputFiles else .ok (paths.flatMap (results c disk))

/-- The warning that one result gives. -/
def warning (path : PathBuf) : Except Error StoredRecord → List Message
  | .error e => [.decodeError path e]
  | .ok _ => []

/-- The warnings of a file. -/
def warnings (c : Crates) (disk : Disk) (path : PathBuf) : List Message :=
  match readSegmentFile c disk path with
  | .error e => [.cannotRead path e]
  | .ok records => records.flatMap (warning path)

def packetType : StoredRecord → Nat
  | .v1 v => v.packetType.toNat

def severity : StoredRecord → Nat
  | .v1 v => v.severity.toNat

/-- The counters after some more results, of which some records are shown. -/
def DecodeStats.tally (s : DecodeStats) (rs : List (Except Error StoredRecord)) (kept : List StoredRecord) :
    DecodeStats where
  totalSeen := s.totalSeen + .ofNat rs.length
  decodeErrors := s.decodeErrors + .ofNat (rs.countP (!·.isOk))
  passedFilter := s.passedFilter + .ofNat kept.length
  byType := Vector.ofFn (fun i => s.byType[i] + .ofNat (kept.countP (packetType · = i)))
  bySeverity := Vector.ofFn (fun i => s.bySeverity[i] + .ofNat (kept.countP (severity · = i)))

/-- The state after some more results, with their warnings. -/
def State.add (args : Args) (format : Format) (s : State) (rs : List (Except Error StoredRecord))
    (warnings : List Message) : State where
  stats := s.stats.tally rs (shown args rs)
  tableRows := s.tableRows ++ if format = .table then shown args rs else []
  jsonRecords := s.jsonRecords ++ if format = .json then (shown args rs).map recordToJson else []
  stdout := s.stdout ++ if format = .ndjson then (shown args rs).map (fun r => .line (recordToJson r)) else []
  stderr := s.stderr ++ warnings

theorem DecodeStats.tally_tally (s : DecodeStats) (rs rs' : List (Except Error StoredRecord))
    (kept kept' : List StoredRecord) : (s.tally rs kept).tally rs' kept' = s.tally (rs ++ rs') (kept ++ kept') := by
  unfold DecodeStats.tally
  simp [UInt64.ofNat_add, UInt64.add_assoc]

theorem shown_append (args : Args) (rs rs' : List (Except Error StoredRecord)) :
    shown args (rs ++ rs') = shown args rs ++ shown args rs' := by
  rw [shown, List.filterMap_append, List.filter_append]
  rfl

variable (args : Args) (format : Format)

theorem State.add_add (s : State) (rs rs' : List (Except Error StoredRecord)) (ws ws' : List Message) :
    (s.add args format rs ws).add args format rs' ws' = s.add args format (rs ++ rs') (ws ++ ws') := by
  unfold State.add
  simp only [DecodeStats.tally_tally, shown_append, List.append_assoc, List.map_append]
  split_ifs <;> simp

theorem DecodeStats.tally_nil (s : DecodeStats) : s.tally [] [] = s := by
  cases s
  simp [tally]

theorem State.add_warnings (s : State) (ws : List Message) :
    s.add args format [] ws = { s with stderr := s.stderr ++ ws } := by
  have hstats := s.stats.tally_nil
  cases s
  simp_all [add, shown]

theorem State.add_nil (s : State) : s.add args format [] [] = s := by
  rw [State.add_warnings, List.append_nil]

/-- **A loop that adds results at every step.** -/
theorem foldl_add {α : Type} {f : State → α → State} {rs : α → List (Except Error StoredRecord)}
    {ws : α → List Message} (h : ∀ s a, f s a = s.add args format (rs a) (ws a)) :
    ∀ (xs : List α) (s : State), xs.foldl f s = s.add args format (xs.flatMap rs) (xs.flatMap ws)
  | [], s => (s.add_nil args format).symm
  | a :: xs, s => by
    rw [List.foldl_cons, foldl_add h xs, h, State.add_add]
    rfl

/-- A counter goes up if it is the one named. -/
theorem DecodeStats.bump_eq {n : Nat} (counts : Vector UInt64 n) {raw : UInt8} {r : StoredRecord}
    {key : StoredRecord → Nat} (hraw : raw.toNat = key r) :
    bump counts raw = Vector.ofFn (fun i => counts[i] + .ofNat ([r].countP (key · = i))) := by
  ext i hi
  rw [Vector.getElem_ofFn, List.countP_singleton]
  simp only [decide_eq_true_eq, ← hraw]
  unfold bump
  split
  · rw [Vector.getElem_set]
    split_ifs with heq
    · subst heq
      rfl
    · simp
  · rename_i hout
    have hne : raw.toNat ≠ i := fun heq => hout (heq.trans_lt hi)
    rw [if_neg hne]
    simp

theorem DecodeStats.recordSeen_error (s : DecodeStats) : s.recordSeen false = s.tally [.error .codec] [] := by
  cases s
  simp [recordSeen, tally, Except.isOk, Except.toBool]

theorem DecodeStats.recordSeen_ok (s : DecodeStats) (r : StoredRecord) : s.recordSeen true = s.tally [.ok r] [] := by
  cases s
  simp [recordSeen, tally, Except.isOk, Except.toBool]

theorem DecodeStats.recordPassed_eq (s : DecodeStats) (v : RecordV1) :
    s.recordPassed v.packetType v.severity = s.tally [] [.v1 v] := by
  have htype := bump_eq s.byType (show v.packetType.toNat = packetType (.v1 v) from rfl)
  have hseverity := bump_eq s.bySeverity (show v.severity.toNat = severity (.v1 v) from rfl)
  rw [recordPassed, tally, htype, hseverity]
  simp

/-- **One result.** -/
theorem onResult_eq (path : PathBuf) (s : State) (result : Except Error StoredRecord) :
    onResult args format path s result = s.add args format [result] (warning path result) := by
  cases result with
  | error e =>
    have hshown : shown args [.error e] = [] := rfl
    unfold onResult State.add
    rw [hshown]
    cases s
    simp [DecodeStats.recordSeen_error, Except.isOk, Except.toBool, DecodeStats.tally, warning]
  | ok record =>
    obtain ⟨v⟩ := record
    have hshown : shown args [.ok (.v1 v)] = if passesFilter args (.v1 v) then [.v1 v] else [] := by
      unfold shown
      rw [show [Except.ok (StoredRecord.v1 v)].filterMap Except.toOption = [.v1 v] from rfl, List.filter_singleton]
      exact Bool.cond_eq_ite _ _ _
    unfold onResult State.add
    rw [hshown]
    have hseen : s.stats.recordSeen (Except.ok (StoredRecord.v1 v) : Except Error StoredRecord).isOk
        = s.stats.tally [.ok (.v1 v)] [] := DecodeStats.recordSeen_ok _ _
    by_cases hpass : passesFilter args (.v1 v) = true
    · rw [if_pos hpass, hseen]
      simp only [hpass, Bool.not_true, Bool.false_eq_true, if_false, DecodeStats.recordPassed_eq,
        DecodeStats.tally_tally, List.append_nil, List.nil_append]
      cases format <;> simp [warning]
    · rw [if_neg hpass, hseen]
      simp [hpass, warning]

/-- **One file.** -/
theorem onPath_eq (c : Crates) (disk : Disk) (s : State) (path : PathBuf) :
    onPath c disk args format s path = s.add args format (results c disk path) (warnings c disk path) := by
  unfold onPath results warnings
  cases readSegmentFile c disk path with
  | error e => exact (s.add_warnings args format _).symm
  | ok records =>
    simp only
    rw [foldl_add args format (onResult_eq args format path), List.flatMap_singleton']

variable (c : Crates) (disk : Disk) (stats : Bool)

/-- What the loop leaves. -/
def gathered (paths : List PathBuf) : State :=
  (State.mk .default [] [] [] []).add args format (paths.flatMap (results c disk)) (paths.flatMap (warnings c disk))

theorem main_eq : main c disk args format stats = match decodePaths disk args with
    | .error e => .error e
    | .ok paths =>
      if paths.isEmpty then .error .noInputFiles
      else
        let s := emit format (gathered args format c disk paths)
        .ok (if stats then { s with stderr := s.stderr ++ [.statistics s.stats] } else s) := by
  unfold main gathered
  simp only [foldl_add args format (onPath_eq args format c disk)]

/-- What every run leaves, if the loop and what is behind it leave it. -/
theorem map_main {β : Type} {f : State → β} {g : List (Except Error StoredRecord) → β}
    (hstderr : ∀ s stderr, f { s with stderr } = f s)
    (h : ∀ paths, f (emit format (gathered args format c disk paths)) = g (paths.flatMap (results c disk))) :
    (main c disk args format stats).map f = (read c disk args).map g := by
  rw [main_eq, read]
  cases decodePaths disk args with
  | error e => rfl
  | ok paths =>
    simp only
    cases paths.isEmpty with
    | true => rfl
    | false =>
      rw [if_neg Bool.false_ne_true, if_neg Bool.false_ne_true]
      show Except.ok (f (if stats then _ else _)) = .ok (g _)
      rw [← h]
      split_ifs
      · rw [hstderr]
      · rfl

theorem decodeAll_eq : decodeAll c disk args = (read c disk args).map (shown args) := by
  have hfile : ∀ path, decodeFile c disk args path = shown args (results c disk path) := by
    intro path
    unfold decodeFile results
    cases readSegmentFile c disk path with
    | error e => rfl
    | ok records => rfl
  rw [decodeAll, read]
  cases decodePaths disk args with
  | error e => rfl
  | ok paths =>
    simp only
    cases paths.isEmpty with
    | true => rfl
    | false =>
      rw [if_neg Bool.false_ne_true, if_neg Bool.false_ne_true, funext hfile]
      show Except.ok _ = Except.ok (shown args _)
      rw [shown, List.filterMap_flatMap, List.filter_flatMap]
      rfl

theorem stats_emit (paths : List PathBuf) : (emit format (gathered args format c disk paths)).stats
    = DecodeStats.default.tally (paths.flatMap (results c disk)) (shown args (paths.flatMap (results c disk))) := by
  cases format with
  | json => rfl
  | ndjson => rfl
  | table =>
    unfold emit printTable
    split_ifs <;> rfl

end Decode

end Telemetry
