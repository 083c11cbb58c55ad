import TelemetryLogger.Output
import TelemetryLogger.Lib.Json
import TelemetryLogger.Lib.Split
/-!
# Formats — what the output of `telemetry-decode` says

A reader of `JSON` gets the records shown back from the array and from the lines (`json_reads_back`).  The table says
less: two tables are the same exactly if their records differ at most in the bytes of a payload behind the eighth
(`table_shows`).
-/
namespace Telemetry

namespace Decode

/-! ## A reader of the output -/

/-- The characters of the output, where `draw` draws a table. -/
def output (draw : List (List Char) → List (List (List Char)) → List Char) (stdout : List Printed) : List Char :=
  stdout.flatMap (fun
    | .line text => text ++ ['\n']
    | .table header rows => draw header rows ++ ['\n'])

def number (fields : List (List Char × Json.Value)) (key : List Char) (bound : Nat) : Option Nat :=
  match fields.lookup key with
  | some (.num n) => if n < bound then some n else none
  | _ => none

/-- The payload of an object: its bytes, as many as the object says. -/
def payload (fields : List (List Char × Json.Value)) : Option (Heapless.Vec UInt8 maxPayload) :=
  match fields.lookup "payload_hex".toList, fields.lookup "payload_len".toList with
  | some (.str hex), some (.num len) =>
    match Hex.decode hex with
    | some bytes => if h : bytes.length ≤ maxPayload ∧ bytes.length = len then some ⟨bytes, h.1⟩ else none
    | none => none
  | _, _ => none

/-- The record that an object gives. -/
def readRecord : Json.Value → Option StoredRecord
  | .obj fields => do
    let sequence ← number fields "seq".toList UInt32.size
    let timestampUs ← number fields "ts_us".toList UInt64.size
    let packetType ← number fields "type".toList UInt8.size
    let severity ← number fields "severity".toList UInt8.size
    let payload ← payload fields
    return .v1 ⟨.ofNat timestampUs, .ofNat sequence, .ofNat packetType, .ofNat severity, payload⟩
  | _ => none

/-- The records of an array. -/
def readJson (text : List Char) : Option (List StoredRecord) :=
  match Json.parse text with
  | some (.arr values) => values.mapM readRecord
  | _ => none

def readLine (line : List Char) : Option StoredRecord := (Json.parse line).bind readRecord

/-- The records of the lines. -/
def readNdjson (text : List Char) : Option (List StoredRecord) := (Split.closed '\n' text).mapM readLine

/-! ## A record as an object -/

section

variable (v : RecordV1)

/-- The members of the object of a record. -/
def members : List Json.Member :=
  [⟨"seq".toList, decimal v.sequence.toNat, .num v.sequence.toNat⟩,
    ⟨"ts_us".toList, decimal v.timestampUs.toNat, .num v.timestampUs.toNat⟩,
    ⟨"type".toList, decimal v.packetType.toNat, .num v.packetType.toNat⟩,
    ⟨"type_name".toList, '"' :: (typeName v.packetType ++ ['"']), .str (typeName v.packetType)⟩,
    ⟨"severity".toList, decimal v.severity.toNat, .num v.severity.toNat⟩,
    ⟨"severity_name".toList, '"' :: (severityName v.severity ++ ['"']), .str (severityName v.severity)⟩,
    ⟨"payload_hex".toList, '"' :: (Hex.encode v.payload.toList ++ ['"']), .str (Hex.encode v.payload.toList)⟩,
    ⟨"payload_len".toList, decimal v.payload.len, .num v.payload.len⟩]

theorem recordToJson_eq :
    recordToJson (.v1 v) = '{' :: (List.intercalate [','] ((members v).map Json.Member.write) ++ ['}']) := by
  have hseq : "\x7b\"seq\":".toList = '{' :: '"' :: ("seq".toList ++ ['"', ':']) := rfl
  have hts : ",\"ts_us\":".toList = ',' :: '"' :: ("ts_us".toList ++ ['"', ':']) := rfl
  have htype : ",\"type\":".toList = ',' :: '"' :: ("type".toList ++ ['"', ':']) := rfl
  have htypeName : ",\"type_name\":\"".toList = ',' :: '"' :: ("type_name".toList ++ ['"', ':', '"']) := rfl
  have hseverity : "\",\"severity\":".toList = '"' :: ',' :: '"' :: ("severity".toList ++ ['"', ':']) := rfl
  have hseverityName : ",\"severity_name\":\"".toList
      = ',' :: '"' :: ("severity_name".toList ++ ['"', ':', '"']) := rfl
  have hpayload : "\",\"payload_hex\":\"".toList
      = '"' :: ',' :: '"' :: ("payload_hex".toList ++ ['"', ':', '"']) := rfl
  have hlen : "\",\"payload_len\":".toList = '"' :: ',' :: '"' :: ("payload_len".toList ++ ['"', ':']) := rfl
  have hclose : "\x7d".toList = ['}'] := rfl
  unfold recordToJson
  simp only [hseq, hts, htype, htypeName, hseverity, hseverityName, hpayload, hlen, hclose]
  unfold members Json.Member.write
  simp only [List.map_cons, List.map_nil, List.intercalate_cons_cons, List.intercalate_singleton]
  simp only [List.append_assoc, List.cons_append, List.nil_append]

theorem plain_typeName (raw : UInt8) : Json.Plain (typeName raw) := by
  unfold typeName
  split_ifs <;> decide

theorem plain_severityName (raw : UInt8) : Json.Plain (severityName raw) := by
  unfold severityName
  split_ifs <;> decide

theorem plain_hex (bs : List UInt8) : Json.Plain (Hex.encode bs) := by
  rw [Json.Plain, List.all_eq_true]
  intro c hc
  obtain ⟨n, hn, rfl⟩ := Hex.exists_of_mem_encode hc
  exact (by decide : ∀ n < 16, Json.isPlain (Nat.digitChar n) = true) n hn

/-- **The object is read as its members.** -/
theorem reads_record : Json.Reads (recordToJson (.v1 v)) (.obj ((members v).map (fun m => (m.key, m.value)))) := by
  rw [recordToJson_eq]
  apply Json.reads_obj
  unfold members
  simp only [List.forall_mem_cons]
  refine ⟨⟨by decide, Json.reads_num _⟩, ⟨by decide, Json.reads_num _⟩, ⟨by decide, Json.reads_num _⟩,
    ⟨by decide, Json.reads_str (plain_typeName _)⟩, ⟨by decide, Json.reads_num _⟩,
    ⟨by decide, Json.reads_str (plain_severityName _)⟩, ⟨by decide, Json.reads_str (plain_hex _)⟩,
    ⟨by decide, Json.reads_num _⟩, fun m hm => by cases hm⟩

theorem number_eq {fields : List (List Char × Json.Value)} {key : List Char} {n bound : Nat}
    (h : fields.lookup key = some (.num n)) (hn : n < bound) : number fields key bound = some n := by
  rw [number, h]
  exact if_pos hn

theorem payload_eq {fields : List (List Char × Json.Value)} (p : Heapless.Vec UInt8 maxPayload)
    (hhex : fields.lookup "payload_hex".toList = some (.str (Hex.encode p.toList)))
    (hlen : fields.lookup "payload_len".toList = some (.num p.len)) : payload fields = some p := by
  rw [payload, hhex, hlen]
  simp only [Hex.decode_encode]
  rw [dif_pos ⟨p.length_le, rfl⟩]

theorem readRecord_members : readRecord (.obj ((members v).map (fun m => (m.key, m.value)))) = some (.v1 v) := by
  rw [readRecord, number_eq rfl v.sequence.toNat_lt, number_eq rfl v.timestampUs.toNat_lt,
    number_eq rfl v.packetType.toNat_lt, number_eq rfl v.severity.toNat_lt, payload_eq v.payload rfl rfl]
  show some (StoredRecord.v1 _) = _
  rw [UInt64.ofNat_toNat, UInt32.ofNat_toNat, UInt8.ofNat_toNat, UInt8.ofNat_toNat]

theorem parse_record :
    Json.parse (recordToJson (.v1 v)) = some (.obj ((members v).map (fun m => (m.key, m.value)))) := by
  have hparse := Json.parse_of_reads (reads_record v)
    (show ∀ b ∈ [], Json.isBlank b = true from fun b hb => by cases hb)
  rwa [List.append_nil] at hparse

theorem newline_not_mem_record : '\n' ∉ recordToJson (.v1 v) := by
  have hdecimal : ∀ n, '\n' ∉ decimal n := fun n h => by
    cases Nat.isDigit_of_mem_toDigits (by decide) (by decide) h
  have hplain : ∀ {text}, Json.Plain text → '\n' ∉ text := fun h hmem => by
    cases List.all_eq_true.1 h _ hmem
  unfold recordToJson
  simp only [List.mem_append, not_or]
  exact ⟨⟨⟨⟨⟨⟨⟨⟨⟨⟨⟨⟨⟨⟨⟨⟨by decide, hdecimal _⟩, by decide⟩, hdecimal _⟩, by decide⟩, hdecimal _⟩, by decide⟩,
    hplain (plain_typeName _)⟩, by decide⟩, hdecimal _⟩, by decide⟩, hplain (plain_severityName _)⟩, by decide⟩,
    hplain (plain_hex _)⟩, by decide⟩, hdecimal _⟩, by decide⟩

end

/-! ## The array and the lines -/

variable (c : Crates) (disk : Disk) (args : Args) (stats : Bool)

/-- The object of a record. -/
def object : StoredRecord → Json.Value
  | .v1 v => .obj ((members v).map (fun m => (m.key, m.value)))

theorem readRecord_object (r : StoredRecord) : readRecord (object r) = some r := by
  cases r with
  | v1 v => exact readRecord_members v

theorem readLine_record (r : StoredRecord) : readLine (recordToJson r) = some r := by
  cases r with
  | v1 v =>
    rw [readLine, parse_record]
    exact readRecord_members v

/-- What is written element by element is read back. -/
theorem mapM_map_eq_some {α β : Type} {f : β → Option α} {g : α → β} (h : ∀ a, f (g a) = some a) (as : List α) :
    (as.map g).mapM f = some as := by
  rw [List.mapM_map]
  exact (mapM_eq_pure h as).trans (congrArg some (List.map_id' as))

theorem readJson_array (records : List StoredRecord) :
    readJson ("[".toList ++ List.intercalate ",\n ".toList (records.map recordToJson) ++ "]".toList ++ ['\n'])
      = some records := by
  have hblank : ∀ b ∈ ['\n', ' '], Json.isBlank b = true := List.all_eq_true.1 rfl
  have hrecords : ∀ t ∈ records.map (fun r => (recordToJson r, object r)), Json.Reads t.1 t.2 := by
    intro t ht
    obtain ⟨⟨v⟩, -, rfl⟩ := List.mem_map.1 ht
    exact reads_record v
  have hread := Json.parse_of_reads (Json.reads_arr hblank hrecords)
    (show ∀ b ∈ ['\n'], Json.isBlank b = true from List.all_eq_true.1 rfl)
  rw [List.map_map, List.map_map] at hread
  have hparse : Json.parse ("[".toList ++ List.intercalate ",\n ".toList (records.map recordToJson) ++ "]".toList
      ++ ['\n']) = some (.arr (records.map object)) := hread
  rw [readJson, hparse]
  exact mapM_map_eq_some readRecord_object records

theorem readNdjson_lines (records : List StoredRecord) :
    readNdjson ((records.map recordToJson).flatMap (· ++ ['\n'])) = some records := by
  have hlines : ∀ line ∈ records.map recordToJson, '\n' ∉ line := by
    intro line hline
    obtain ⟨⟨v⟩, -, rfl⟩ := List.mem_map.1 hline
    exact newline_not_mem_record v
  rw [readNdjson, Split.closed_terminated _ _ hlines]
  exact mapM_map_eq_some readLine_record records

theorem map_some_decodeAll :
    (decodeAll c disk args).map some = (read c disk args).map (fun rs => some (shown args rs)) := by
  rw [decodeAll_eq]
  cases read c disk args <;> rfl

theorem readJson_emit (draw : List (List Char) → List (List (List Char)) → List Char) (paths : List PathBuf) :
    readJson (output draw (emit .json (gathered args .json c disk paths)).stdout)
      = some (shown args (paths.flatMap (results c disk))) := by
  have hout : (emit .json (gathered args .json c disk paths)).stdout = [.line ("[".toList ++
      List.intercalate ",\n ".toList ((shown args (paths.flatMap (results c disk))).map recordToJson)
        ++ "]".toList)] := rfl
  rw [hout, output, List.flatMap_singleton]
  exact readJson_array _

theorem readJson_main (draw : List (List Char) → List (List (List Char)) → List Char) :
    (main c disk args .json stats).map (fun s => readJson (output draw s.stdout))
      = (decodeAll c disk args).map some := by
  rw [map_some_decodeAll]
  exact map_main args .json c disk stats (fun s stderr => rfl) (readJson_emit c disk args draw)

theorem readNdjson_main (draw : List (List Char) → List (List (List Char)) → List Char) :
    (main c disk args .ndjson stats).map (fun s => readNdjson (output draw s.stdout))
      = (decodeAll c disk args).map some := by
  rw [map_some_decodeAll]
  apply map_main args .ndjson c disk stats (fun s stderr => rfl)
  intro paths
  have hout : output draw (emit .ndjson (gathered args .ndjson c disk paths)).stdout
      = ((shown args (paths.flatMap (results c disk))).map recordToJson).flatMap (· ++ ['\n']) := by
    rw [List.flatMap_map]
    exact (List.flatMap_map _ _ _ : ((shown args _).map (fun r => Printed.line (recordToJson r))).flatMap _ = _)
  rw [hout]
  exact readNdjson_lines _

/-- **Readers of the array and of the lines get the records shown**, and nothing else. -/
theorem json_reads_back (draw : List (List Char) → List (List (List Char)) → List Char) :
    (main c disk args .json stats).map (fun s => readJson (output draw s.stdout))
        = (decodeAll c disk args).map some ∧
      (main c disk args .ndjson stats).map (fun s => readNdjson (output draw s.stdout))
        = (decodeAll c disk args).map some :=
  ⟨readJson_main c disk args stats draw, readNdjson_main c disk args stats draw⟩

/-! ## The table -/

/-- Records with the same row: they differ at most in the bytes of a payload behind the eighth. -/
def Alike : StoredRecord → StoredRecord → Prop
  | .v1 v, .v1 w =>
    v.sequence = w.sequence ∧ v.timestampUs = w.timestampUs ∧ v.packetType = w.packetType ∧ v.severity = w.severity ∧
      v.payload.len = w.payload.len ∧ v.payload.toList.take 8 = w.payload.toList.take 8

theorem decimal_injective {n n' : Nat} (h : decimal n = decimal n') : n = n' := by
  have hvalue := fun n => show Decimal.value (decimal n) = n from Nat.ofDigitChars_ten_toDigits
  rw [← hvalue n, h, hvalue]

theorem pair_injective {b b' : UInt8} (h : Hex.pair b = Hex.pair b') : b = b' := by
  have hencode : Hex.encode [b] = Hex.encode [b'] := by
    rw [Hex.encode, List.flatMap_singleton, Hex.encode, List.flatMap_singleton, h]
  exact (List.cons.inj (Hex.encode_injective hencode)).1

/-- A byte as a cell shows it, before its name. -/
theorem cell_injective {b b' : UInt8} {t t' : List Char} (h : Hex.pair b ++ t = Hex.pair b' ++ t') : b = b' :=
  pair_injective (List.append_inj h rfl).1

/-- The words of a payload, as a cell shows it. -/
def words (payload : List UInt8) : List (List Char) :=
  if payload.length > 8 then
    (payload.take 8).map Hex.pair ++ ["…".toList, '(' :: decimal payload.length, "bytes)".toList]
  else if payload.isEmpty then ["(empty)".toList]
  else payload.map Hex.pair

theorem intercalate_append (sep : List Char) : ∀ {xs ys : List (List Char)}, xs ≠ [] → ys ≠ [] →
    List.intercalate sep (xs ++ ys) = List.intercalate sep xs ++ sep ++ List.intercalate sep ys
  | [], _, hxs, _ => absurd rfl hxs
  | [x], [], _, hys => absurd rfl hys
  | [x], y :: ys, _, _ => by
    rw [List.singleton_append, List.intercalate_cons_cons, List.intercalate_singleton]
  | x :: x' :: xs, ys, _, hys => by
    have ih := intercalate_append sep (List.cons_ne_nil x' xs) hys
    rw [List.cons_append, List.cons_append, List.intercalate_cons_cons, ← List.cons_append, ih,
      List.intercalate_cons_cons]
    simp only [List.append_assoc]

/-- **A cell is its words with blanks between them.** -/
theorem payloadPreview_eq (payload : List UInt8) :
    payloadPreview payload = List.intercalate [' '] (words payload) := by
  unfold payloadPreview words
  by_cases hlong : payload.length > 8
  · have hne : (payload.take 8).map Hex.pair ≠ [] := by
      rw [Ne, List.map_eq_nil_iff, List.take_eq_nil_iff]
      rintro (h | h)
      · cases h
      · rw [h] at hlong
        cases hlong
    have htail : List.intercalate [' '] ["…".toList, '(' :: decimal payload.length, "bytes)".toList]
        = "… (".toList ++ decimal payload.length ++ " bytes)".toList := by
      rw [List.intercalate_cons_cons, List.intercalate_cons_cons, List.intercalate_singleton]
      have hopen : "… (".toList = "…".toList ++ [' ', '('] := rfl
      have hclose : " bytes)".toList = ' ' :: "bytes)".toList := rfl
      rw [hopen, hclose]
      simp only [List.append_assoc, List.cons_append, List.nil_append]
    rw [if_pos hlong, if_pos hlong, intercalate_append _ hne (List.cons_ne_nil _ _), htail,
      Nat.min_eq_right (Nat.le_of_lt hlong)]
    have hspace : " … (".toList = [' '] ++ "… (".toList := rfl
    rw [hspace]
    simp only [List.append_assoc]
  · rw [if_neg hlong, if_neg hlong, Nat.min_eq_left (Nat.not_lt.1 hlong), List.take_length]
    split_ifs
    · rfl
    · rfl

theorem words_ne_nil (payload : List UInt8) : words payload ≠ [] := by
  unfold words
  split_ifs with hlong hempty
  · simp
  · simp
  · simpa using hempty

theorem blank_not_mem_pair (b : UInt8) : ' ' ∉ Hex.pair b := by
  intro h
  have hmem : ' ' ∈ Hex.encode [b] := by rwa [Hex.encode, List.flatMap_singleton]
  obtain ⟨n, hn, heq⟩ := Hex.exists_of_mem_encode hmem
  exact (by decide : ∀ n < 16, ' ' ≠ Nat.digitChar n) n hn heq

theorem blank_not_mem_words {payload : List UInt8} : ∀ word ∈ words payload, ' ' ∉ word := by
  have hpairs : ∀ (bs : List UInt8), ∀ word ∈ bs.map Hex.pair, ' ' ∉ word := by
    intro bs word hword
    obtain ⟨b, -, rfl⟩ := List.mem_map.1 hword
    exact blank_not_mem_pair b
  have hdecimal : ∀ n, ' ' ∉ decimal n := fun n h => by
    cases Nat.isDigit_of_mem_toDigits (by decide) (by decide) h
  unfold words
  split_ifs
  · intro word hword
    rcases List.mem_append.1 hword with hword | hword
    · exact hpairs _ word hword
    · simp only [List.mem_cons, List.not_mem_nil, or_false] at hword
      rcases hword with rfl | rfl | rfl
      · decide
      · rw [List.mem_cons, not_or]
        exact ⟨by decide, hdecimal _⟩
      · decide
  · intro word hword
    rw [List.mem_singleton.1 hword]
    decide
  · exact hpairs _

theorem words_eq {p q : List UInt8} (h : payloadPreview p = payloadPreview q) : words p = words q := by
  rw [payloadPreview_eq, payloadPreview_eq] at h
  rw [← List.splitOn_intercalate ' ' blank_not_mem_words (words_ne_nil p), h,
    List.splitOn_intercalate ' ' blank_not_mem_words (words_ne_nil q)]

theorem map_pair_injective {p q : List UInt8} (h : p.map Hex.pair = q.map Hex.pair) : p = q :=
  List.map_injective_iff.2 (fun _ _ => pair_injective) h

theorem words_of_lt {p : List UInt8} (h : 8 < p.length) :
    words p = (p.take 8).map Hex.pair ++ ["…".toList, '(' :: decimal p.length, "bytes)".toList] := if_pos h

theorem words_of_le {p : List UInt8} (h : p.length ≤ 8) :
    words p = if p.isEmpty then ["(empty)".toList] else p.map Hex.pair := if_neg (Nat.not_lt.2 h)

theorem length_words_of_le {p : List UInt8} (h : p.length ≤ 8) : (words p).length ≤ 8 := by
  rw [words_of_le h]
  split_ifs
  · exact (by decide : 1 ≤ 8)
  · rwa [List.length_map]

/-- The word for no bytes is none of the pairs. -/
theorem empty_ne_map (p : List UInt8) : ["(empty)".toList] ≠ p.map Hex.pair := by
  intro h
  cases p with
  | nil => cases h
  | cons b p =>
    have hlen := congrArg List.length (List.cons.inj h).1
    cases hlen

/-- **Short payloads are shown in full.** -/
theorem words_injective_of_le {p q : List UInt8} (hp : p.length ≤ 8) (hq : q.length ≤ 8) (h : words p = words q) :
    p = q := by
  rw [words_of_le hp, words_of_le hq] at h
  split_ifs at h with hpe hqe hqe
  · rw [List.isEmpty_iff.1 hpe, List.isEmpty_iff.1 hqe]
  · exact absurd h (empty_ne_map q)
  · exact absurd h.symm (empty_ne_map p)
  · exact map_pair_injective h

theorem words_of_lt_ne {p q : List UInt8} (hp : 8 < p.length) (hq : q.length ≤ 8) : words p ≠ words q := by
  intro h
  have hlen := length_words_of_le hq
  rw [← h, words_of_lt hp, List.length_append, List.length_map, List.length_take_of_le (Nat.le_of_lt hp)] at hlen
  simp at hlen

/-- **Payloads look the same** exactly if they have as many bytes and start with the same eight. -/
theorem payloadPreview_eq_iff (p q : List UInt8) :
    payloadPreview p = payloadPreview q ↔ p.length = q.length ∧ p.take 8 = q.take 8 := by
  constructor
  · intro h
    have hwords := words_eq h
    rcases Nat.lt_or_ge 8 p.length with hp | hp <;> rcases Nat.lt_or_ge 8 q.length with hq | hq
    · rw [words_of_lt hp, words_of_lt hq] at hwords
      have hlen : ((p.take 8).map Hex.pair).length = ((q.take 8).map Hex.pair).length := by
        rw [List.length_map, List.length_map, List.length_take_of_le (Nat.le_of_lt hp),
          List.length_take_of_le (Nat.le_of_lt hq)]
      obtain ⟨hpairs, htail⟩ := List.append_inj hwords hlen
      have hcount := (List.cons.inj (List.cons.inj (List.cons.inj htail).2).1).2
      exact ⟨decimal_injective hcount, map_pair_injective hpairs⟩
    · exact absurd hwords (words_of_lt_ne hp hq)
    · exact absurd hwords.symm (words_of_lt_ne hq hp)
    · rw [words_injective_of_le hp hq hwords]
      exact ⟨rfl, rfl⟩
  · rintro ⟨hlen, htake⟩
    rcases Nat.lt_or_ge 8 p.length with hp | hp
    · rw [payloadPreview_eq, payloadPreview_eq, words_of_lt hp, words_of_lt (hlen ▸ hp), hlen, htake]
    · rw [List.take_of_length_le hp, List.take_of_length_le (hlen ▸ hp)] at htake
      rw [htake]

theorem tableRow_eq_iff : ∀ r r' : StoredRecord, tableRow r = tableRow r' ↔ Alike r r'
  | .v1 v, .v1 w => by
    constructor
    · intro h
      simp only [tableRow, List.cons.injEq, and_true, List.append_assoc] at h
      obtain ⟨hseq, hts, htype, hseverity, hpayload⟩ := h
      obtain ⟨hlen, htake⟩ := (payloadPreview_eq_iff _ _).1 hpayload
      exact ⟨UInt32.toNat_inj.1 (decimal_injective hseq), UInt64.toNat_inj.1 (decimal_injective hts),
        cell_injective htype, cell_injective hseverity, hlen, htake⟩
    · rintro ⟨hseq, hts, htype, hseverity, hlen, htake⟩
      rw [tableRow, tableRow, hseq, hts, htype, hseverity, (payloadPreview_eq_iff _ _).2 ⟨hlen, htake⟩]

theorem map_tableRow_eq_iff : ∀ rs rs' : List StoredRecord,
    rs.map tableRow = rs'.map tableRow ↔ List.Forall₂ Alike rs rs'
  | [], [] => by simp
  | [], r' :: rs' => by simp
  | r :: rs, [] => by simp
  | r :: rs, r' :: rs' => by
    rw [List.map_cons, List.map_cons, List.cons.injEq, List.forall₂_cons, tableRow_eq_iff, map_tableRow_eq_iff rs rs']

/-- **The table has one row for each record shown**, and two tables are the same exactly if their records differ at most
in the bytes of a payload behind the eighth. -/
theorem table_shows : (main c disk args .table stats).map State.stdout = (decodeAll c disk args).map
      (fun rs => if rs.isEmpty then [] else [.table tableHeader (rs.map tableRow)]) ∧
    ∀ rs rs', [Printed.table tableHeader (rs.map tableRow)] = [.table tableHeader (rs'.map tableRow)]
      ↔ List.Forall₂ Alike rs rs' := by
  constructor
  · have hmap : (decodeAll c disk args).map (fun rs => if rs.isEmpty then [] else
        [Printed.table tableHeader (rs.map tableRow)]) = (read c disk args).map (fun rs =>
          if (shown args rs).isEmpty then [] else [.table tableHeader ((shown args rs).map tableRow)]) := by
      rw [decodeAll_eq]
      cases read c disk args <;> rfl
    rw [hmap]
    apply map_main args .table c disk stats (fun s stderr => rfl)
    intro paths
    have hrows : (gathered args .table c disk paths).tableRows = shown args (paths.flatMap (results c disk)) := rfl
    unfold emit printTable
    simp only [hrows]
    split_ifs <;> rfl
  · intro rs rs'
    rw [← map_tableRow_eq_iff]
    simp

end Decode

end Telemetry
