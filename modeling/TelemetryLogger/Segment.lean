import TelemetryLogger.Record
import TelemetryLogger.Lib.Split
import Mathlib.Control.Monad.Basic
/-!
# Segment — reading a segment back (`telemetry-std`, `read_segment`)

A segment is read chunk by chunk, each ended by a zero.  Records and garbage are told apart by the decoder alone
(`readSegment_items`), and a segment cut anywhere gives its whole records and at most one error
(`readSegment_truncated`).  What a newer writer appends to a record is not looked at, and its own variants are one error
each (`readSegment_evolved`).
-/
namespace Telemetry

open Record (encode decode body image)

/-- `read_segment`, its iterator collected. -/
def readSegment (c : Crates) (bytes : List UInt8) : List (Except Error StoredRecord) :=
  ((bytes.splitOn 0x00).filter (fun chunk => !chunk.isEmpty)).map (decode c)

def readChunk (c : Crates) (p : List UInt8) : List (Except Error StoredRecord) :=
  if p = [] then [] else [decode c p]

variable {c : Crates}

theorem readChunk_nil : readChunk c [] = [] := if_pos rfl

theorem readChunk_of_ne_nil {p : List UInt8} (hp : p ≠ []) : readChunk c p = [decode c p] := if_neg hp

theorem filter_map_chunk (p : List UInt8) (ps : List (List UInt8)) :
    ((p :: ps).filter (fun chunk => !chunk.isEmpty)).map (decode c)
      = readChunk c p ++ (ps.filter (fun chunk => !chunk.isEmpty)).map (decode c) := by
  cases p with
  | nil => rfl
  | cons x xs => rfl

/-- **The first chunk, then the rest of the segment.** -/
theorem readSegment_cut {p : List UInt8} (xs : List UInt8) (hp : 0 ∉ p) :
    readSegment c (p ++ 0 :: xs) = readChunk c p ++ readSegment c xs := by
  rw [readSegment, List.splitOn_append_cons_self_of_not_mem hp, filter_map_chunk]
  rfl

theorem readSegment_of_not_mem {p : List UInt8} (hp : 0 ∉ p) : readSegment c p = readChunk c p := by
  rw [readSegment, List.splitOn_eq_singleton hp, filter_map_chunk, List.filter_nil, List.map_nil, List.append_nil]

theorem readSegment_nil : readSegment c [] = [] := readSegment_of_not_mem List.not_mem_nil

/-- **What ends at a delimiter is read by itself.** -/
theorem readSegment_append {xs : List UInt8} (h : Split.opened 0 xs = []) (ys : List UInt8) :
    readSegment c (xs ++ ys) = readSegment c xs ++ readSegment c ys := by
  induction xs using Split.pieces_induction (0 : UInt8) with
  | hopen p hp =>
    rw [Split.opened_of_not_mem 0 hp] at h
    rw [h, readSegment_nil]
    rfl
  | hcut p xs hp ih =>
    rw [Split.opened_cut 0 xs hp] at h
    rw [List.append_assoc, List.cons_append, readSegment_cut _ hp, ih h, readSegment_cut _ hp, List.append_assoc]

/-! ## Records and garbage -/

/-- A piece of a segment: a record, or any bytes up to a delimiter. -/
inductive Item
  | record (r : RecordV1)
  | garbage (g : List UInt8) (zeroFree : 0 ∉ g)

def Item.write (c : Crates) (bufLen : Nat) : Item → Except Error (List UInt8)
  | .record r => encode c (.v1 r) bufLen
  | .garbage g _ => .ok (g ++ [0x00])

def Item.read (c : Crates) : Item → List (Except Error StoredRecord)
  | .record r => [.ok (.v1 r)]
  | .garbage g _ => if g = [] then [] else [decode c g]

def Item.chunk (c : Crates) : Item → List UInt8
  | .record r => body c (.v1 r)
  | .garbage g _ => g

theorem mapM_eq_pure {α β : Type} {m : Type → Type} [Monad m] [LawfulMonad m] {f : α → m β} {g : α → β}
    (h : ∀ a, f a = pure (g a)) (as : List α) : as.mapM f = pure (as.map g) := by
  rw [funext h]
  exact List.mapM_pure

section Standard

variable (hc : c.Standard)
include hc

theorem Item.write_eq_ok {bufLen : Nat} (hbuf : 507 ≤ bufLen) (it : Item) :
    it.write c bufLen = .ok (it.chunk c ++ [0x00]) := by
  cases it with
  | record r => exact Record.encode_eq_ok hc _ hbuf
  | garbage g hg => rfl

theorem Item.zero_not_mem_chunk (it : Item) : 0 ∉ it.chunk c := by
  cases it with
  | record r => exact Record.zero_not_mem_body hc _
  | garbage g hg => exact hg

theorem Item.readChunk_chunk (it : Item) : readChunk c (it.chunk c) = it.read c := by
  cases it with
  | record r =>
    rw [Item.chunk, readChunk_of_ne_nil (Record.body_ne_nil hc _), Record.decode_body hc]
    rfl
  | garbage g hg => rfl

theorem readSegment_image (r : StoredRecord) (xs : List UInt8) :
    readSegment c (image c r ++ xs) = .ok r :: readSegment c xs := by
  rw [image, List.append_assoc, List.singleton_append, readSegment_cut xs (Record.zero_not_mem_body hc r),
    readChunk_of_ne_nil (Record.body_ne_nil hc r), Record.decode_body hc]
  rfl

/-- **A segment of whole records reads back as them.** -/
theorem readSegment_records : ∀ rs : List StoredRecord,
    readSegment c (rs.flatMap (image c)) = rs.map .ok
  | [] => readSegment_nil
  | r :: rs => by
    rw [List.flatMap_cons, readSegment_image hc, readSegment_records rs]
    rfl

theorem readSegment_chunks : ∀ items : List Item,
    readSegment c (items.map (fun it => it.chunk c ++ [0])).flatten = items.flatMap (Item.read c)
  | [] => readSegment_nil
  | it :: items => by
    rw [List.map_cons, List.flatten_cons, List.append_assoc, List.singleton_append,
      readSegment_cut _ (it.zero_not_mem_chunk hc), it.readChunk_chunk hc, readSegment_chunks items, List.flatMap_cons]

/-- **A segment of records and garbage.**  Every record can be written, whatever its fields; the records are read back
unchanged and in order, and each garbage chunk, if it is not empty, is what the decoder makes of it.  A written record
decodes to itself with and without its delimiter. -/
theorem readSegment_items {bufLen : Nat} (hbuf : 507 ≤ bufLen) (items : List Item) :
    (∃ written, items.mapM (Item.write c bufLen) = .ok written ∧
      readSegment c written.flatten = items.flatMap (Item.read c)) ∧
    ∀ r, ∃ p, encode c (.v1 r) bufLen = .ok (p ++ [0x00]) ∧ decode c (p ++ [0x00]) = .ok (.v1 r) ∧
      decode c p = .ok (.v1 r) := by
  constructor
  · exact ⟨_, mapM_eq_pure (Item.write_eq_ok hc hbuf) items, readSegment_chunks hc items⟩
  · intro r
    have hdec := Record.decode_body hc (.v1 r)
    exact ⟨body c (.v1 r), Record.encode_eq_ok hc _ hbuf, Record.decode_image hc _, hdec⟩

end Standard

theorem readSegment_items_run : ∃ written,
    [Item.record ⟨5, 7, 2, 1, ⟨[1, 0, 2], by decide⟩⟩, .garbage [] (by decide), .garbage [9] (by decide)].mapM
      (Item.write Crates.documented 512) = .ok written ∧
    readSegment Crates.documented written.flatten
      = [.ok (.v1 ⟨5, 7, 2, 1, ⟨[1, 0, 2], by decide⟩⟩), decode Crates.documented [9]] :=
  (readSegment_items Crates.documented_standard (by decide) _).1

/-! ## Truncation -/

/-- What is read of a record written in `n` bytes when only the first `j` of them are left, `j < n`. -/
def readCut (r : RecordV1) (n j : Nat) : List (Except Error StoredRecord) :=
  if j = 0 then [] else if j + 1 = n then [.ok (.v1 r)] else [.error .codec]

theorem readSegment_take_image (hc : c.Standard) (r : RecordV1) {j : Nat} (hj : j < (image c (.v1 r)).length) :
    readSegment c ((image c (.v1 r)).take j) = readCut r (image c (.v1 r)).length j := by
  rw [Record.length_image] at hj ⊢
  have hle := Nat.lt_succ_iff.1 hj
  have hmem := Record.zero_not_mem_body hc (.v1 r)
  rw [image, List.take_append_of_le_length hle, readSegment_of_not_mem (fun h => hmem (List.mem_of_mem_take h))]
  unfold readCut
  by_cases h0 : j = 0
  · rw [if_pos h0, h0, List.take_zero, readChunk_nil]
  by_cases hall : j + 1 = (body c (.v1 r)).length + 1
  · obtain rfl : j = (body c (.v1 r)).length := Nat.succ.inj hall
    rw [if_neg h0, if_pos rfl, List.take_length, readChunk_of_ne_nil (Record.body_ne_nil hc _), Record.decode_body hc]
  · have hlt : j < (body c (.v1 r)).length := Nat.lt_of_le_of_ne hle (fun h => hall (congrArg (· + 1) h))
    have hne : (body c (.v1 r)).take j ≠ [] := by
      intro h
      rcases List.take_eq_nil_iff.1 h with h | h
      · exact h0 h
      · exact Record.body_ne_nil hc _ h
    have hdrop : (body c (.v1 r)).drop j ≠ [] := fun h => Nat.not_le.2 hlt (List.drop_eq_nil_iff.1 h)
    rw [if_neg h0, if_neg hall, readChunk_of_ne_nil hne, Record.decode_cut hc hdrop (List.take_append_drop j _)]

theorem readSegment_take_images (hc : c.Standard) : ∀ (rs : List RecordV1) (k : Nat),
    k ≤ (rs.map (fun r => image c (.v1 r))).flatten.length → ∃ m j, m ≤ rs.length ∧
      k = ((rs.map (fun r => image c (.v1 r))).take m).flatten.length + j ∧
      (∀ chunk, (rs.map (fun r => image c (.v1 r)))[m]? = some chunk → j < chunk.length) ∧
      (m = rs.length → j = 0) ∧
      readSegment c ((rs.map (fun r => image c (.v1 r))).flatten.take k)
        = (rs.take m).map (fun r => .ok (.v1 r)) ++ (rs[m]?).elim [] (fun r => readCut r (image c (.v1 r)).length j)
  | [], k, hk => by
    refine ⟨0, 0, Nat.le_refl 0, Nat.le_zero.1 hk, ?_, fun _ => rfl, ?_⟩
    · intro chunk h
      cases h
    · rw [List.map_nil, List.flatten_nil, List.take_nil, readSegment_nil]
      rfl
  | r :: rs, k, hk => by
    rw [List.map_cons, List.flatten_cons, List.length_append] at hk
    by_cases hlt : k < (image c (.v1 r)).length
    · -- the cut falls inside the first record
      refine ⟨0, k, Nat.zero_le _, (Nat.zero_add k).symm, ?_, ?_, ?_⟩
      · intro chunk h
        cases h
        exact hlt
      · intro h
        cases h
      · rw [List.map_cons, List.flatten_cons, List.take_append_of_le_length (Nat.le_of_lt hlt),
          readSegment_take_image hc r hlt]
        rfl
    · have hge := Nat.not_lt.1 hlt
      obtain ⟨m, j, hm, hk', hj, hend, hread⟩ :=
        readSegment_take_images hc rs (k - (image c (.v1 r)).length) (Nat.sub_le_iff_le_add'.2 hk)
      refine ⟨m + 1, j, Nat.succ_le_succ hm, ?_, hj, fun h => hend (Nat.succ.inj h), ?_⟩
      · rw [List.map_cons, List.take_succ_cons, List.flatten_cons, List.length_append, Nat.add_assoc, ← hk',
          Nat.add_sub_cancel' hge]
      · rw [List.map_cons, List.flatten_cons, List.take_append, List.take_of_length_le hge, readSegment_image hc, hread]
        rfl

/-- **A segment cut at byte `k`.**  With `m` the records wholly before the cut and `j` the bytes left of the next one:
those records are read, then nothing if `j = 0`, the next record if only its delimiter is missing, and one error
otherwise. -/
theorem readSegment_truncated (hc : c.Standard) {bufLen : Nat} (hbuf : 507 ≤ bufLen) (rs : List RecordV1) :
    ∃ written, rs.mapM (fun r => encode c (.v1 r) bufLen) = .ok written ∧
      ∀ k, k ≤ written.flatten.length → ∃ m j, m ≤ rs.length ∧ k = (written.take m).flatten.length + j ∧
        (∀ chunk, written[m]? = some chunk → j < chunk.length) ∧ (m = rs.length → j = 0) ∧
        readSegment c (written.flatten.take k) = (rs.take m).map (fun r => .ok (.v1 r))
          ++ ((rs.zip written)[m]?).elim [] (fun x => readCut x.1 x.2.length j) := by
  refine ⟨_, mapM_eq_pure (fun r => Record.encode_eq_ok hc (.v1 r) hbuf) rs, ?_⟩
  intro k hk
  obtain ⟨m, j, hm, hk', hj, hend, hread⟩ := readSegment_take_images hc rs k hk
  refine ⟨m, j, hm, hk', hj, hend, hread.trans ?_⟩
  rw [List.zip, List.getElem?_zipWith, List.getElem?_map]
  cases rs[m]? <;> rfl

theorem readSegment_truncated_run : ∃ written,
    [(⟨5, 7, 2, 1, ⟨[1, 0, 2], by decide⟩⟩ : RecordV1)].mapM (fun r => encode Crates.documented (.v1 r) 512)
        = .ok written ∧
      ∀ k, k ≤ written.flatten.length → ∃ m j, m ≤ 1 ∧ k = (written.take m).flatten.length + j ∧
        (∀ chunk, written[m]? = some chunk → j < chunk.length) ∧ (m = 1 → j = 0) ∧
        readSegment Crates.documented (written.flatten.take k)
          = ([(⟨5, 7, 2, 1, ⟨[1, 0, 2], by decide⟩⟩ : RecordV1)].take m).map (fun r => .ok (.v1 r))
            ++ (([(⟨5, 7, 2, 1, ⟨[1, 0, 2], by decide⟩⟩ : RecordV1)].zip written)[m]?).elim []
              (fun x => readCut x.1 x.2.length j) :=
  readSegment_truncated Crates.documented_standard (by decide) _

/-! ## Newer writers -/

/-- What a newer writer may put in a chunk: a `V1` record with fields appended to it, or a variant that is not `V1`. -/
inductive Evolved
  | appended (r : RecordV1) (more : List UInt8)
  | newer (b : List UInt8) (index : UInt32) (rest : List UInt8) (begins : Codec.varintU32.de b = some (index, rest))
      (other : index ≠ 0)

def Evolved.postcard (c : Crates) : Evolved → List UInt8
  | .appended r more => c.postcardSer (.v1 r) ++ more
  | .newer b _ _ _ _ => b

def Evolved.read : Evolved → Except Error StoredRecord
  | .appended r _ => .ok (.v1 r)
  | .newer _ _ _ _ _ => .error .codec

theorem storedRecordFormat_fromBytes_of_ne {b rest : List UInt8} {index : UInt32}
    (h : Codec.varintU32.de b = some (index, rest)) (hindex : index ≠ 0) : storedRecordFormat.fromBytes b = none := by
  have hde := Codec.Format.de_variant_of_ne recordV1Format h hindex
  show Option.map Prod.fst (((Codec.varintU32.variant 0 recordV1Format).de b).map (fun r => (StoredRecord.v1 r.1, r.2)))
    = none
  rw [hde]
  rfl

theorem Evolved.decode_wrap (hc : c.Standard) (e : Evolved)
    (h : (Record.wrap c (e.postcard c)).length ≤ maxStoredRecordBytes) :
    decode c (Record.wrap c (e.postcard c)) = e.read := by
  rw [Record.decode_wrap hc h, hc.postcardDe]
  cases e with
  | appended r more => rw [postcard, hc.postcardSer, Codec.Format.fromBytes_ser_append, read]
  | newer b index rest begins other => rw [postcard, storedRecordFormat_fromBytes_of_ne begins other, read]

/-- **Schema evolution.**  A segment of chunks of at most 512 bytes each, with a good checksum, written by a newer
writer: a `V1` record is read whatever is appended to it, and another variant is one codec error, in order. -/
theorem readSegment_evolved (hc : c.Standard) : ∀ {chunks : List Evolved},
    (∀ e ∈ chunks, (Record.wrap c (e.postcard c)).length ≤ maxStoredRecordBytes) →
    readSegment c (chunks.flatMap (fun e => Record.wrap c (e.postcard c) ++ [0x00])) = chunks.map Evolved.read
  | [], _ => readSegment_nil
  | e :: chunks, h => by
    have ih := readSegment_evolved hc (fun e' he' => h e' (List.mem_cons_of_mem e he'))
    rw [List.flatMap_cons, List.append_assoc, List.singleton_append,
      readSegment_cut _ (Record.zero_not_mem_wrap hc _), readChunk_of_ne_nil (Record.wrap_ne_nil hc _),
      e.decode_wrap hc (h e List.mem_cons_self), ih, List.map_cons, List.singleton_append]

theorem readSegment_evolved_run :
    let chunks : List Evolved := [.newer [1, 5, 6] 1 [5, 6] rfl (by decide),
      .appended ⟨5, 7, 2, 1, ⟨[1, 0, 2], by decide⟩⟩ [0, 9]]
    readSegment Crates.documented
        (chunks.flatMap (fun e => Record.wrap Crates.documented (e.postcard Crates.documented) ++ [0x00]))
      = [.error .codec, .ok (.v1 ⟨5, 7, 2, 1, ⟨[1, 0, 2], by decide⟩⟩)] :=
  readSegment_evolved Crates.documented_standard (by decide +kernel)

end Telemetry
