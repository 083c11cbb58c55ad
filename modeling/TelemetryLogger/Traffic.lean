import TelemetryLogger.Damage
import TelemetryLogger.Gaps
import TelemetryLogger.Generator
/-!
# Traffic — what the pipeline makes of the generator's stream

The generator's writes are pieces: a body with its delimiter, or what is left of one.  A whole body is heard as its
frame; the others are one CRC failure each (`judgeSegment_piece`).  So the pipeline's counters follow from the tool's
summary, and it records exactly the whole frames that follow the one before them (`traffic_received`).
-/
namespace Telemetry

namespace Generator

open Adjacent (breaks followers)

variable {N Q : Nat} {σ ε : Type}

/-! ## Pieces -/

/-- A segment of the stream, and the frame it carries whole. -/
structure Piece where
  segment : List UInt8
  carried : Option Frame

/-- **A piece carries its frame, or holds none.** -/
structure Piece.Sound (c : Crates) (N : Nat) (p : Piece) : Prop where
  nonempty : p.segment ≠ []
  zeroFree : 0 ∉ p.segment
  length : p.segment.length ≤ N
  whole : ∀ f ∈ p.carried, f.WellFormed ∧ p.segment = f.body c
  broken : p.carried = none → ∀ g, ¬ Intact c N p.segment g

/-- What is heard of a piece, after the sequence number `last`. -/
def hear (last : Option UInt32) : Option Frame × UInt64 → Option UInt32 × Verdict
  | (none, _) => (last, .crcFail)
  | (some f, now) => (some f.header.sequence,
      if last.any (fun l => f.header.sequence != l + 1) then .seqGap else .offer (recordOf f now))

theorem judgeSegment_piece {c : Crates} (hc : c.Standard) (hN : 493 ≤ N) {p : Piece} (hp : p.Sound c N)
    (last : Option UInt32) (now : UInt64) :
    judgeSegment c N .allowAll last (p.segment, now) = hear last (p.carried, now) := by
  obtain ⟨segment, carried⟩ := p
  cases carried with
  | some f =>
    obtain ⟨hf, rfl⟩ := hp.whole f rfl
    exact judgeSegment_body hc hf hN last now
  | none =>
    have hno := hp.broken rfl
    obtain ⟨hlast, hverdict⟩ := judgeSegment_of_not_intact hno .allowAll last now
    refine Prod.ext hlast (hverdict.resolve_left ?_)
    -- not quiet: the segment is neither empty nor too long
    rw [judgeSegment, if_neg hp.nonempty, if_neg (Nat.not_lt.2 hp.length), judge]
    split
    · simp
    · rename_i d hdec
      split
      · rename_i hsz
        rw [judgeFrame, if_pos]
        · simp
        · exact fun hcrc => hno (frameOf d hsz) ⟨hp.nonempty, hp.length, ⟨d, hsz, hdec, rfl⟩, hcrc⟩
      · simp

/-- **A stream of pieces is heard piece by piece.** -/
theorem judgeAll_pieces {c : Crates} (hc : c.Standard) (hN : 493 ≤ N) : ∀ (ps : List Piece) (times : List UInt64)
    (last : Option UInt32), (∀ p ∈ ps, p.Sound c N) → judgeAll c N .allowAll last ((ps.map Piece.segment).zip times)
      = Machine.run hear last ((ps.map Piece.carried).zip times)
  | [], _, _, _ => rfl
  | _ :: _, [], _, _ => rfl
  | p :: ps, now :: times, last, h => by
    have hstep := judgeSegment_piece hc hN (h p List.mem_cons_self) last now
    have ih := judgeAll_pieces hc hN ps times (hear last (p.carried, now)).1
      (fun q hq => h q (List.mem_cons_of_mem p hq))
    rw [judgeAll] at ih ⊢
    rw [List.map_cons, List.map_cons, List.zip_cons_cons, List.zip_cons_cons, Machine.run_cons, Machine.run_cons, hstep,
      ih]

/-! ## What is heard -/

/-- A frame and the time of its delimiter. -/
abbrev Arrival : Type := Frame × UInt64

def Arrival.record (a : Arrival) : StoredRecord := recordOf a.1 a.2

/-- The frames that arrive whole. -/
def arrivals (xs : List (Option Frame × UInt64)) : List Arrival := xs.filterMap (fun x => x.1.map (·, x.2))

/-- `g` is numbered right after `f`, modulo `2 ^ 32`. -/
def Follows (f g : Frame) : Prop := g.header.sequence = f.header.sequence + 1

instance : DecidableRel Follows := fun f g => inferInstanceAs (Decidable (g.header.sequence = f.header.sequence + 1))

/-- The whole frames that follow the one before them. -/
def accepted (prev : Option Arrival) (xs : List (Option Frame × UInt64)) : List Arrival :=
  followers (fun a b => Follows a.1 b.1) prev (arrivals xs)

theorem gap_iff (prev : Option Arrival) (f : Frame) (now : UInt64) :
    (prev.map (·.1.header.sequence)).any (fun l => f.header.sequence != l + 1) = false
      ↔ ∀ b ∈ prev, Follows b.1 (f, now).1 := by
  rw [gap_eq_false_iff]
  cases prev <;> simp [Follows]

/-- How often each counter is due. -/
def due (prev : Option Arrival) (xs : List (Option Frame × UInt64)) : Counter → Nat
  | .ok => (accepted prev xs).length
  | .dropped => 0
  | .crcFail => xs.countP (fun x => x.1.isNone)
  | .seqGap => (arrivals xs).length - (accepted prev xs).length
  | .filtered => 0

theorem accepted_length_le (prev : Option Arrival) (xs : List (Option Frame × UInt64)) :
    (accepted prev xs).length ≤ (arrivals xs).length :=
  (Adjacent.followers_sublist _ prev _).length_le

/-- **What is offered** is the accepted frames, and every other piece is a rejection of its own kind. -/
theorem run_hear : ∀ (xs : List (Option Frame × UInt64)) (prev : Option Arrival),
    let vs := (Machine.run hear (prev.map (·.1.header.sequence)) xs).2
    offers vs = (accepted prev xs).map Arrival.record ∧ spoken vs = vs ∧
    ∀ k, (vs.filterMap (Verdict.counter false)).count k = due prev xs k
  | [], prev => ⟨rfl, rfl, fun k => by cases k <;> rfl⟩
  | (none, now) :: xs, prev => by
    obtain ⟨hoffers, hspoken, hcount⟩ := run_hear xs prev
    refine ⟨hoffers, congrArg (Verdict.crcFail :: ·) hspoken, fun k => ?_⟩
    have hk := hcount k
    rw [Machine.run_cons, hear]
    cases k <;> simp_all [Verdict.counter, due, accepted, arrivals]
  | (some f, now) :: xs, prev => by
    obtain ⟨hoffers, hspoken, hcount⟩ := run_hear xs (some (f, now))
    have harrive : arrivals ((some f, now) :: xs) = (f, now) :: arrivals xs := rfl
    have hle := accepted_length_le (some (f, now)) xs
    by_cases hprev : ∀ b ∈ prev, Follows b.1 (f, now).1
    · have haccept : accepted prev ((some f, now) :: xs) = (f, now) :: accepted (some (f, now)) xs := by
        rw [accepted, harrive, followers, if_pos hprev, ← accepted]
      have hstep : hear (prev.map (·.1.header.sequence)) (some f, now)
          = (some f.header.sequence, .offer (recordOf f now)) := by
        rw [hear, (gap_iff prev f now).2 hprev, if_neg Bool.false_ne_true]
      rw [Machine.run_cons, hstep, haccept]
      refine ⟨congrArg (recordOf f now :: ·) hoffers, congrArg (Verdict.offer (recordOf f now) :: ·) hspoken,
        fun k => ?_⟩
      have hk := hcount k
      cases k <;> simp_all [Verdict.counter, due]
    · have haccept : accepted prev ((some f, now) :: xs) = accepted (some (f, now)) xs := by
        rw [accepted, harrive, followers, if_neg hprev, ← accepted]
      have hstep : hear (prev.map (·.1.header.sequence)) (some f, now) = (some f.header.sequence, .seqGap) := by
        rw [hear, Bool.of_not_eq_false (mt (gap_iff prev f now).1 hprev), if_pos rfl]
      rw [Machine.run_cons, hstep, haccept]
      refine ⟨hoffers, congrArg (Verdict.seqGap :: ·) hspoken, fun k => ?_⟩
      have hk := hcount k
      cases k <;> simp_all [Verdict.counter, due]
      omega

/-! ## The pieces of a round -/

namespace Emission

def pieces (c : Crates) : Emission → List Piece
  | valid f => [⟨f.body c, some f⟩]
  | badCrc f pos => [⟨(f.body c).modify pos flip, none⟩]
  | truncated f len => [⟨(f.body c).take len, none⟩]
  | burst f extra => List.replicate (extra + 1) ⟨f.body c, some f⟩

/-- The copies of the frame that are sent whole. -/
def carried : Emission → List Frame
  | valid f => [f]
  | badCrc _ _ => []
  | truncated _ _ => []
  | burst f extra => List.replicate (extra + 1) f

theorem units_eq {c : Crates} {e : Emission} (he : e.Inside c) :
    e.units c = (e.pieces c).map (fun p => p.segment ++ [0x00]) := by
  cases e with
  | valid f => rfl
  | badCrc f pos =>
    have hpos : pos < (f.body c).length := he
    rw [units, modify_wire c f hpos]
    rfl
  | truncated f len =>
    rw [units, Frame.wire, List.take_append_of_le_length (Nat.le_of_lt he.2)]
    rfl
  | burst f extra =>
    rw [units, pieces, List.map_replicate]
    rfl

theorem filterMap_carried (c : Crates) (e : Emission) : (e.pieces c).filterMap Piece.carried = e.carried := by
  cases e with
  | burst f extra => exact List.filterMap_replicate_of_some rfl
  | _ => rfl

theorem countP_broken (c : Crates) (e : Emission) :
    (e.pieces c).countP (fun p => p.carried.isNone) = if e.damaged then 1 else 0 := by
  cases e with
  | burst f extra => simp [pieces, damaged, List.countP_replicate]
  | _ => rfl

end Emission

theorem length_body_le_of_drawn {c : Crates} (hc : c.Standard) {f : Frame} (hf : Drawn f) :
    (f.body c).length ≤ 127 := by
  have hbody := hc.length_encode_le (f.raw_ne_nil (f.computeCrc c))
  have hlen := hf.length_le
  rw [Frame.length_raw, minFrameLen, headerLen, crc16Len, Cobs.maxLength] at hbody
  rw [Frame.body]
  omega

theorem Piece.sound_whole {c : Crates} (hc : c.Standard) (hN : 493 ≤ N) {f : Frame} (hf : f.WellFormed) :
    Piece.Sound c N ⟨f.body c, some f⟩ := by
  refine ⟨f.body_ne_nil hc, f.zero_not_mem_body hc, Nat.le_trans (f.length_body_le hc) hN, ?_, fun h => by cases h⟩
  rintro g ⟨⟩
  exact ⟨hf, rfl⟩

/-- What is left of a frame that was cut. -/
theorem Piece.sound_cut {c : Crates} (hc : c.Standard) (hN : 493 ≤ N) {f : Frame} (hf : f.WellFormed) {len : Nat}
    (hlo : 1 ≤ len) (hhi : len < (f.body c).length) : Piece.Sound c N ⟨(f.body c).take len, none⟩ := by
  have hne : (f.body c).take len ≠ [] := by
    rw [← List.length_pos_iff, List.length_take]
    omega
  have hrest : (f.body c).drop len ≠ [] := by
    rw [← List.length_pos_iff, List.length_drop]
    omega
  have hfit := Nat.le_trans (f.length_body_le hc) hN
  exact ⟨hne, fun h => f.zero_not_mem_body hc (List.mem_of_mem_take h), Nat.le_trans (List.length_take_le' _ _) hfit,
    fun f h => (by cases h), fun _ => not_intact_cut hc hf.length hne hrest (List.take_append_drop _ _)⟩

/-- **The pieces of a round are sound**, if no flip makes a delimiter. -/
theorem pieces_sound {c : Crates} (hc : c.Standard) (hN : 493 ≤ N) {e : Emission} (hdrawn : Drawn e.frame)
    (hinside : e.Inside c) (hwhole : ∀ unit ∈ e.units c, unit.count 0x00 = 1) : ∀ p ∈ e.pieces c, p.Sound c N := by
  have hwf := hdrawn.wellFormed
  have hfit := Nat.le_trans (e.frame.length_body_le hc) hN
  have hwholePiece : Piece.Sound c N ⟨e.frame.body c, some e.frame⟩ := Piece.sound_whole hc hN hwf
  cases e with
  | valid f => exact List.forall_mem_singleton.2 hwholePiece
  | burst f extra =>
    intro p hp
    rw [List.eq_of_mem_replicate hp]
    exact hwholePiece
  | badCrc f pos =>
    have hpos : pos < (f.body c).length := hinside
    have h0 : 0 ∉ (f.body c).modify pos flip := by
      have hunit := hwhole _ List.mem_cons_self
      rw [modify_wire c f hpos, List.count_append] at hunit
      rw [← List.count_eq_zero]
      exact Nat.succ.inj hunit
    refine List.forall_mem_singleton.2 ⟨?_, h0, ?_, fun f h => (by cases h),
      fun _ => not_intact_flip hc (length_body_le_of_drawn hc hdrawn) hpos h0⟩
    · rw [← List.length_pos_iff, List.length_modify]
      exact Nat.zero_lt_of_lt hpos
    · rw [List.length_modify]
      exact hfit
  | truncated f len =>
    obtain ⟨hlo, hhi⟩ := hinside
    exact List.forall_mem_singleton.2 (Piece.sound_cut hc hN hwf hlo hhi)

/-! ## The stream of a run -/

def piecesOf (c : Crates) (rounds : List Round) : List Piece := rounds.flatMap (fun r => r.emission.pieces c)

theorem flatten_units {c : Crates} : ∀ rounds : List Round, (∀ r ∈ rounds, r.emission.Inside c) →
    (rounds.flatMap fun r => r.emission.units c).flatten
      = ((piecesOf c rounds).map Piece.segment).flatMap (· ++ [0x00])
  | [], _ => rfl
  | r :: rounds, h => by
    have ih := flatten_units rounds (fun r' hr' => h r' (List.mem_cons_of_mem r hr'))
    rw [List.flatMap_cons, List.flatten_append, ih, Emission.units_eq (h r List.mem_cons_self), piecesOf, piecesOf,
      List.flatMap_cons, List.map_append, List.flatMap_append, ← List.flatMap_def]
    refine congrArg (· ++ _) ?_
    rw [List.flatMap_map]

/-- **The verdicts on a stream of pieces.** -/
theorem verdicts_pieces {c : Crates} (hc : c.Standard) (hN : 493 ≤ N) {ps : List Piece} (hps : ∀ p ∈ ps, p.Sound c N)
    {bytes : List TimedByte} (hbytes : untimed bytes = (ps.map Piece.segment).flatMap (· ++ [0x00])) :
    let xs := (ps.map Piece.carried).zip (completions bytes)
    let vs := verdicts c N .allowAll [] bytes
    (completions bytes).length = ps.length ∧ offers vs = (accepted none xs).map Arrival.record ∧
    ∀ k, ((spoken vs).filterMap (Verdict.counter false)).count k = due none xs k := by
  intro xs vs
  have hclosed : Split.closed 0 (untimed bytes) = ps.map Piece.segment := by
    rw [hbytes, Split.closed_terminated]
    exact List.forall_mem_map.2 (fun p hp => (hps p hp).zeroFree)
  have hopen : Split.opened 0 (untimed bytes) = [] := by rw [hbytes, Split.opened_terminated]
  have hjudge : judgeAll c N .allowAll none (segments bytes) = Machine.run hear none xs := by
    rw [segments, hclosed]
    exact judgeAll_pieces hc hN ps (completions bytes) none hps
  obtain ⟨hoffers, hspoken, hcount⟩ := run_hear xs none
  refine ⟨?_, ?_, fun k => ?_⟩
  · rw [length_completions, hclosed, List.length_map]
  · rw [offers_verdicts, hjudge]
    exact hoffers
  · have hvs := (judgeAll_segments c N .allowAll bytes).2
    rw [hjudge, hopen, List.length_nil, if_neg (Nat.not_lt_zero N), List.append_nil] at hvs
    have hspoken' : spoken (Machine.run hear none xs).2 = (Machine.run hear none xs).2 := hspoken
    rw [hvs, hspoken']
    exact hcount k

/-! ## How many gaps a run makes -/

theorem not_follows_self (f : Frame) : ¬ Follows f f := by simp [Follows]

theorem Emission.carried_eq (e : Emission) :
    e.carried = if e.damaged then [] else List.replicate (e.extra + 1) e.frame := by
  cases e <;> rfl

theorem Emission.extra_of_damaged {e : Emission} (h : e.damaged = true) : e.extra = 0 := by
  cases e <;> first | rfl | cases h

/-- **Each gap is a copy, a damaged frame or a skip**: at most one for each, and one to begin with if the first frame
does not follow `f`. -/
theorem breaks_carried_le : ∀ (rounds : List Round) (seq : UInt32) (f : Frame), NumberedFrom seq rounds →
    breaks Follows (f :: rounds.flatMap (fun r => r.emission.carried))
      ≤ (if seq = f.header.sequence + 1 then 0 else 1) + total (fun r => r.emission.extra) rounds
        + (rounds.countP (fun r => r.emission.damaged) + rounds.countP (fun r => decide (r.skipped ≠ 0)))
  | [], _, _, _ => Nat.zero_le _
  | r :: rounds, seq, f, h => by
    obtain ⟨hseq, hrest⟩ := h
    rw [List.flatMap_cons, total, List.countP_cons, List.countP_cons, Emission.carried_eq]
    by_cases hd : r.emission.damaged = true
    · have ih := breaks_carried_le rounds _ f hrest
      rw [if_pos hd, List.nil_append, if_pos hd, Emission.extra_of_damaged hd]
      have hone : (if r.emission.frame.header.sequence + 1 = f.header.sequence + 1 then 0 else 1) ≤ 1 := by
        split <;> omega
      omega
    · have ih := breaks_carried_le rounds _ r.emission.frame hrest
      rw [if_pos rfl] at ih
      have hfirst : (if Follows f r.emission.frame then 0 else 1)
          ≤ (if seq = f.header.sequence + 1 then 0 else 1) + if decide (r.skipped ≠ 0) = true then 1 else 0 := by
        by_cases hskip : r.skipped = 0
        · rw [hskip, show UInt32.ofNat 0 = 0 from rfl, UInt32.add_zero] at hseq
          have hiff : Follows f r.emission.frame ↔ seq = f.header.sequence + 1 := by rw [← hseq, Follows]
          rw [if_congr hiff rfl rfl]
          exact Nat.le_add_right _ _
        · rw [if_pos (decide_eq_true hskip)]
          split <;> omega
      rw [if_neg hd, if_neg hd, List.replicate_succ, List.cons_append, breaks, ← List.cons_append,
        ← List.replicate_succ, Adjacent.breaks_replicate Follows (not_follows_self _)]
      omega

/-- **Each copy is a gap.** -/
theorem extra_le_breaks : ∀ rounds : List Round,
    total (fun r => r.emission.extra) rounds ≤ breaks Follows (rounds.flatMap fun r => r.emission.carried)
  | [] => Nat.le_refl 0
  | r :: rounds => by
    have ih := extra_le_breaks rounds
    rw [List.flatMap_cons, total, Emission.carried_eq]
    by_cases hd : r.emission.damaged = true
    · rw [if_pos hd, Emission.extra_of_damaged hd, Nat.zero_add]
      exact ih
    · have hcons := Adjacent.breaks_le_cons Follows r.emission.frame (rounds.flatMap fun r => r.emission.carried)
      rw [if_neg hd, Adjacent.breaks_replicate Follows (not_follows_self _)]
      omega

theorem breaks_carried_from_zero {rounds : List Round} (h : NumberedFrom 0 rounds) :
    breaks Follows (rounds.flatMap fun r => r.emission.carried) ≤ total (fun r => r.emission.extra) rounds
      + (rounds.countP (fun r => r.emission.damaged) + rounds.countP (fun r => decide (r.skipped ≠ 0))) := by
  have hle := breaks_carried_le rounds 0 (heartbeat 0xFFFFFFFF) h
  rw [if_pos (show (0 : UInt32) = (heartbeat 0xFFFFFFFF).header.sequence + 1 from rfl), Nat.zero_add] at hle
  exact Nat.le_trans (Adjacent.breaks_le_cons Follows _ _) hle

theorem sum_extra_le {F : Type} {set : Settings F} {c : Crates} : ∀ rounds : List Round,
    (∀ r ∈ rounds, r.Sound set c) → total (fun r => r.emission.extra) rounds ≤ rounds.length * (2 ^ 32 - 1)
  | [], _ => Nat.zero_le _
  | r :: rounds, h => by
    have ih := sum_extra_le rounds (fun r' hr' => h r' (List.mem_cons_of_mem r hr'))
    have hextra : r.emission.extra ≤ 2 ^ 32 - 1 := by
      cases he : r.emission with
      | burst f extra =>
        have hburst := (h r List.mem_cons_self).burst f extra he
        have hsize := set.burstSize.toNat_lt
        rw [Emission.extra, hburst]
        omega
      | _ => exact Nat.zero_le _
    rw [total, List.length_cons, Nat.succ_mul]
    omega

/-! ## What the pipeline counts and records -/

theorem map_fst_heard {ps : List Piece} {times : List UInt64} (h : times.length = ps.length) :
    ((ps.map Piece.carried).zip times).map Prod.fst = ps.map Piece.carried :=
  List.map_fst_zip (by rw [List.length_map, h])

theorem countP_isNone (xs : List (Option Frame × UInt64)) :
    xs.countP (fun x => x.1.isNone) = (xs.map Prod.fst).countP Option.isNone := by
  rw [List.countP_map]
  rfl

theorem fst_arrivals : ∀ xs : List (Option Frame × UInt64),
    (arrivals xs).map Prod.fst = (xs.map Prod.fst).filterMap id
  | [] => rfl
  | (none, _) :: xs => fst_arrivals xs
  | (some f, _) :: xs => congrArg (f :: ·) (fst_arrivals xs)

theorem snd_arrivals_sublist : ∀ xs : List (Option Frame × UInt64),
    ((arrivals xs).map Prod.snd).Sublist (xs.map Prod.snd)
  | [] => List.Sublist.slnil
  | (none, now) :: xs => (snd_arrivals_sublist xs).cons now
  | (some _, now) :: xs => (snd_arrivals_sublist xs).cons_cons now

theorem length_arrivals : ∀ xs : List (Option Frame × UInt64),
    (arrivals xs).length + xs.countP (fun x => x.1.isNone) = xs.length
  | [] => rfl
  | (none, now) :: xs => by
    have ih := length_arrivals xs
    rw [List.countP_cons_of_pos rfl, List.length_cons, ← ih]
    rfl
  | (some f, now) :: xs => by
    have ih := length_arrivals xs
    rw [List.countP_cons_of_neg Bool.false_ne_true, List.length_cons, ← ih]
    exact Nat.succ_add _ _

theorem filterMap_piecesOf (c : Crates) (rounds : List Round) : (piecesOf c rounds).filterMap Piece.carried
    = rounds.flatMap (fun r => r.emission.carried) := by
  rw [piecesOf, List.filterMap_flatMap]
  exact congrArg (rounds.flatMap ·) (funext fun r => r.emission.filterMap_carried c)

theorem countP_piecesOf (c : Crates) : ∀ rounds : List Round,
    (piecesOf c rounds).countP (fun p => p.carried.isNone) = rounds.countP (fun r => r.emission.damaged)
  | [] => rfl
  | r :: rounds => by
    have ih := countP_piecesOf c rounds
    rw [piecesOf] at ih ⊢
    rw [List.flatMap_cons, List.countP_append, ih, Emission.countP_broken, List.countP_cons, Nat.add_comm]

theorem length_piecesOf {c : Crates} {rounds : List Round} (h : ∀ r ∈ rounds, r.emission.Inside c) :
    (piecesOf c rounds).length = (rounds.flatMap fun r => r.emission.units c).length := by
  rw [piecesOf, List.length_flatMap, List.length_flatMap]
  refine congrArg List.sum (List.map_congr_left (fun r hr => ?_))
  rw [Emission.units_eq (h r hr), List.length_map]

/-- **What is due after the pieces of a run.** -/
theorem due_pieces {F : Type} {set : Settings F} {c : Crates} {rounds : List Round}
    (hsound : ∀ r ∈ rounds, r.Sound set c) (hnum : NumberedFrom 0 rounds) {times : List UInt64}
    (htimes : times.length = (piecesOf c rounds).length) :
    let xs := ((piecesOf c rounds).map Piece.carried).zip times
    let units := rounds.flatMap (fun r => r.emission.units c)
    due none xs .crcFail = rounds.countP (fun r => r.emission.damaged) ∧
    due none xs .ok + due none xs .seqGap + due none xs .crcFail = units.length ∧
    units.length - rounds.length ≤ due none xs .seqGap ∧
    due none xs .seqGap ≤ (units.length - rounds.length)
      + (rounds.countP (fun r => r.emission.damaged) + rounds.countP (fun r => decide (r.skipped ≠ 0))) := by
  intro xs units
  have hinside : ∀ r ∈ rounds, r.emission.Inside c := fun r hr => (hsound r hr).inside
  have hfst : xs.map Prod.fst = (piecesOf c rounds).map Piece.carried := map_fst_heard htimes
  have hlen : xs.length = units.length := by
    rw [← List.length_map Prod.fst, hfst, List.length_map, length_piecesOf hinside]
  have hcrc : due none xs .crcFail = rounds.countP (fun r => r.emission.damaged) := by
    rw [due, countP_isNone, hfst, List.countP_map, ← countP_piecesOf c]
    rfl
  have hframes : (arrivals xs).map Prod.fst = rounds.flatMap (fun r => r.emission.carried) := by
    rw [fst_arrivals, hfst, List.filterMap_map, ← filterMap_piecesOf c]
    rfl
  have hgap : due none xs .seqGap = breaks Follows (rounds.flatMap fun r => r.emission.carried) := by
    have hfollow := Adjacent.length_followers (fun a b : Arrival => Follows a.1 b.1) none (arrivals xs)
    rw [Option.toList_none, List.nil_append, Adjacent.breaks_map Follows Prod.fst, hframes, ← accepted] at hfollow
    rw [due]
    omega
  have harrive := length_arrivals xs
  have hextra : units.length = rounds.length + total (fun r => r.emission.extra) rounds :=
    length_units_rounds c rounds
  have hlow := extra_le_breaks rounds
  have hhigh := breaks_carried_from_zero hnum
  have hle := accepted_length_le none xs
  refine ⟨hcrc, ?_, ?_, ?_⟩
  · rw [due, due, due]
    omega
  · rw [hgap]
    omega
  · rw [hgap]
    omega

section

variable {F ρ : Type} (R : Rng F ρ) [LT F] [LE F] [DecidableLT F] [DecidableLE F] (set : Settings F)

/-- **What is made of a run of the tool**, of which `out` is left: the CRC failures are the frames its summary counts as
damaged, every write is counted once, and the gap rejections are the copies and at most one for each damaged frame and
each skip.  The records are those of each whole frame that follows the whole frame before it, with the time of its own
delimiter. -/
structure Received (c : Crates) (n : Nat) (out : Gen ρ × List (List UInt8)) (bytes : List TimedByte) (stats : Stats)
    (records : List StoredRecord) : Prop where
  crcFail : stats.crcFail.toNat = out.1.stats.badCrc.toNat + out.1.stats.truncated.toNat
  dropped : stats.dropped = 0
  filtered : stats.filtered = 0
  total : stats.ok.toNat + stats.seqGap.toNat + stats.crcFail.toNat = out.2.length
  copies_le : out.2.length - n ≤ stats.seqGap.toNat
  seqGap_le : stats.seqGap.toNat ≤ (out.2.length - n)
    + (out.1.stats.badCrc.toNat + out.1.stats.truncated.toNat + out.1.stats.seqGap.toNat)
  records : ∃ (rounds : List Round) (whole : List Arrival), rounds.length = n ∧ (∀ r ∈ rounds, r.Sound set c) ∧
    NumberedFrom 0 rounds ∧ out.2 = rounds.flatMap (fun r => r.emission.units c) ∧
    whole.map Prod.fst = rounds.flatMap (fun r => r.emission.carried) ∧
    (whole.map Prod.snd).Sublist (completions bytes) ∧
    records = (followers (fun a b => Follows a.1 b.1) none whole).map Arrival.record

/-- **Counters that count the verdicts** on the stream follow from the summary. -/
theorem received {c : Crates} (hc : c.Standard) (hN : 493 ≤ N) (rng : ρ) {n : Nat} (hn : n < 2 ^ 32)
    (hwhole : ∀ unit ∈ (emitted R set c n ⟨rng, 0, .default⟩).2, unit.count 0x00 = 1) {bytes : List TimedByte}
    (hbytes : untimed bytes = (emitted R set c n ⟨rng, 0, .default⟩).2.flatten) {stats : Stats}
    (hcounter : ∀ k, stats.counter k
      = UInt64.ofNat (((spoken (verdicts c N .allowAll [] bytes)).filterMap (Verdict.counter false)).count k)) :
    Received set c n (emitted R set c n ⟨rng, 0, .default⟩) bytes stats (offers (verdicts c N .allowAll [] bytes)) := by
  obtain ⟨rounds, hlen, hsound, hnum, hunits, hstats⟩ := emitted_spec R set hc n ⟨rng, 0, .default⟩
  generalize emitted R set c n ⟨rng, 0, .default⟩ = out at hwhole hbytes hunits hstats ⊢
  have hfew : rounds.length < 2 ^ 32 := by
    rw [hlen]
    exact hn
  obtain ⟨-, -, -, hskips, -⟩ := summary hfew
  have hinside : ∀ r ∈ rounds, r.emission.Inside c := fun r hr => (hsound r hr).inside
  have hpieces : ∀ p ∈ piecesOf c rounds, p.Sound c N := by
    intro p hp
    obtain ⟨r, hr, hp⟩ := List.mem_flatMap.1 hp
    refine pieces_sound hc hN (hsound r hr).drawn (hinside r hr) (fun unit hu => hwhole unit ?_) p hp
    exact hunits ▸ List.mem_flatMap.2 ⟨r, hr, hu⟩
  have hstream : untimed bytes = ((piecesOf c rounds).map Piece.segment).flatMap (· ++ [0x00]) := by
    rw [hbytes, ← flatten_units rounds hinside]
    exact congrArg List.flatten hunits
  obtain ⟨htimes, hoffers, hcount⟩ := verdicts_pieces hc hN hpieces hstream
  obtain ⟨hcrc, htotal, hlow, hhigh⟩ := due_pieces hsound hnum htimes
  have hlength : out.2.length = (rounds.flatMap fun r => r.emission.units c).length := congrArg List.length hunits
  have hsize : out.2.length < 2 ^ 64 := by
    have hextra := sum_extra_le rounds hsound
    rw [hlength, length_units_rounds, hlen]
    rw [hlen] at hextra
    omega
  have hfst := map_fst_heard htimes
  have hsnd : (((piecesOf c rounds).map Piece.carried).zip (completions bytes)).map Prod.snd = completions bytes :=
    List.map_snd_zip (by rw [List.length_map, htimes])
  generalize ((piecesOf c rounds).map Piece.carried).zip (completions bytes) = xs
    at hoffers hcount hcrc htotal hlow hhigh hfst hsnd
  have hvalue : ∀ k, due none xs k ≤ out.2.length → (stats.counter k).toNat = due none xs k := by
    intro k hk
    rw [hcounter k, hcount k]
    exact UInt64.toNat_ofNat_of_lt' (Nat.lt_of_le_of_lt hk hsize)
  have hdamaged' : out.1.stats.badCrc.toNat + out.1.stats.truncated.toNat
      = rounds.countP (fun r => r.emission.damaged) := by
    rw [← damaged_summary hfew, ← hstats]
  have hskips' : out.1.stats.seqGap.toNat = rounds.countP (fun r => decide (r.skipped ≠ 0)) := by
    rw [← hskips, ← hstats]
  have hcopies : out.2.length - n = (rounds.flatMap fun r => r.emission.units c).length - rounds.length := by
    rw [← hlength, hlen]
  have hok := hvalue .ok (by omega)
  have hgap := hvalue .seqGap (by omega)
  have hfail := hvalue .crcFail (by omega)
  refine ⟨?_, ?_, ?_, ?_, ?_, ?_, rounds, arrivals xs, hlen, hsound, hnum, hunits, ?_, ?_, hoffers⟩
  · rw [hdamaged', ← hcrc]
    exact hfail
  · exact (hcounter .dropped).trans (congrArg UInt64.ofNat (hcount .dropped))
  · exact (hcounter .filtered).trans (congrArg UInt64.ofNat (hcount .filtered))
  · rw [hlength, ← htotal]
    exact congrArg₂ (· + ·) (congrArg₂ (· + ·) hok hgap) hfail
  · rw [hcopies]
    exact Nat.le_trans hlow (Nat.le_of_eq hgap.symm)
  · rw [hcopies, hdamaged', hskips']
    exact Nat.le_trans (Nat.le_of_eq hgap) hhigh
  · rw [fst_arrivals, hfst, List.filterMap_map, ← filterMap_piecesOf c]
    rfl
  · rw [← hsnd]
    exact snd_arrivals_sublist xs

/-- **The pipeline's counters follow from the tool's summary.**  The stream of a run of the generator, in any chunks and
with any drains between, goes to a new pipeline that lets everything through and never finds its queue full; no flip
made a delimiter.  Then the pipeline's counters and what it records are those due. -/
theorem traffic_received {c : Crates} (hc : c.Standard) (hN : 493 ≤ N) (rng : ρ) {n : Nat} (hn : n < 2 ^ 32)
    (S : Storage σ ε) (s : σ) {calls : List Call} :
    let out := emitted R set c n ⟨rng, 0, .default⟩
    (∀ unit ∈ out.2, unit.count 0x00 = 1) → untimed (stream calls) = out.2.flatten →
    NoDrop (history c S.traced .allowAll ((Pipeline.new .allowAll : Pipeline N Q), s, []) [] calls) →
    let x := after c S.traced ((Pipeline.new .allowAll : Pipeline N Q), s, []) calls
    ∃ records, Received set c n out (stream calls) x.1.stats records ∧ Recorded c x records := by
  intro out hwhole hstream hdrop x
  obtain ⟨hrecorded, hcounter⟩ := recorded_of_noDrop hc S .allowAll s calls hdrop
  exact ⟨_, received R set hc hN rng hn hwhole hstream hcounter, hrecorded⟩

end

/-- Copies, a cut frame and skips, all in one run. -/
def mixed : Settings Nat := ⟨[.truncate, .burst, .seqGap], 1, 1⟩

/-- What is recorded of its first four frames: the first, and the last. -/
def mixedRecords : List StoredRecord :=
  [.v1 ⟨5, 3, 1, 1, ⟨[13, 14, 15, 16, 17, 18, 19, 20, 21, 22, 23, 24], by decide⟩⟩,
    .v1 ⟨5, 11, 1, 4, ⟨[73, 74, 75, 76], by decide⟩⟩]

/-- Four frames, in seven writes: the first, the third and the fourth are sent twice, the second is cut, and a number is
skipped before the first and before the third. -/
theorem traffic_received_run :
    let out := emitted counting mixed Crates.documented 4 ⟨8, 0, .default⟩
    let calls : List Call := [.ingest (out.2.flatten.map (⟨·, 5⟩)), .drain]
    let x := after Crates.documented capturingStorage.traced ((Pipeline.new .allowAll : DefaultPipeline), ([], 0), [])
      calls
    out.1.stats = ⟨3, 0, 1, 2, 3⟩ ∧
      Received mixed Crates.documented 4 out (stream calls) x.1.stats mixedRecords ∧
      Recorded Crates.documented x mixedRecords ∧
      x.1.stats.ok = 2 ∧ x.1.stats.seqGap = 4 ∧ x.1.stats.crcFail = 1 ∧ x.1.stats.dropped = 0 := by
  intro out calls x
  have hpaced : Paced hostQueueDepth 0 calls := ⟨by decide +kernel, trivial⟩
  have hhealthy : Healthy capturingStorage := ⟨fun _ _ => rfl, fun _ => rfl⟩
  have hdrop := (history_noDrop (N := defaultMaxFrame) Crates.documented_standard hhealthy.traced _
    (x := ((Pipeline.new .allowAll : DefaultPipeline), ([], 0), [])) (tracks_new Crates.documented .allowAll)
    (Nat.le_refl 0) hpaced).1
  have hstream : untimed (stream calls) = out.2.flatten := by decide +kernel
  have hwhole : ∀ unit ∈ out.2, unit.count 0x00 = 1 := by decide +kernel
  obtain ⟨records, hreceived, hrecorded⟩ := traffic_received (N := defaultMaxFrame) (Q := hostQueueDepth) counting mixed
    Crates.documented_standard (by decide) 8 (show 4 < 2 ^ 32 by decide) capturingStorage ([], 0) hwhole hstream hdrop
  have hlogged : Recorded Crates.documented x mixedRecords := ⟨mixedRecords, by decide +kernel⟩
  obtain rfl := hrecorded.unique Crates.documented_standard hlogged
  exact ⟨by decide +kernel, hreceived, hlogged, by decide +kernel⟩

end Generator

end Telemetry
