import TelemetryLogger.Delivery
import Mathlib.Algebra.GroupWithZero.Nat
/-!
# Generator — the traffic of `packet-generator` (`tools/packet-generator`)

The tool draws frames, numbers them, damages some and passes what it emits to a sink.  Its random generator is a
parameter: the results hold for every source of draws.  A run is a list of emissions, one for each frame
(`emitted_spec`); the sink gets their bytes in order, up to the first write that fails (`frames_eq`).
-/
namespace Telemetry

namespace Generator

/-! ## The tool -/

/-- What is drawn from the random generator.  A range is not empty: `random_range` panics on an empty one. -/
structure Rng (F ρ : Type) where
  f64 : ρ → ρ × F
  byte : ρ → ρ × UInt8
  range : ρ → (lo hi : Nat) → lo < hi → ρ × { n : Nat // lo ≤ n ∧ n < hi }

inductive CorruptMode
  | badCrc | truncate | seqGap | burst
  deriving DecidableEq

/-- The error is the text that is no mode. -/
def CorruptMode.fromStr (s : String) : Except String CorruptMode :=
  if s = "bad-crc" then .ok .badCrc
  else if s = "truncate" then .ok .truncate
  else if s = "seq-gap" then .ok .seqGap
  else if s = "burst" then .ok .burst
  else .error s

/-- The counters wrap, as in a release build. -/
structure GenStats where
  valid : UInt32
  badCrc : UInt32
  truncated : UInt32
  seqGap : UInt32
  burstExtra : UInt32
  deriving DecidableEq

def GenStats.default : GenStats := ⟨0, 0, 0, 0, 0⟩

def types : List UInt8 := [0x01, 0x02, 0x03, 0x04, 0x05]

def severities : List UInt8 := [0x00, 0x01, 0x01, 0x01, 0x02, 0x02, 0x03, 0x04]

/-- The arguments behind the frame count that the loop reads. -/
structure Settings (F : Type) where
  modes : List CorruptMode
  corruptRate : F
  burstSize : UInt32

structure Gen (ρ : Type) where
  rng : ρ
  seq : UInt32
  stats : GenStats

inductive CorruptResult
  | original
  | bytes (bytes : List UInt8)
  | burstFrames (frames : List (List UInt8))
  deriving DecidableEq

section

variable {F ρ : Type} (R : Rng F ρ)

/-- An entry of a table. -/
def pick (rng : ρ) (table : List UInt8) (h : 0 < table.length) : ρ × UInt8 :=
  match R.range rng 0 table.length h with
  | (rng, i) => (rng, table.get ⟨i, i.2.2⟩)

def payload : Nat → ρ → ρ × List UInt8
  | 0, rng => (rng, [])
  | n + 1, rng =>
    match R.byte rng with
    | (rng, b) =>
      match payload n rng with
      | (rng, bs) => (rng, b :: bs)

/-- The frame of a round. -/
def drawFrame (seq : UInt32) (rng : ρ) : ρ × Option Frame :=
  match pick R rng types (by decide) with
  | (rng, ptype) =>
    match pick R rng severities (by decide) with
    | (rng, severity) =>
      match R.range rng 0 17 (by decide) with
      | (rng, payloadLen) =>
        match payload R payloadLen rng with
        | (rng, payload) => (rng, Frame.new ptype severity seq payload)

variable [LT F] [LE F] [DecidableLT F] [DecidableLE F] (set : Settings F)

/-- `apply_corruption`: a draw at the rate or above passes a mode over.  Comparisons with a NaN are all false. -/
def applyCorruption (encoded : List UInt8) : List CorruptMode → ρ → GenStats → ρ × GenStats × CorruptResult
  | [], rng, stats => (rng, stats, .original)
  | mode :: modes, rng, stats =>
    match R.f64 rng with
    | (rng, draw) =>
      if draw ≥ set.corruptRate then applyCorruption encoded modes rng stats
      else
        match mode with
        | .badCrc =>
          if h : encoded.length < 2 then (rng, stats, .original)
          else
            match R.range rng 0 (encoded.length - 1) (by omega) with
            | (rng, pos) => (rng, { stats with badCrc := stats.badCrc + 1 }, .bytes (encoded.modify pos (· ^^^ 0xAA)))
        | .truncate =>
          if h : encoded.length < 3 then (rng, stats, .original)
          else
            match R.range rng 1 (encoded.length - 1) (by omega) with
            | (rng, truncLen) =>
              (rng, { stats with truncated := stats.truncated + 1 }, .bytes (encoded.take truncLen ++ [0x00]))
        | .seqGap => applyCorruption encoded modes rng stats
        | .burst =>
          (rng, { stats with burstExtra := stats.burstExtra + set.burstSize },
            .burstFrames (encoded :: List.replicate set.burstSize.toNat encoded))

/-- The sequence numbers skipped before a frame. -/
def skip (g : Gen ρ) : Gen ρ :=
  if set.modes.contains .seqGap then
    match R.f64 g.rng with
    | (rng, draw) =>
      if draw < set.corruptRate then
        match R.range rng 2 6 (by decide) with
        | (rng, skip) => ⟨rng, g.seq + UInt32.ofNat skip, { g.stats with seqGap := g.stats.seqGap + 1 }⟩
      else { g with rng := rng }
  else g

omit [LT F] [LE F] [DecidableLT F] [DecidableLE F] in
/-- What the loop does with the result: the counters, and the writes. -/
def settle (encoded : List UInt8) (stats : GenStats) : CorruptResult → GenStats × List (List UInt8)
  | .original => ({ stats with valid := stats.valid + 1 }, [encoded])
  | .bytes bytes => (stats, [bytes])
  | .burstFrames frames => ({ stats with valid := stats.valid + 1 }, frames)

/-- The body of the loop, up to the writes: the state behind it, and what is emitted. -/
def next (c : Crates) (g : Gen ρ) : Gen ρ × List (List UInt8) :=
  let g := skip R set g
  match drawFrame R g.seq g.rng with
  | (rng, none) => ({ g with rng := rng }, [])
  | (rng, some frame) =>
    match frame.encodeCobs c maxCobsFrameBytes with
    | none => ({ g with rng := rng }, [])
    | some encoded =>
      match applyCorruption R set encoded set.modes rng g.stats with
      | (rng, stats, result) =>
        match settle encoded stats result with
        | (stats, units) => (⟨rng, g.seq + 1, stats⟩, units)

/-- What `n` rounds of the loop emit. -/
def emitted (c : Crates) : Nat → Gen ρ → Gen ρ × List (List UInt8)
  | 0, g => (g, [])
  | n + 1, g =>
    match next R set c g with
    | (g, units) =>
      match emitted c n g with
      | (g', rest) => (g', units ++ rest)

end

/-- An output with states `τ` and errors `ε`. -/
structure Sink (τ ε : Type) where
  writeAll : τ → List UInt8 → τ × Except ε Unit
  flush : τ → τ × Except ε Unit

/-- `emit`, of one unit after another: the tool exits at the first error. -/
def emitAll {τ ε : Type} (K : Sink τ ε) : τ → List (List UInt8) → τ × Except ε Unit
  | t, [] => (t, .ok ())
  | t, unit :: units =>
    match K.writeAll t unit with
    | (t, .error e) => (t, .error e)
    | (t, .ok _) => emitAll K t units

/-- The exits of the tool with an error, behind the opening of the sink. -/
inductive Failure (ε : Type)
  | unknownMode (text : String)
  | write (e : ε)
  | flush (e : ε)
  deriving DecidableEq

structure Args (F : Type) where
  count : UInt32
  seed : UInt64
  corrupt : List String
  corruptRate : F
  burstSize : UInt32

def parseModes (corrupt : List String) : Except String (List CorruptMode) :=
  (corrupt.filter (fun s => !s.isEmpty)).mapM CorruptMode.fromStr

section

variable {F ρ τ ε : Type} (R : Rng F ρ) [LT F] [LE F] [DecidableLT F] [DecidableLE F]

/-- The loop, and the flush behind it. -/
def frames (set : Settings F) (c : Crates) (K : Sink τ ε) : Nat → Gen ρ → τ → τ × Except (Failure ε) GenStats
  | 0, g, t =>
    match K.flush t with
    | (t, .error e) => (t, .error (.flush e))
    | (t, .ok _) => (t, .ok g.stats)
  | n + 1, g, t =>
    match next R set c g with
    | (g, units) =>
      match emitAll K t units with
      | (t, .error e) => (t, .error (.write e))
      | (t, .ok _) => frames set c K n g t

omit [LE F] [DecidableLE F] in
/-- `f64::clamp(0.0, 1.0)`: a NaN stays. -/
def clamp [Zero F] [One F] (rate : F) : F :=
  let rate := if rate < 0 then 0 else rate
  if rate > 1 then 1 else rate

def main [Zero F] [One F] (seedFromU64 : UInt64 → ρ) (c : Crates) (K : Sink τ ε) (args : Args F) (t : τ) :
    τ × Except (Failure ε) GenStats :=
  match parseModes args.corrupt with
  | .error text => (t, .error (.unknownMode text))
  | .ok modes =>
    frames R ⟨modes, clamp args.corruptRate, args.burstSize⟩ c K args.count.toNat ⟨seedFromU64 args.seed, 0, .default⟩ t

end

/-! ## Emissions -/

/-- What a round of the loop emits. -/
inductive Emission
  | valid (frame : Frame)
  | badCrc (frame : Frame) (pos : Nat)
  | truncated (frame : Frame) (len : Nat)
  | burst (frame : Frame) (extra : Nat)
  deriving DecidableEq

/-- A frame as the tool builds it. -/
def Drawn (f : Frame) : Prop := ∃ ptype ∈ types, ∃ severity ∈ severities, ∃ seq payload, payload.length ≤ 16 ∧
  Frame.new ptype severity seq payload = some f

theorem Drawn.wellFormed {f : Frame} (h : Drawn f) : f.WellFormed := by
  obtain ⟨ptype, htype, severity, hseverity, seq, payload, -, hnew⟩ := h
  obtain ⟨-, hheader, hlen⟩ := Frame.new_eq_some hnew
  refine ⟨hlen, ?_, ?_⟩
  · rw [hheader]
    exact (by decide +kernel : ∀ b ∈ types, (PacketType.tryFrom b).isSome = true) ptype htype
  · rw [hheader]
    exact (by decide +kernel : ∀ b ∈ severities, (Severity.tryFrom b).isSome = true) severity hseverity

theorem Drawn.length_le {f : Frame} (h : Drawn f) : f.payload.toList.length ≤ 16 := by
  obtain ⟨ptype, -, severity, -, seq, payload, hlen, hnew⟩ := h
  rw [(Frame.new_eq_some hnew).1]
  exact hlen

namespace Emission

def frame : Emission → Frame
  | valid f => f
  | badCrc f _ => f
  | truncated f _ => f
  | burst f _ => f

/-- The mode that makes it. -/
def mode : Emission → Option CorruptMode
  | valid _ => none
  | badCrc _ _ => some .badCrc
  | truncated _ _ => some .truncate
  | burst _ _ => some .burst

/-- The damage is inside the body. -/
def Inside (c : Crates) : Emission → Prop
  | valid _ => True
  | badCrc f pos => pos < (f.body c).length
  | truncated f len => 1 ≤ len ∧ len < (f.body c).length
  | burst _ _ => True

/-- The writes to the sink. -/
def units (c : Crates) : Emission → List (List UInt8)
  | valid f => [f.wire c]
  | badCrc f pos => [(f.wire c).modify pos (· ^^^ 0xAA)]
  | truncated f len => [(f.wire c).take len ++ [0x00]]
  | burst f extra => List.replicate (extra + 1) (f.wire c)

end Emission

/-- A round: the sequence numbers skipped, and what is emitted behind them. -/
structure Round where
  skipped : Nat
  emission : Emission
  deriving DecidableEq

/-- **A round that the settings allow.** -/
structure Round.Sound {F : Type} (set : Settings F) (c : Crates) (r : Round) : Prop where
  skipped : r.skipped = 0 ∨ (CorruptMode.seqGap ∈ set.modes ∧ 2 ≤ r.skipped ∧ r.skipped < 6)
  drawn : Drawn r.emission.frame
  inside : r.emission.Inside c
  mode : ∀ m ∈ r.emission.mode, m ∈ set.modes
  burst : ∀ f extra, r.emission = .burst f extra → extra = set.burstSize.toNat

/-- Rounds whose frames are numbered on from `seq`, but for the numbers skipped. -/
def NumberedFrom : UInt32 → List Round → Prop
  | _, [] => True
  | seq, r :: rs =>
    r.emission.frame.header.sequence = seq + UInt32.ofNat r.skipped ∧
      NumberedFrom (r.emission.frame.header.sequence + 1) rs

def GenStats.count (s : GenStats) : Emission → GenStats
  | .valid _ => { s with valid := s.valid + 1 }
  | .badCrc _ _ => { s with badCrc := s.badCrc + 1 }
  | .truncated _ _ => { s with truncated := s.truncated + 1 }
  | .burst _ extra => { s with valid := s.valid + 1, burstExtra := s.burstExtra + UInt32.ofNat extra }

def GenStats.countSkip (s : GenStats) (skipped : Nat) : GenStats :=
  if skipped = 0 then s else { s with seqGap := s.seqGap + 1 }

def GenStats.tally (s : GenStats) (r : Round) : GenStats := (s.countSkip r.skipped).count r.emission

section

variable {F ρ : Type} (R : Rng F ρ)

theorem pick_mem (rng : ρ) (table : List UInt8) (h : 0 < table.length) : (pick R rng table h).2 ∈ table :=
  List.get_mem _ _

theorem length_payload : ∀ (n : Nat) (rng : ρ), (payload R n rng).2.length = n
  | 0, _ => rfl
  | n + 1, rng => congrArg (· + 1) (length_payload n (R.byte rng).1)

theorem drawFrame_spec (seq : UInt32) (rng : ρ) :
    ∃ f, (drawFrame R seq rng).2 = some f ∧ Drawn f ∧ f.header.sequence = seq := by
  let ptype := pick R rng types (by decide)
  let severity := pick R ptype.1 severities (by decide)
  let payloadLen := R.range severity.1 0 17 (by decide)
  have hlen : (payload R payloadLen.2 payloadLen.1).2.length ≤ 16 := by
    rw [length_payload]
    exact Nat.le_of_lt_succ payloadLen.2.2.2
  obtain ⟨f, hf⟩ := Option.isSome_iff_exists.1
    ((Frame.new_isSome ptype.2 severity.2 seq _).2 (Nat.le_trans hlen (by decide)))
  refine ⟨f, hf, ⟨_, pick_mem R _ _ _, _, pick_mem R _ _ _, _, _, hlen, hf⟩, ?_⟩
  rw [(Frame.new_eq_some hf).2.1]

theorem length_wire (c : Crates) (f : Frame) : (f.wire c).length - 1 = (f.body c).length := by
  rw [Frame.wire, List.length_append, List.length_singleton, Nat.add_sub_cancel]

variable [LE F] [DecidableLE F] (set : Settings F)

/-- **What is done to a frame is one emission**: counted once, and inside the frame. -/
theorem applyCorruption_spec (c : Crates) (f : Frame) : ∀ (modes : List CorruptMode) (rng : ρ) (stats : GenStats),
    ∃ e : Emission, e.frame = f ∧ e.Inside c ∧ (∀ m ∈ e.mode, m ∈ modes) ∧
      (∀ f extra, e = .burst f extra → extra = set.burstSize.toNat) ∧
      settle (f.wire c) (applyCorruption R set (f.wire c) modes rng stats).2.1
        (applyCorruption R set (f.wire c) modes rng stats).2.2 = (stats.count e, e.units c)
  | [], rng, stats => ⟨.valid f, rfl, trivial, fun _ h => (by cases h), fun _ _ h => (by cases h), rfl⟩
  | mode :: modes, rng, stats => by
    have ih := applyCorruption_spec c f modes (R.f64 rng).1 stats
    have hlater : ∃ e : Emission, e.frame = f ∧ e.Inside c ∧ (∀ m ∈ e.mode, m ∈ mode :: modes) ∧
        (∀ f extra, e = .burst f extra → extra = set.burstSize.toNat) ∧
        settle (f.wire c) (applyCorruption R set (f.wire c) modes (R.f64 rng).1 stats).2.1
          (applyCorruption R set (f.wire c) modes (R.f64 rng).1 stats).2.2 = (stats.count e, e.units c) := by
      obtain ⟨e, hframe, hinside, hmode, hburst, hsettle⟩ := ih
      exact ⟨e, hframe, hinside, fun m hm => List.mem_cons_of_mem _ (hmode m hm), hburst, hsettle⟩
    rw [applyCorruption]
    simp only
    by_cases hdraw : (R.f64 rng).2 ≥ set.corruptRate
    · rw [if_pos hdraw]
      exact hlater
    rw [if_neg hdraw]
    cases mode with
    | seqGap => exact hlater
    | burst =>
      refine ⟨.burst f set.burstSize.toNat, rfl, trivial, fun m hm => ?_, ?_, ?_⟩
      · obtain rfl := Option.some.inj hm
        exact List.mem_cons_self
      · rintro _ _ ⟨⟩
        rfl
      · simp [settle, GenStats.count, Emission.units, List.replicate_succ]
    | badCrc =>
      simp only
      split
      · exact ⟨.valid f, rfl, trivial, fun _ h => (by cases h), fun _ _ h => (by cases h), rfl⟩
      · rename_i hlen
        have hlt := (R.range (R.f64 rng).1 0 ((f.wire c).length - 1) (by omega)).2.2.2
        refine ⟨.badCrc f _, rfl, hlt.trans_eq (length_wire c f), fun m hm => ?_, fun _ _ h => (by cases h), rfl⟩
        obtain rfl := Option.some.inj hm
        exact List.mem_cons_self
    | truncate =>
      simp only
      split
      · exact ⟨.valid f, rfl, trivial, fun _ h => (by cases h), fun _ _ h => (by cases h), rfl⟩
      · rename_i hlen
        have hle := (R.range (R.f64 rng).1 1 ((f.wire c).length - 1) (by omega)).2.2.1
        have hlt := (R.range (R.f64 rng).1 1 ((f.wire c).length - 1) (by omega)).2.2.2
        refine ⟨.truncated f _, rfl, ⟨hle, hlt.trans_eq (length_wire c f)⟩, fun m hm => ?_,
          fun _ _ h => (by cases h), rfl⟩
        obtain rfl := Option.some.inj hm
        exact List.mem_cons_self

variable [LT F] [DecidableLT F]

omit [LE F] [DecidableLE F] in
theorem skip_spec (g : Gen ρ) : ∃ skipped : Nat,
    (skipped = 0 ∨ (CorruptMode.seqGap ∈ set.modes ∧ 2 ≤ skipped ∧ skipped < 6)) ∧
    (skip R set g).seq = g.seq + UInt32.ofNat skipped ∧ (skip R set g).stats = g.stats.countSkip skipped := by
  have hnone : g.seq = g.seq + UInt32.ofNat 0 := (UInt32.add_zero _).symm
  unfold skip
  split
  · rename_i hmode
    simp only
    split
    · obtain ⟨hlo, hhi⟩ := (R.range (R.f64 g.rng).1 2 6 (by decide)).2.2
      refine ⟨_, Or.inr ⟨List.contains_iff_mem.1 hmode, hlo, hhi⟩, rfl, ?_⟩
      rw [GenStats.countSkip, if_neg (by omega)]
    · exact ⟨0, Or.inl rfl, hnone, rfl⟩
  · exact ⟨0, Or.inl rfl, hnone, rfl⟩

/-- **One round**: the two branches of the source that pass a frame over are never taken. -/
theorem next_spec {c : Crates} (hc : c.Standard) (g : Gen ρ) : ∃ r : Round, r.Sound set c ∧
    r.emission.frame.header.sequence = g.seq + UInt32.ofNat r.skipped ∧
    (next R set c g).2 = r.emission.units c ∧ (next R set c g).1.seq = r.emission.frame.header.sequence + 1 ∧
    (next R set c g).1.stats = g.stats.tally r := by
  obtain ⟨skipped, hskipped, hseq, hstats⟩ := skip_spec R set g
  obtain ⟨f, hf, hdrawn, hfseq⟩ := drawFrame_spec R (skip R set g).seq (skip R set g).rng
  obtain ⟨e, hframe, hinside, hmode, hburst, hsettle⟩ := applyCorruption_spec R set c f set.modes
    (drawFrame R (skip R set g).seq (skip R set g).rng).1 (skip R set g).stats
  obtain ⟨rng, hnext⟩ : ∃ rng,
      next R set c g = (⟨rng, (skip R set g).seq + 1, (skip R set g).stats.count e⟩, e.units c) := by
    unfold next
    simp only
    rw [← Prod.eta (drawFrame R (skip R set g).seq (skip R set g).rng), hf]
    simp only
    rw [f.encodeCobs_eq_some hc (Nat.le_refl _), ← Frame.wire]
    simp only
    rw [hsettle]
    exact ⟨_, rfl⟩
  have hsequence : e.frame.header.sequence = (skip R set g).seq := by rw [hframe, hfseq]
  rw [hnext]
  refine ⟨⟨skipped, e⟩, ⟨hskipped, ?_, hinside, hmode, hburst⟩, hsequence.trans hseq, rfl, ?_, ?_⟩
  · rw [hframe]
    exact hdrawn
  · rw [hsequence]
  · rw [GenStats.tally, ← hstats]

/-- **A run of the loop is a list of rounds**, numbered from where it starts and each counted once. -/
theorem emitted_spec {c : Crates} (hc : c.Standard) : ∀ (n : Nat) (g : Gen ρ), ∃ rounds : List Round,
    rounds.length = n ∧ (∀ r ∈ rounds, r.Sound set c) ∧ NumberedFrom g.seq rounds ∧
    (emitted R set c n g).2 = rounds.flatMap (fun r => r.emission.units c) ∧
    (emitted R set c n g).1.stats = rounds.foldl GenStats.tally g.stats
  | 0, g => ⟨[], rfl, fun _ h => absurd h List.not_mem_nil, trivial, rfl, rfl⟩
  | n + 1, g => by
    obtain ⟨r, hsound, hnum, hunits, hseq, hstats⟩ := next_spec R set hc g
    obtain ⟨rounds, hlen, hsounds, hnums, hemitted, htally⟩ := emitted_spec hc n (next R set c g).1
    rw [hseq] at hnums
    rw [hstats] at htally
    refine ⟨r :: rounds, congrArg (· + 1) hlen, List.forall_mem_cons.2 ⟨hsound, hsounds⟩, ⟨hnum, hnums⟩, ?_, htally⟩
    rw [emitted, List.flatMap_cons, ← hunits, ← hemitted]

/-! ## The sink -/

variable {τ ε : Type} (K : Sink τ ε)

theorem emitAll_append : ∀ (units more : List (List UInt8)) (t : τ), emitAll K t (units ++ more)
    = match emitAll K t units with
      | (t, .error e) => (t, .error e)
      | (t, .ok _) => emitAll K t more
  | [], _, _ => rfl
  | unit :: units, more, t => by
    rw [List.cons_append, emitAll, emitAll]
    cases K.writeAll t unit with
    | mk t' res =>
      cases res with
      | error e => rfl
      | ok u => exact emitAll_append units more t'

/-- **The sink gets what is emitted, in order**, up to the first write that fails; the flush comes behind all of it. -/
theorem frames_eq (c : Crates) : ∀ (n : Nat) (g : Gen ρ) (t : τ), frames R set c K n g t
    = match emitAll K t (emitted R set c n g).2 with
      | (t, .error e) => (t, .error (.write e))
      | (t, .ok _) =>
        match K.flush t with
        | (t, .error e) => (t, .error (.flush e))
        | (t, .ok _) => (t, .ok (emitted R set c n g).1.stats)
  | 0, _, _ => rfl
  | n + 1, g, t => by
    rw [frames, emitted, emitAll_append]
    simp only
    cases emitAll K t (next R set c g).2 with
    | mk t' res =>
      cases res with
      | error e => rfl
      | ok u => exact frames_eq c n (next R set c g).1 t'

end

/-! ## The summary -/

namespace Emission

def damaged : Emission → Bool
  | badCrc _ _ => true
  | truncated _ _ => true
  | _ => false

def extra : Emission → Nat
  | burst _ extra => extra
  | _ => 0

theorem length_units (c : Crates) (e : Emission) : (e.units c).length = e.extra + 1 := by
  cases e with
  | burst f extra => exact List.length_replicate
  | _ => rfl

end Emission

/-- The sum of a number of each round. -/
def total (w : Round → Nat) : List Round → Nat
  | [] => 0
  | r :: rounds => w r + total w rounds

theorem foldl_tally {k : GenStats → UInt32} {w : Round → Nat}
    (hk : ∀ s r, k (s.tally r) = k s + UInt32.ofNat (w r)) : ∀ (rounds : List Round) (s : GenStats),
    k (rounds.foldl GenStats.tally s) = k s + UInt32.ofNat (total w rounds)
  | [], s => (UInt32.add_zero _).symm
  | r :: rounds, s => by
    rw [List.foldl_cons, foldl_tally hk rounds, hk, total, UInt32.ofNat_add, UInt32.add_assoc]

theorem total_ite (q : Round → Bool) : ∀ rounds : List Round,
    total (fun r => if q r then 1 else 0) rounds = rounds.countP q
  | [] => rfl
  | r :: rounds => by rw [total, List.countP_cons, total_ite q rounds, Nat.add_comm]

/-- A counter of rounds, at the end of a run. -/
theorem foldl_tally_toNat {k : GenStats → UInt32} {q : Round → Bool}
    (hk : ∀ s r, k (s.tally r) = k s + UInt32.ofNat (if q r then 1 else 0)) (h0 : k .default = 0) {rounds : List Round}
    (hlen : rounds.length < 2 ^ 32) : (k (rounds.foldl GenStats.tally .default)).toNat = rounds.countP q := by
  rw [foldl_tally hk, h0, UInt32.zero_add, total_ite]
  exact UInt32.toNat_ofNat_of_lt' (Nat.lt_of_le_of_lt List.countP_le_length hlen)

/-- A skip is counted in `seqGap` alone. -/
theorem countSkip_eq (s : GenStats) (skipped : Nat) : s.countSkip skipped
    = { s with seqGap := s.seqGap + UInt32.ofNat (if decide (skipped ≠ 0) then 1 else 0) } := by
  unfold GenStats.countSkip
  by_cases h : skipped = 0 <;> simp [h]

theorem countP_damaged : ∀ rounds : List Round, rounds.countP (fun r => r.emission.mode == some .badCrc)
    + rounds.countP (fun r => r.emission.mode == some .truncate) = rounds.countP (fun r => r.emission.damaged)
  | [] => rfl
  | r :: rounds => by
    have ih := countP_damaged rounds
    rw [List.countP_cons, List.countP_cons, List.countP_cons, ← ih]
    cases r.emission <;> simp [Emission.mode, Emission.damaged] <;> omega

/-- **The summary of a run** of fewer than `2 ^ 32` rounds.  Only the copies can be more than a counter holds. -/
theorem summary {rounds : List Round} (hlen : rounds.length < 2 ^ 32) :
    let stats := rounds.foldl GenStats.tally .default
    stats.valid.toNat = rounds.countP (fun r => !r.emission.damaged) ∧
    stats.badCrc.toNat = rounds.countP (fun r => r.emission.mode == some .badCrc) ∧
    stats.truncated.toNat = rounds.countP (fun r => r.emission.mode == some .truncate) ∧
    stats.seqGap.toNat = rounds.countP (fun r => decide (r.skipped ≠ 0)) ∧
    stats.burstExtra.toNat = total (fun r => r.emission.extra) rounds % 2 ^ 32 := by
  intro stats
  refine ⟨?_, ?_, ?_, ?_, ?_⟩
  · refine foldl_tally_toNat (fun s r => ?_) rfl hlen
    rw [GenStats.tally, countSkip_eq]
    cases r.emission <;> simp [GenStats.count, Emission.damaged]
  · refine foldl_tally_toNat (fun s r => ?_) rfl hlen
    rw [GenStats.tally, countSkip_eq]
    cases r.emission <;> simp [GenStats.count, Emission.mode]
  · refine foldl_tally_toNat (fun s r => ?_) rfl hlen
    rw [GenStats.tally, countSkip_eq]
    cases r.emission <;> simp [GenStats.count, Emission.mode]
  · refine foldl_tally_toNat (fun s r => ?_) rfl hlen
    rw [GenStats.tally, countSkip_eq]
    cases r.emission <;> rfl
  · have hextra : stats.burstExtra = UInt32.ofNat (total (fun r => r.emission.extra) rounds) := by
      refine (foldl_tally (k := GenStats.burstExtra) (w := fun r => r.emission.extra) (fun s r => ?_) rounds _).trans ?_
      · rw [GenStats.tally, countSkip_eq]
        cases r.emission <;> simp [GenStats.count, Emission.extra]
      · exact UInt32.zero_add _
    rw [hextra]
    exact UInt32.toNat_ofNat'

/-- The frames that the summary counts as damaged. -/
theorem damaged_summary {rounds : List Round} (hlen : rounds.length < 2 ^ 32) :
    (rounds.foldl GenStats.tally .default).badCrc.toNat + (rounds.foldl GenStats.tally .default).truncated.toNat
      = rounds.countP (fun r => r.emission.damaged) := by
  obtain ⟨-, hbadCrc, htruncated, -⟩ := summary hlen
  rw [hbadCrc, htruncated, countP_damaged]

/-- Each round is counted once. -/
theorem rounds_summary {rounds : List Round} (hlen : rounds.length < 2 ^ 32) :
    (rounds.foldl GenStats.tally .default).valid.toNat + ((rounds.foldl GenStats.tally .default).badCrc.toNat
      + (rounds.foldl GenStats.tally .default).truncated.toNat) = rounds.length := by
  rw [(summary hlen).1, damaged_summary hlen, Nat.add_comm,
    List.length_eq_countP_add_countP (fun r : Round => r.emission.damaged)]
  simp

theorem length_units_rounds (c : Crates) : ∀ rounds : List Round,
    (rounds.flatMap fun r => r.emission.units c).length = rounds.length + total (fun r => r.emission.extra) rounds
  | [] => rfl
  | r :: rounds => by
    rw [List.flatMap_cons, List.length_append, Emission.length_units, length_units_rounds c rounds, List.length_cons,
      total]
    omega

section

variable {F ρ τ ε : Type} (R : Rng F ρ) [LT F] [LE F] [DecidableLT F] [DecidableLE F] [Zero F] [One F]

/-- **The tool accounts for everything it writes.**  Whatever is drawn, a run with known modes is one round for each
frame asked for, each with its own frame and within the settings; the frames are numbered from 0, but for the numbers
skipped.  The sink gets the writes of all rounds in order and then the flush, up to the first that fails; without a
failure the summary counts each round once as valid, as a bad CRC or as truncated, and each skip once.  The copies are
counted modulo `2 ^ 32`: they can be more than the counter holds. -/
theorem main_accounts {c : Crates} (hc : c.Standard) (seedFromU64 : UInt64 → ρ) (K : Sink τ ε) (args : Args F) (t : τ)
    {modes : List CorruptMode} (hmodes : parseModes args.corrupt = .ok modes) : ∃ rounds : List Round,
    let units := rounds.flatMap (fun r => r.emission.units c)
    let stats := rounds.foldl GenStats.tally .default
    rounds.length = args.count.toNat ∧
    (∀ r ∈ rounds, r.Sound ⟨modes, clamp args.corruptRate, args.burstSize⟩ c) ∧ NumberedFrom 0 rounds ∧
    main R seedFromU64 c K args t = (match emitAll K t units with
      | (t, .error e) => (t, .error (.write e))
      | (t, .ok _) =>
        match K.flush t with
        | (t, .error e) => (t, .error (.flush e))
        | (t, .ok _) => (t, .ok stats)) ∧
    units.length = args.count.toNat + total (fun r => r.emission.extra) rounds ∧
    stats.valid.toNat + (stats.badCrc.toNat + stats.truncated.toNat) = args.count.toNat ∧
    stats.valid.toNat = rounds.countP (fun r => !r.emission.damaged) ∧
    stats.badCrc.toNat = rounds.countP (fun r => r.emission.mode == some .badCrc) ∧
    stats.truncated.toNat = rounds.countP (fun r => r.emission.mode == some .truncate) ∧
    stats.seqGap.toNat = rounds.countP (fun r => decide (r.skipped ≠ 0)) ∧
    stats.burstExtra.toNat = total (fun r => r.emission.extra) rounds % 2 ^ 32 := by
  obtain ⟨rounds, hlen, hsound, hnum, hunits, hstats⟩ := emitted_spec R
    ⟨modes, clamp args.corruptRate, args.burstSize⟩ hc args.count.toNat ⟨seedFromU64 args.seed, 0, .default⟩
  have hfew : rounds.length < 2 ^ 32 := by
    rw [hlen]
    exact args.count.toNat_lt
  refine ⟨rounds, hlen, hsound, hnum, ?_, ?_, ?_, summary hfew⟩
  · rw [main, hmodes]
    simp only
    rw [frames_eq, hunits, hstats]
  · rw [length_units_rounds, hlen]
  · rw [rounds_summary hfew, hlen]

end

/-- Draws that count up. -/
def counting : Rng Nat Nat where
  f64 n := (n + 1, n % 2)
  byte n := (n + 1, UInt8.ofNat n)
  range n lo hi h := (n + 1, ⟨lo + n % (hi - lo), Nat.le_add_right _ _, by
    have := Nat.mod_lt n (Nat.sub_pos_of_lt h)
    omega⟩)

/-- An output that keeps what is written. -/
def collecting : Sink (List (List UInt8)) Unit where
  writeAll written unit := (written ++ [unit], .ok ())
  flush written := (written, .ok ())

theorem emitAll_collecting : ∀ units written : List (List UInt8),
    emitAll collecting written units = (written ++ units, .ok ())
  | [], written => by rw [List.append_nil, emitAll]
  | unit :: units, written => by
    rw [List.append_cons]
    exact emitAll_collecting units (written ++ [unit])

/-- Three frames: one cut to five bytes, and two that are copied, the first of them behind a skip. -/
theorem main_accounts_run :
    let args : Args Nat := ⟨3, 9, ["burst", "truncate", "", "seq-gap"], 1, 2⟩
    let burst := [5, 1, 1, 4, 4, 1, 1, 2, 15, 18, 33, 34, 35, 36, 37, 38, 39, 40, 41, 42, 43, 44, 45, 46, 47, 221, 41,
      0]
    let burst' := [5, 1, 1, 1, 5, 1, 1, 2, 1, 4, 53, 76, 79, 0]
    let units := [[4, 1, 1, 1, 1, 0], burst, burst, burst, burst', burst', burst']
    ∃ rounds : List Round, rounds.length = 3 ∧ NumberedFrom 0 rounds ∧
      rounds.flatMap (fun r => r.emission.units Crates.documented) = units ∧
      main counting UInt64.toNat Crates.documented collecting args [] = (units, .ok ⟨2, 0, 1, 1, 4⟩) ∧
      rounds.countP (fun r => !r.emission.damaged) = 2 ∧
      rounds.countP (fun r => r.emission.mode == some .truncate) = 1 ∧
      rounds.countP (fun r => decide (r.skipped ≠ 0)) = 1 ∧
      total (fun r => r.emission.extra) rounds % 2 ^ 32 = 4 := by
  intro args burst burst' units
  obtain ⟨rounds, hlen, -, hnum, hmain, -, -, hvalid, -, htruncated, hgaps, hextra⟩ := main_accounts counting
    Crates.documented_standard UInt64.toNat collecting args []
    (show parseModes ["burst", "truncate", "", "seq-gap"] = .ok [.burst, .truncate, .seqGap] from rfl)
  have hrun : main counting UInt64.toNat Crates.documented collecting args [] = (units, .ok ⟨2, 0, 1, 1, 4⟩) := by
    decide +kernel
  rw [emitAll_collecting, hrun] at hmain
  obtain ⟨hunits, hstats⟩ := Prod.mk.inj hmain
  have hstats := Except.ok.inj hstats
  rw [← hstats] at hvalid htruncated hgaps hextra
  exact ⟨rounds, hlen, hnum, hunits.symm, hrun, hvalid.symm, htruncated.symm, hgaps.symm, hextra.symm⟩

end Generator
end Telemetry
