import TelemetryLogger.Delivery
/-!
# Batch — a stream judged segment by segment

Up to quiet ones, the verdicts on a stream's bytes are the verdicts on its closed segments, one after another, each
judged after the last sequence number that reached the check (`judgeAll_segments`).  A segment either holds a frame that
passes the structural checks and the CRC (`Intact`) or leaves nothing behind (`judgeSegment_of_not_intact`).
-/
namespace Telemetry

open Record (image)

variable {N Q : Nat} {σ ε : Type}

/-- The closed segments of a stream, each with the time of its delimiter. -/
def segments (bytes : List TimedByte) : List (List UInt8 × UInt64) :=
  (Split.closed 0 (untimed bytes)).zip (completions bytes)

/-- One segment after the sequence number `last`: the next such number, and the verdict. -/
def judgeSegment (c : Crates) (N : Nat) (filter : FilterConfig) (last : Option UInt32) (x : List UInt8 × UInt64) :
    Option UInt32 × Verdict :=
  (((reached c N x.1).map (·.header.sequence)).or last,
    if x.1 = [] then .quiet else if N < x.1.length then .crcFail else judge c filter last x.1 x.2)

def judgeAll (c : Crates) (N : Nat) (filter : FilterConfig) (last : Option UInt32)
    (xs : List (List UInt8 × UInt64)) : Option UInt32 × List Verdict :=
  Machine.run (judgeSegment c N filter) last xs

theorem untimed_append (bytes more : List TimedByte) : untimed (bytes ++ more) = untimed bytes ++ untimed more :=
  List.map_append

theorem length_completions (bytes : List TimedByte) :
    (completions bytes).length = (Split.closed 0 (untimed bytes)).length := by
  induction bytes using List.reverseRecOn with
  | nil => rw [untimed, List.map_nil, Split.closed_nil]; rfl
  | append_singleton bytes b ih =>
    rw [completions_append, List.length_append, ih, untimed_append]
    by_cases hb : b.byte = 0
    · have hnow : completions [b] = [b.now] := by
        rw [completions, List.filter_singleton, hb]
        rfl
      have hsep : untimed [b] = [0] := congrArg (fun x => [x]) hb
      rw [hnow, hsep, Split.closed_snoc_sep, List.length_append]
      rfl
    · have hmem : 0 ∉ untimed [b] := fun h => hb (List.mem_singleton.1 h).symm
      rw [completions_of_not_mem hmem, Split.closed_append_of_not_mem 0 _ hmem]
      rfl

theorem segments_snoc (bytes : List TimedByte) {b : TimedByte} (hb : b.byte ≠ 0) :
    segments (bytes ++ [b]) = segments bytes := by
  have hmem : 0 ∉ untimed [b] := fun h => hb (List.mem_singleton.1 h).symm
  rw [segments, untimed_append, Split.closed_append_of_not_mem 0 _ hmem, completions_append,
    completions_of_not_mem hmem, List.append_nil, ← segments]

theorem segments_snoc_zero (bytes : List TimedByte) (now : UInt64) :
    segments (bytes ++ [⟨0, now⟩]) = segments bytes ++ [(Split.opened 0 (untimed bytes), now)] := by
  rw [segments, untimed_append, completions_append]
  show (Split.closed 0 (untimed bytes ++ [0])).zip (completions bytes ++ [now]) = _
  rw [Split.closed_snoc_sep, List.zip_append (length_completions bytes).symm]
  rfl

/-- **A stream is judged segment by segment**: its verdicts are those on its closed segments, and one more if its open
segment has overflowed. -/
theorem judgeAll_segments (c : Crates) (N : Nat) (filter : FilterConfig) (bytes : List TimedByte) :
    (judgeAll c N filter none (segments bytes)).1 = lastReached c N (untimed bytes) ∧
    spoken (verdicts c N filter [] bytes) = spoken (judgeAll c N filter none (segments bytes)).2
      ++ if N < (Split.opened 0 (untimed bytes)).length then [.crcFail] else [] := by
  induction bytes using List.reverseRecOn with
  | nil =>
    rw [segments, untimed, List.map_nil, Split.closed_nil, Split.opened_nil, lastReached, Split.closed_nil]
    exact ⟨rfl, rfl⟩
  | append_singleton bytes b ih =>
    obtain ⟨hlast, hspoken⟩ := ih
    obtain ⟨byte, now⟩ := b
    rw [verdicts_append, spoken_append, hspoken, List.nil_append, untimed_append]
    by_cases hb : byte = 0
    · subst hb
      rw [segments_snoc_zero, judgeAll, Machine.run_snoc_fst, Machine.run_snoc_snd, ← judgeAll, hlast]
      refine ⟨(lastReached_snoc_zero c N (untimed bytes)).symm, ?_⟩
      show _ ++ spoken [verdictAt c N filter (untimed bytes) ⟨0, now⟩]
        = _ ++ if N < (Split.opened 0 (untimed bytes ++ [0])).length then [.crcFail] else []
      rw [Split.opened_snoc_sep, spoken_append, judgeSegment, verdictAt]
      by_cases hnil : Split.opened 0 (untimed bytes) = []
      · simp [hnil, spoken]
      by_cases hlong : N < (Split.opened 0 (untimed bytes)).length
      · simp [hnil, hlong, spoken]
      · simp [hnil, hlong, spoken]
    · rw [segments_snoc bytes hb]
      have hopen := Split.opened_snoc (0 : UInt8) (untimed bytes) hb
      refine ⟨hlast.trans (lastReached_snoc c N (untimed bytes) hb).symm, ?_⟩
      show _ ++ spoken [verdictAt c N filter (untimed bytes) ⟨byte, now⟩]
        = _ ++ if N < (Split.opened 0 (untimed bytes ++ [byte])).length then [.crcFail] else []
      rw [hopen, List.length_append, List.length_singleton, verdictAt, if_pos hb, List.append_assoc]
      refine congrArg (spoken (judgeAll c N filter none (segments bytes)).2 ++ ·) ?_
      rcases Nat.lt_trichotomy (Split.opened 0 (untimed bytes)).length N with hlt | heq | hgt
      · simp [Nat.ne_of_lt hlt, Nat.not_lt.2 hlt, Nat.not_lt.2 (Nat.le_of_lt hlt), spoken]
      · simp [heq, spoken]
      · simp [Nat.ne_of_gt hgt, hgt, Nat.lt_succ_of_lt hgt, spoken]

/-- **What is offered in a stream is what is offered in its segments.** -/
theorem offers_verdicts (c : Crates) (N : Nat) (filter : FilterConfig) (bytes : List TimedByte) :
    offers (verdicts c N filter [] bytes) = offers (judgeAll c N filter none (segments bytes)).2 := by
  rw [← offers_spoken, (judgeAll_segments c N filter bytes).2, offers, List.flatMap_append, ← offers, ← offers,
    offers_spoken]
  split <;> exact List.append_nil _

/-! ## What a run records -/

/-- **The records queued in a run**: those taken out were passed to `write`, in order, and the others wait. -/
def Recorded (c : Crates) (x : Pipeline N Q × σ × List Op) (rs : List StoredRecord) : Prop :=
  ∃ written, x.2.2.filterMap Op.data = written.map (image c) ∧ written ++ x.1.queued = rs

theorem Recorded.unique {c : Crates} (hc : c.Standard) {x : Pipeline N Q × σ × List Op} {rs rs' : List StoredRecord}
    (h : Recorded c x rs) (h' : Recorded c x rs') : rs = rs' := by
  obtain ⟨written, hdata, rfl⟩ := h
  obtain ⟨written', hdata', rfl⟩ := h'
  rw [(List.map_injective_iff.2 (Record.image_injective hc)) (hdata.symm.trans hdata')]

/-- **Whatever the storage does**, a run that drops nothing records what its stream offers, and counts its verdicts. -/
theorem recorded_of_noDrop {c : Crates} (hc : c.Standard) (S : Storage σ ε) (filter : FilterConfig) (s : σ)
    (calls : List Call)
    (hdrop : NoDrop (history c S.traced filter ((Pipeline.new filter : Pipeline N Q), s, []) [] calls)) :
    let x := after c S.traced ((Pipeline.new filter : Pipeline N Q), s, []) calls
    let vs := verdicts c N filter [] (stream calls)
    Recorded c x (offers vs) ∧
    ∀ k, x.1.stats.counter k = UInt64.ofNat (((spoken vs).filterMap (Verdict.counter false)).count k) := by
  intro x vs
  constructor
  · obtain ⟨⟨written, hdata, hrec⟩, -⟩ := conserved_after (N := N) (Q := Q) hc S filter s calls
    rw [hdrop.admitted_eq, history_verdicts] at hrec
    exact ⟨written, hdata, hrec⟩
  · intro k
    refine (counter_after c S.traced filter (s, []) calls k).trans ?_
    rw [hdrop.count_classes, history_verdicts]

/-- **A run that drops nothing on a healthy storage stores what its stream offers**, and counts its verdicts. -/
theorem stored_of_noDrop {c : Crates} (hc : c.Standard) {S : Storage σ ε} (hS : Healthy S) (filter : FilterConfig)
    (s : σ) (calls : List Call)
    (hdrop : NoDrop (history c S.traced filter ((Pipeline.new filter : Pipeline N Q), s, []) [] (calls ++ [.drain]))) :
    let x := after c S.traced ((Pipeline.new filter : Pipeline N Q), s, []) (calls ++ [.drain])
    let vs := verdicts c N filter [] (stream calls)
    x.2.2.filterMap Op.data = (offers vs).map (image c) ∧
    (∀ k, x.1.stats.counter k = UInt64.ofNat (((spoken vs).filterMap (Verdict.counter false)).count k)) ∧
    x.1.stats.writeFail = 0 := by
  intro x vs
  obtain ⟨⟨written, hdata, hrec⟩, hcounter⟩ := recorded_of_noDrop hc S filter s (calls ++ [.drain]) hdrop
  rw [stream_snoc_drain] at hrec hcounter
  have hempty : x.1.queued = [] := queued_drain hc hS.traced _ calls
  refine ⟨?_, hcounter, after_writeFail hc hS.traced _ (tracks_new c filter)⟩
  rw [hdata, ← hrec]
  exact congrArg (List.map (image c)) ((congrArg (written ++ ·) hempty).trans (List.append_nil _)).symm

/-! ## Intact segments -/

/-- **The segment `p` holds the frame `f`**: it passes the framer's structural checks and the CRC. -/
structure Intact (c : Crates) (N : Nat) (p : List UInt8) (f : Frame) : Prop where
  nonempty : p ≠ []
  length : p.length ≤ N
  decodes : ∃ d, ∃ h : WellSized d, c.cobsDecode p = some d ∧ frameOf d h = f
  crc : computedCrc c f = ofLeBytes f.crcBytes

/-- The receiver knows the frame's type and severity. -/
def Frame.Known (f : Frame) : Prop :=
  (PacketType.tryFrom f.header.packetType).isSome = true ∧ (Severity.tryFrom f.header.severity).isSome = true

instance (f : Frame) : Decidable f.Known := inferInstanceAs (Decidable (_ ∧ _))

theorem unknown_iff (f : Frame) :
    ((PacketType.tryFrom f.header.packetType).isNone || (Severity.tryFrom f.header.severity).isNone) = true
      ↔ ¬ f.Known := by
  unfold Frame.Known
  cases (PacketType.tryFrom f.header.packetType) <;> cases (Severity.tryFrom f.header.severity) <;> simp

theorem judgeFrame_of_unknown {c : Crates} {f : Frame} (hcrc : computedCrc c f = ofLeBytes f.crcBytes) (hk : ¬ f.Known)
    (filter : FilterConfig) (last : Option UInt32) (now : UInt64) : judgeFrame c filter last f now = .filtered := by
  rw [judgeFrame, if_neg (not_not.2 hcrc), if_pos ((unknown_iff f).2 hk)]

theorem Intact.counted_iff {c : Crates} {p : List UInt8} {f : Frame} (h : Intact c N p f) :
    Counted c f ↔ f.Known := by
  obtain ⟨d, hsz, -, rfl⟩ := h.decodes
  exact ⟨fun hc => ⟨hc.packetType, hc.severity⟩, fun hk => ⟨h.crc, hk.1, hk.2, payloadLen_frameOf d hsz⟩⟩

theorem Intact.reached {c : Crates} {p : List UInt8} {f : Frame} (h : Intact c N p f) :
    reached c N p = if f.Known then some f else none := by
  have hk := h.counted_iff
  obtain ⟨d, hsz, hdec, rfl⟩ := h.decodes
  rw [Telemetry.reached, if_neg (not_or.2 ⟨h.nonempty, Nat.not_lt.2 h.length⟩), hdec]
  simp only
  rw [dif_pos hsz]
  exact if_congr hk rfl rfl

/-- **An intact segment's frame is judged.** -/
theorem judgeSegment_of_intact {c : Crates} {p : List UInt8} {f : Frame} (h : Intact c N p f) (filter : FilterConfig)
    (last : Option UInt32) (now : UInt64) :
    judgeSegment c N filter last (p, now)
      = (if f.Known then some f.header.sequence else last, judgeFrame c filter last f now) := by
  have hreached := h.reached
  obtain ⟨d, hsz, hdec, hf⟩ := h.decodes
  rw [judgeSegment, hreached, if_neg h.nonempty, if_neg (Nat.not_lt.2 h.length), judge, hdec]
  simp only
  rw [dif_pos hsz, hf]
  refine Prod.ext ?_ rfl
  by_cases hk : f.Known
  · rw [if_pos hk, if_pos hk]
    rfl
  · rw [if_neg hk, if_neg hk]
    rfl

theorem intact_of_reached {c : Crates} {p : List UInt8} {f : Frame} (h : reached c N p = some f) : Intact c N p f := by
  unfold reached at h
  split at h
  · cases h
  rename_i hseg
  rw [not_or, Nat.not_lt] at hseg
  split at h
  · cases h
  rename_i d hdec
  split at h
  case isFalse => cases h
  rename_i hsz
  split at h
  case isFalse => cases h
  rename_i hcounted
  obtain rfl := Option.some.inj h
  exact ⟨hseg.1, hseg.2, ⟨d, hsz, hdec, rfl⟩, hcounted.crc⟩

/-- **A segment that is not intact leaves nothing**: no offer, and the sequence number as it was. -/
theorem judgeSegment_of_not_intact {c : Crates} {p : List UInt8} (h : ∀ f, ¬ Intact c N p f) (filter : FilterConfig)
    (last : Option UInt32) (now : UInt64) :
    (judgeSegment c N filter last (p, now)).1 = last ∧
      ((judgeSegment c N filter last (p, now)).2 = .quiet ∨ (judgeSegment c N filter last (p, now)).2 = .crcFail) := by
  have hreached : reached c N p = none := by
    rw [Option.eq_none_iff_forall_not_mem]
    exact fun f hf => h f (intact_of_reached hf)
  unfold judgeSegment
  rw [hreached]
  refine ⟨rfl, ?_⟩
  simp only
  by_cases hnil : p = []
  · rw [if_pos hnil]
    exact Or.inl rfl
  by_cases hlong : N < p.length
  · rw [if_neg hnil, if_pos hlong]
    exact Or.inr rfl
  rw [if_neg hnil, if_neg hlong, judge]
  cases hdec : c.cobsDecode p with
  | none => exact Or.inr rfl
  | some d =>
    simp only
    by_cases hsz : WellSized d
    · rw [dif_pos hsz, judgeFrame, if_pos]
      · exact Or.inr rfl
      · exact fun hcrc => h (frameOf d hsz) ⟨hnil, Nat.not_lt.1 hlong, ⟨d, hsz, hdec, rfl⟩, hcrc⟩
    · rw [dif_neg hsz]
      exact Or.inr rfl

end Telemetry
