import TelemetryLogger.Conserve
import Mathlib.Data.List.Chain
/-!
# Delivery — a stream of good frames arrives whole

On the bytes of encoded frames in sequence every verdict is an offer (`verdicts_frames`).  If no more frames complete
between two drains than the queue holds, every offer is admitted (`history_noDrop`); if the storage does not fail, every
drain empties the queue (`drain_healthy`).  Together: what is read back is what was sent (`end_to_end`).
-/
namespace Telemetry

open Record (encode image)

variable {N Q : Nat} {σ ε : Type}

/-! ## The verdicts on encoded frames -/

/-- A frame as an encoder should get it: consistent, with a known type and severity. -/
structure Frame.WellFormed (f : Frame) : Prop where
  length : f.header.payloadLen.toNat = f.payload.len
  packetType : (PacketType.tryFrom f.header.packetType).isSome = true
  severity : (Severity.tryFrom f.header.severity).isSome = true

/-- Frames in sequence, modulo `2 ^ 32`. -/
def InSequence (frames : List Frame) : Prop :=
  List.IsChain (fun f g => g.header.sequence = f.header.sequence + 1) frames

/-- **What a good sender sends**: frames built by `new`, with known types and severities, in sequence. -/
structure Sendable (frames : List Frame) : Prop where
  built : ∀ f ∈ frames, ∃ packetType severity sequence payload, Frame.new packetType severity sequence payload = some f
  packetType : ∀ f ∈ frames, 1 ≤ f.header.packetType.toNat ∧ f.header.packetType.toNat ≤ 5
  severity : ∀ f ∈ frames, f.header.severity.toNat ≤ 4
  sequence : InSequence frames

theorem Sendable.wellFormed {frames : List Frame} (h : Sendable frames) : ∀ f ∈ frames, f.WellFormed := by
  intro f hf
  obtain ⟨packetType, severity, sequence, payload, hnew⟩ := h.built f hf
  exact ⟨(Frame.new_eq_some hnew).2.2, (PacketType.tryFrom_isSome _).2 (h.packetType f hf),
    (Severity.tryFrom_isSome _).2 (h.severity f hf)⟩

def Frame.wire (c : Crates) (f : Frame) : List UInt8 := f.body c ++ [0x00]

/-- The frame a receiver sees: its checksum filled in. -/
def Frame.sealed (c : Crates) (f : Frame) : Frame := { f with crcBytes := f.computeCrc c }

/-- The times at which segments are closed. -/
def completions (bytes : List TimedByte) : List UInt64 := (bytes.filter (fun b => b.byte == 0)).map (·.now)

theorem counted_sealed {c : Crates} {f : Frame} (hf : f.WellFormed) : Counted c (f.sealed c) := by
  refine ⟨?_, hf.packetType, hf.severity, hf.length⟩
  show computedCrc c f = ofLeBytes (f.computeCrc c)
  rw [computeCrc_eq_computedCrc, ofLeBytes_leBytes]

theorem decode_body_frame {c : Crates} (hc : c.Standard) {f : Frame} (hf : f.WellFormed) :
    ∃ d, ∃ h : WellSized d, c.cobsDecode (f.body c) = some d ∧ frameOf d h = f.sealed c := by
  have hparse := parseDecoded_raw f (f.computeCrc c) hf.length
  obtain ⟨hsz, heq⟩ := parseDecoded_eq_complete.1 hparse
  exact ⟨_, hsz, hc.decode_encode (f.raw_ne_nil _), heq.symm⟩

theorem judgeFrame_sealed {c : Crates} {f : Frame} (hf : f.WellFormed) {last : Option UInt32}
    (hlast : ∀ l ∈ last, f.header.sequence = l + 1) (now : UInt64) :
    judgeFrame c .allowAll last (f.sealed c) now = .offer (recordOf f now) := by
  have hany := (gap_eq_false_iff last (f.sealed c).header.sequence).2 hlast
  rw [judgeFrame_of_counted (counted_sealed hf), hany, if_neg Bool.false_ne_true, FilterConfig.allow_allowAll,
    if_pos rfl]
  rfl

/-- **A good frame's body is offered**, if it follows the last frame. -/
theorem judge_body {c : Crates} (hc : c.Standard) {f : Frame} (hf : f.WellFormed) {last : Option UInt32}
    (hlast : ∀ l ∈ last, f.header.sequence = l + 1) (now : UInt64) :
    judge c .allowAll last (f.body c) now = .offer (recordOf f now) := by
  obtain ⟨d, hsz, hdec, heq⟩ := decode_body_frame hc hf
  rw [judge, hdec]
  simp only
  rw [dif_pos hsz, heq, judgeFrame_sealed hf hlast]

theorem reached_body {c : Crates} (hc : c.Standard) {f : Frame} (hf : f.WellFormed) (hN : 493 ≤ N) :
    reached c N (f.body c) = some (f.sealed c) := by
  obtain ⟨d, hsz, hdec, heq⟩ := decode_body_frame hc hf
  have hlen := f.length_body_le hc
  rw [reached, if_neg, hdec]
  · simp only
    rw [dif_pos hsz, heq, if_pos (counted_sealed hf)]
  · rintro (h | h)
    · exact f.body_ne_nil hc h
    · omega

/-! ## The verdicts on a stream of frames -/

def spoken (vs : List Verdict) : List Verdict := vs.filter (fun v => decide (v ≠ .quiet))

theorem spoken_append (vs vs' : List Verdict) : spoken (vs ++ vs') = spoken vs ++ spoken vs' := List.filter_append _ _

theorem completions_append (bytes more : List TimedByte) :
    completions (bytes ++ more) = completions bytes ++ completions more := by
  rw [completions, List.filter_append, List.map_append]
  rfl

theorem completions_of_not_mem {bytes : List TimedByte} (h : 0 ∉ untimed bytes) : completions bytes = [] := by
  rw [completions, List.filter_eq_nil_iff.2, List.map_nil]
  intro b hb hzero
  exact h (List.mem_map.2 ⟨b, hb, beq_iff_eq.1 hzero⟩)

theorem spoken_of_not_mem (c : Crates) (filter : FilterConfig) : ∀ (bytes : List TimedByte) (w : List UInt8),
    0 ∉ untimed bytes → (Split.opened 0 w).length + bytes.length ≤ N → spoken (verdicts c N filter w bytes) = []
  | [], _, _, _ => rfl
  | b :: bytes, w, hmem, hlen => by
    rw [untimed, List.map_cons, List.mem_cons, not_or] at hmem
    have hb : b.byte ≠ 0 := Ne.symm hmem.1
    rw [List.length_cons] at hlen
    have hquiet : verdictAt c N filter w b = .quiet := by
      unfold verdictAt
      rw [if_pos hb, if_neg (by omega)]
    have hopen : (Split.opened 0 (w ++ [b.byte])).length + bytes.length ≤ N := by
      rw [Split.opened_snoc 0 w hb, List.length_append, List.length_singleton]
      omega
    have ih := spoken_of_not_mem c filter bytes (w ++ [b.byte]) hmem.2 hopen
    rw [verdicts, hquiet]
    exact ih

theorem lastReached_append_of_not_mem (c : Crates) (N : Nat) (w : List UInt8) {q : List UInt8} (hq : 0 ∉ q) :
    lastReached c N (w ++ q) = lastReached c N w := by
  rw [lastReached, Split.closed_append_of_not_mem 0 w hq, ← lastReached]

/-- **One frame's bytes**, after a delimiter: one offer, at the time of its delimiter. -/
theorem verdicts_wire {c : Crates} (hc : c.Standard) {f : Frame} (hf : f.WellFormed) (hN : 493 ≤ N) {w : List UInt8}
    (hw : Split.opened 0 w = []) (hlast : ∀ l ∈ lastReached c N w, f.header.sequence = l + 1) {bytes : List TimedByte}
    (hbytes : untimed bytes = f.wire c) :
    (∃ now, completions bytes = [now] ∧ spoken (verdicts c N .allowAll w bytes) = [.offer (recordOf f now)]) ∧
      Split.opened 0 (w ++ untimed bytes) = [] ∧ lastReached c N (w ++ untimed bytes) = some f.header.sequence := by
  have hmem := f.zero_not_mem_body hc
  have hopen : Split.opened 0 (w ++ f.body c) = f.body c := by rw [Split.opened_append_of_not_mem 0 w hmem, hw]; rfl
  have hlast' := lastReached_append_of_not_mem c N w hmem
  have hlen := f.length_body_le hc
  refine ⟨?_, ?_, ?_⟩
  · obtain ⟨init, last, rfl, hinit, hlastbyte⟩ := List.map_eq_append_iff.1 hbytes
    obtain ⟨b, rfl, hb⟩ := List.map_eq_singleton_iff.1 hlastbyte
    have hinit' : untimed init = f.body c := hinit
    refine ⟨b.now, ?_, ?_⟩
    · rw [completions_append, completions_of_not_mem (hinit' ▸ hmem), List.nil_append, completions,
        List.filter_singleton, hb]
      rfl
    · have hinitlen : init.length = (f.body c).length := by rw [← hinit', untimed, List.length_map]
      have hverdict : verdictAt c N .allowAll (w ++ f.body c) b = .offer (recordOf f b.now) := by
        unfold verdictAt
        rw [if_neg (not_not.2 hb), hopen, if_neg, hlast', judge_body hc hf hlast]
        rintro (h | h)
        · exact f.body_ne_nil hc h
        · omega
      rw [verdicts_append, spoken_append, spoken_of_not_mem c .allowAll init w (hinit' ▸ hmem), hinit', verdicts,
        verdicts,
        hverdict]
      · rfl
      · rw [hw, hinitlen]
        exact Nat.le_trans (Nat.le_of_eq (Nat.zero_add _)) (Nat.le_trans hlen hN)
  · rw [hbytes, Frame.wire, ← List.append_assoc, Split.opened_snoc_sep]
  · rw [hbytes, Frame.wire, ← List.append_assoc, lastReached_snoc_zero, hopen, reached_body hc hf hN]
    rfl

/-- **A stream of good frames in sequence**: one offer for each frame, in order, and nothing else. -/
theorem verdicts_frames {c : Crates} (hc : c.Standard) (hN : 493 ≤ N) : ∀ (frames : List Frame) {w : List UInt8}
    {bytes : List TimedByte}, Split.opened 0 w = [] → (∀ f ∈ frames, f.WellFormed) → InSequence frames →
    (∀ l ∈ lastReached c N w, ∀ f ∈ frames.head?, f.header.sequence = l + 1) →
    untimed bytes = frames.flatMap (Frame.wire c) →
    (completions bytes).length = frames.length ∧
      spoken (verdicts c N .allowAll w bytes)
        = List.zipWith (fun f now => .offer (recordOf f now)) frames (completions bytes)
  | [], w, bytes, hw, hwf, hseq, hlast, hbytes => by
    obtain rfl : bytes = [] := List.map_eq_nil_iff.1 hbytes
    exact ⟨rfl, rfl⟩
  | f :: frames, w, bytes, hw, hwf, hseq, hlast, hbytes => by
    obtain ⟨first, rest, rfl, hfirst, hrest⟩ := List.map_eq_append_iff.1 hbytes
    have hf := hwf f List.mem_cons_self
    obtain ⟨⟨now, hnow, hspoken⟩, hopen, hreached⟩ :=
      verdicts_wire hc hf hN hw (fun l hl => hlast l hl f rfl) hfirst
    have hnext : ∀ l ∈ lastReached c N (w ++ untimed first), ∀ g ∈ frames.head?, g.header.sequence = l + 1 := by
      intro l hl g hg
      rw [hreached, Option.mem_some_iff] at hl
      cases frames with
      | nil => cases hg
      | cons g' frames =>
        cases hg
        rw [← hl]
        exact (List.isChain_cons_cons.1 hseq).1
    obtain ⟨hlen, hspoken'⟩ := verdicts_frames hc hN frames hopen (fun g hg => hwf g (List.mem_cons_of_mem f hg))
      hseq.tail hnext hrest
    refine ⟨?_, ?_⟩
    · rw [completions_append, hnow, List.singleton_append, List.length_cons, List.length_cons, hlen]
    · rw [verdicts_append, spoken_append, hspoken, hspoken', completions_append, hnow]
      rfl

/-! ## Nothing is dropped -/

/-- No offer found the queue full. -/
def NoDrop (h : List (Verdict × Bool)) : Prop := ∀ x ∈ h, ∀ r, x.1 = .offer r → x.2 = false

def offers (vs : List Verdict) : List StoredRecord := vs.flatMap (Verdict.admitted false)

theorem NoDrop.admitted_eq : ∀ {h : List (Verdict × Bool)}, NoDrop h → admitted h = offers (h.map Prod.fst)
  | [], _ => rfl
  | (v, full) :: h, hn => by
    have ih := NoDrop.admitted_eq (h := h) (fun x hx => hn x (List.mem_cons_of_mem _ hx))
    have hv : v.admitted full = v.admitted false := by
      cases v with
      | offer r => rw [show full = false from hn (.offer r, full) List.mem_cons_self r rfl]
      | _ => rfl
    rw [admitted, List.flatMap_cons, ← admitted, ih, hv]
    rfl

theorem NoDrop.count_classes (k : Counter) : ∀ {h : List (Verdict × Bool)}, NoDrop h →
    (classes h).count k = ((spoken (h.map Prod.fst)).filterMap (Verdict.counter false)).count k
  | [], _ => rfl
  | (v, full) :: h, hn => by
    have ih := NoDrop.count_classes k (h := h) (fun x hx => hn x (List.mem_cons_of_mem _ hx))
    have hv : v.counter full = v.counter false := by
      cases v with
      | offer r => rw [show full = false from hn (.offer r, full) List.mem_cons_self r rfl]
      | _ => rfl
    rw [classes_cons, ih, hv, List.map_cons, ← List.singleton_append, spoken_append, List.filterMap_append,
      List.count_append]
    congr 1
    cases v <;> simp [spoken, Verdict.counter, List.count_singleton]

def delimiters (bytes : List TimedByte) : Nat := bytes.countP (fun b => b.byte == 0)

theorem verdictAt_ne_offer (c : Crates) (N : Nat) (filter : FilterConfig) (w : List UInt8) {b : TimedByte}
    (hb : b.byte ≠ 0) (r : StoredRecord) : verdictAt c N filter w b ≠ .offer r := by
  unfold verdictAt
  rw [if_pos hb]
  split <;> exact fun h => by cases h

theorem length_admitted_verdictAt_le (c : Crates) (N : Nat) (filter : FilterConfig) (w : List UInt8) (b : TimedByte)
    (full : Bool) : ((verdictAt c N filter w b).admitted full).length ≤ if b.byte == 0 then 1 else 0 := by
  cases hv : verdictAt c N filter w b with
  | offer r =>
    rw [if_pos]
    · cases full with
      | false => exact Nat.le_refl 1
      | true => exact Nat.zero_le 1
    · by_cases hb : b.byte = 0
      · exact beq_iff_eq.2 hb
      · exact absurd hv (verdictAt_ne_offer c N filter w hb r)
  | _ => exact Nat.zero_le _

theorem isFull_eq_false {p : Pipeline N Q} (h : p.queued.length < Q) : p.ringbuf.queue.isFull = false := by
  rw [← Bool.not_eq_true, Heapless.Deque.isFull_iff]
  exact Nat.ne_of_lt h

/-- **Bytes with no more delimiters than there are free slots drop nothing.** -/
theorem byteHistory_noDrop {c : Crates} {filter : FilterConfig} : ∀ (bytes : List TimedByte) {w : List UInt8}
    {p : Pipeline N Q}, Tracks c filter w p → p.queued.length + delimiters bytes ≤ Q →
    NoDrop (byteHistory c filter p w bytes) ∧ (p.ingest c bytes).queued.length ≤ p.queued.length + delimiters bytes
  | [], w, p, _, _ => ⟨fun _ h => absurd h List.not_mem_nil, Nat.le_refl _⟩
  | b :: bytes, w, p, ht, hroom => by
    obtain ⟨ht', hreact⟩ := ingestByte_tracks ht b
    rw [delimiters, List.countP_cons, ← delimiters] at hroom ⊢
    have hgrow : (p.ingestByte c b).queued.length ≤ p.queued.length + if b.byte == 0 then 1 else 0 := by
      rw [hreact.queued, List.length_append]
      exact Nat.add_le_add_left (length_admitted_verdictAt_le c N filter w b _) _
    obtain ⟨hrest, hlen⟩ := byteHistory_noDrop bytes ht' (by omega)
    refine ⟨?_, by rw [ingest_cons]; omega⟩
    intro x hx r hr
    rcases List.mem_cons.1 hx with rfl | hx
    · refine isFull_eq_false ?_
      have hb : b.byte = 0 := by
        by_cases hb : b.byte = 0
        · exact hb
        · exact absurd hr (verdictAt_ne_offer c N filter w hb r)
      rw [if_pos (beq_iff_eq.2 hb)] at hroom
      omega
    · exact hrest x hx r hr

theorem noDrop_ingest (c : Crates) (S : Storage σ ε) (filter : FilterConfig) (s : σ) {bytes : List TimedByte}
    (h : delimiters bytes ≤ Q) :
    NoDrop (history c S filter ((Pipeline.new filter : Pipeline N Q), s) [] [.ingest bytes]) := by
  have hbytes := (byteHistory_noDrop bytes (tracks_new (N := N) (Q := Q) c filter)
    (Nat.le_trans (Nat.le_of_eq (Nat.zero_add _)) h)).1
  rw [history, history, List.append_nil]
  exact hbytes

/-! ## A storage that does not fail -/

structure Healthy (S : Storage σ ε) : Prop where
  write : ∀ s data, (S.write s data).2.isOk = true
  flush : ∀ s, (S.flush s).2.isOk = true

theorem Healthy.traced {S : Storage σ ε} (hS : Healthy S) : Healthy S.traced :=
  ⟨fun x data => hS.write x.1 data, fun x => hS.flush x.1⟩

theorem Healthy.writeOut {S : Storage σ ε} (hS : Healthy S) (c : Crates) : ∀ (rs : List StoredRecord) (s : σ),
    (S.writeOut c s rs).2 = ([], true)
  | [], _ => rfl
  | r :: rs, s => by
    have hok := hS.write s (image c r)
    rw [Storage.writeOut]
    cases hw : S.write s (image c r) with
    | mk s' res =>
      cases res with
      | error e =>
        rw [hw] at hok
        cases hok
      | ok u => exact hS.writeOut c rs s'

/-- **On a healthy storage a drain empties the queue** and returns how many records it wrote. -/
theorem drain_healthy {c : Crates} (hc : c.Standard) {S : Storage σ ε} (hS : Healthy S) (p : Pipeline N Q) (s : σ) :
    (p.drain c S s).1.queued = [] ∧ (p.drain c S s).1.stats = p.stats ∧ (p.drain c S s).2.2 = .ok p.queued.length := by
  obtain ⟨hq, hres, hst⟩ := drain_eq hc S p s
  rw [hS.writeOut c] at hq hst hres
  rw [hS.flush] at hst hres
  refine ⟨hq, hst, ?_⟩
  rw [hres]
  rfl

theorem queued_drain {c : Crates} (hc : c.Standard) {S : Storage σ ε} (hS : Healthy S) (x : Pipeline N Q × σ)
    (calls : List Call) : (after c S x (calls ++ [.drain])).1.queued = [] := by
  have hrun : after c S x (calls ++ [.drain]) = (step c S (after c S x calls) .drain).1 := after_append _ _ _ _ _
  rw [hrun]
  exact (drain_healthy hc hS _ _).1

theorem after_writeFail {c : Crates} (hc : c.Standard) {S : Storage σ ε} (hS : Healthy S) {filter : FilterConfig} :
    ∀ (calls : List Call) {x : Pipeline N Q × σ} {w : List UInt8}, Tracks c filter w x.1 →
      (after c S x calls).1.stats.writeFail = x.1.stats.writeFail
  | [], _, _, _ => rfl
  | .ingest bytes :: calls, x, w, h => by
    obtain ⟨ht, hr⟩ := ingest_reports bytes h
    exact (after_writeFail hc hS calls (x := (x.1.ingest c bytes, x.2)) ht).trans hr.writeFail
  | .drain :: calls, x, w, h => by
    obtain ⟨-, hst, -⟩ := drain_healthy hc hS x.1 x.2
    exact (after_writeFail hc hS calls (x := (step c S x .drain).1) (h.drain S x.2)).trans
      (congrArg Stats.writeFail hst)

/-! ## Pacing -/

/-- At most `Q` frames complete between two drains, after `n` since the last one. -/
def Paced (Q : Nat) : Nat → List Call → Prop
  | _, [] => True
  | n, .ingest bytes :: calls => n + delimiters bytes ≤ Q ∧ Paced Q (n + delimiters bytes) calls
  | _, .drain :: calls => Paced Q 0 calls

/-- **A paced run on a healthy storage drops nothing**, and every drain returns `Ok`. -/
theorem history_noDrop {c : Crates} (hc : c.Standard) {S : Storage σ ε} (hS : Healthy S) {filter : FilterConfig} :
    ∀ (calls : List Call) {x : Pipeline N Q × σ} {w : List UInt8} {n : Nat}, Tracks c filter w x.1 →
      x.1.queued.length ≤ n → Paced Q n calls →
      NoDrop (history c S filter x w calls) ∧
        ∀ res, some res ∈ (Machine.run (step c S) x calls).2 → ∃ k, res = .ok k
  | [], x, w, n, _, _, _ => ⟨fun _ h => absurd h List.not_mem_nil, fun _ h => absurd h List.not_mem_nil⟩
  | .ingest bytes :: calls, x, w, n, ht, hn, hp => by
    obtain ⟨hroom, hp⟩ := hp
    obtain ⟨ht', -⟩ := ingest_reports bytes ht
    obtain ⟨hdrop, hlen⟩ := byteHistory_noDrop bytes ht (Nat.le_trans (Nat.add_le_add_right hn _) hroom)
    obtain ⟨hdrop', hres⟩ := history_noDrop hc hS calls (x := (x.1.ingest c bytes, x.2)) ht'
      (Nat.le_trans hlen (Nat.add_le_add_right hn _)) hp
    constructor
    · intro y hy
      rcases List.mem_append.1 hy with hy | hy
      · exact hdrop y hy
      · exact hdrop' y hy
    · intro res hmem
      rcases List.mem_cons.1 hmem with hmem | hmem
      · cases hmem
      · exact hres res hmem
  | .drain :: calls, x, w, n, ht, hn, hp => by
    obtain ⟨hq, -, hok⟩ := drain_healthy hc hS x.1 x.2
    obtain ⟨hdrop, hres⟩ := history_noDrop hc hS calls (x := (step c S x .drain).1) (ht.drain S x.2)
      (Nat.le_of_eq (congrArg List.length hq)) hp
    rw [history_drain]
    refine ⟨hdrop, ?_⟩
    intro res hmem
    rcases List.mem_cons.1 hmem with hmem | hmem
    · obtain rfl := Option.some.inj hmem
      exact ⟨_, hok⟩
    · exact hres res hmem

theorem Paced.snoc_drain : ∀ {calls : List Call} {n : Nat}, Paced Q n calls → Paced Q n (calls ++ [.drain])
  | [], _, _ => trivial
  | .ingest _ :: _, _, h => ⟨h.1, h.2.snoc_drain⟩
  | .drain :: _, _, h => Paced.snoc_drain (n := 0) h

theorem stream_snoc_drain (calls : List Call) : stream (calls ++ [.drain]) = stream calls := by
  rw [stream, List.flatMap_append]
  exact List.append_nil _

/-! ## End to end -/

theorem offers_spoken : ∀ vs : List Verdict, offers (spoken vs) = offers vs
  | [] => rfl
  | v :: vs => by
    rw [← List.singleton_append, spoken_append, offers, List.flatMap_append, ← offers, ← offers, offers_spoken vs]
    cases v <;> rfl

theorem offers_map_offer (rs : List StoredRecord) : offers (rs.map .offer) = rs := by
  rw [offers, List.flatMap_map]
  exact List.flatMap_singleton' rs

theorem count_map_offer (k : Counter) (rs : List StoredRecord) :
    ((rs.map Verdict.offer).filterMap (Verdict.counter false)).count k = if k = .ok then rs.length else 0 := by
  have hmap : (rs.map Verdict.offer).filterMap (Verdict.counter false) = List.replicate rs.length .ok := by
    rw [List.filterMap_map, ← List.map_const', ← List.filterMap_eq_map]
    rfl
  rw [hmap, List.count_replicate]
  cases k <;> rfl

def sent (frames : List Frame) (bytes : List TimedByte) : List StoredRecord :=
  List.zipWith recordOf frames (completions bytes)

/-- **A paced run over the bytes of good frames**: every frame is queued once, in order, and no other counter moves. -/
theorem after_frames {c : Crates} (hc : c.Standard) (hN : 493 ≤ N) {S : Storage σ ε} (hS : Healthy S) (s : σ)
    {frames : List Frame} (hwf : ∀ f ∈ frames, f.WellFormed) (hseq : InSequence frames) {calls : List Call}
    (hstream : untimed (stream calls) = frames.flatMap (Frame.wire c)) (hp : Paced Q 0 calls) :
    let x₀ : Pipeline N Q × σ := (Pipeline.new .allowAll, s)
    (completions (stream calls)).length = frames.length ∧
      admitted (history c S .allowAll x₀ [] calls) = sent frames (stream calls) ∧
      (∀ k, (after c S x₀ calls).1.stats.counter k = if k = .ok then UInt64.ofNat frames.length else 0) ∧
      (after c S x₀ calls).1.stats.writeFail = 0 ∧
      ∀ res, some res ∈ (Machine.run (step c S) x₀ calls).2 → ∃ k, res = .ok k := by
  intro x₀
  have ht : Tracks c .allowAll [] x₀.1 := tracks_new c .allowAll
  obtain ⟨hlen, hspoken⟩ := verdicts_frames (N := N) hc hN frames (w := []) (Split.opened_nil 0)
    hwf hseq (by rw [lastReached, Split.closed_nil]; exact fun l hl => by cases hl) hstream
  obtain ⟨hdrop, hres⟩ := history_noDrop hc hS calls ht (Nat.le_refl 0) hp
  have hspoken' : spoken (verdicts c N .allowAll [] (stream calls)) = (sent frames (stream calls)).map .offer := by
    rw [hspoken, sent, List.map_zipWith]
  refine ⟨hlen, ?_, ?_, after_writeFail hc hS calls ht, hres⟩
  · rw [hdrop.admitted_eq, history_verdicts, ← offers_spoken, hspoken', offers_map_offer]
  · intro k
    refine (counter_after c S .allowAll s calls k).trans ?_
    rw [hdrop.count_classes, history_verdicts, hspoken', count_map_offer, sent, List.length_zipWith, hlen, Nat.min_self]
    cases k <;> rfl

/-- **End to end.**  A good sender's frames are encoded, cut into calls anywhere and drained anywhere so that at most
`Q` of them complete between two drains, onto a storage that does not fail.  Every drain returns `Ok`; after a last one,
the bytes written read back as the frames' records, each with the time its frame was completed at; and no counter but
`ok` moves. -/
theorem end_to_end {c : Crates} (hc : c.Standard) (hN : 493 ≤ N) {S : Storage σ ε} (hS : Healthy S) (s : σ)
    {frames : List Frame} (hframes : Sendable frames) :
    ∃ encoded, frames.mapM (fun f => f.encodeCobs c maxCobsFrameBytes) = some encoded ∧
      ∀ calls : List Call, untimed (stream calls) = encoded.flatten → Paced Q 0 calls →
        let run := Machine.run (step c S.traced) ((Pipeline.new .allowAll : Pipeline N Q), s, []) (calls ++ [.drain])
        (∀ res, some res ∈ run.2 → ∃ k, res = .ok k) ∧
        (completions (stream calls)).length = frames.length ∧
        readSegment c (run.1.2.2.filterMap Op.data).flatten
          = List.zipWith (fun f now => .ok (recordOf f now)) frames (completions (stream calls)) ∧
        run.1.1.stats.ok = UInt64.ofNat frames.length ∧ run.1.1.stats.dropped = 0 ∧ run.1.1.stats.crcFail = 0 ∧
        run.1.1.stats.seqGap = 0 ∧ run.1.1.stats.filtered = 0 ∧ run.1.1.stats.writeFail = 0 := by
  refine ⟨_, mapM_eq_pure (fun f => f.encodeCobs_eq_some hc (Nat.le_refl _)) frames, ?_⟩
  intro calls hstream hp run
  have hstream' : untimed (stream (calls ++ [.drain])) = frames.flatMap (Frame.wire c) := by
    rw [stream_snoc_drain, hstream]
    rfl
  obtain ⟨hlen, hadm, hcounter, hfail, hres⟩ := after_frames (N := N) (Q := Q) hc hN hS.traced (s, [])
    hframes.wellFormed hframes.sequence hstream' hp.snoc_drain
  obtain ⟨⟨written, hdata, hrec⟩, -⟩ := conserved_after (N := N) (Q := Q) hc S .allowAll s (calls ++ [.drain])
  rw [stream_snoc_drain] at hlen
  have hempty : run.1.1.queued = [] := queued_drain hc hS.traced _ calls
  have hwritten : written = sent frames (stream calls) := by
    have hrec' : written ++ run.1.1.queued = admitted _ := hrec
    rw [hempty, List.append_nil, hadm, stream_snoc_drain] at hrec'
    exact hrec'
  have hdata' : run.1.2.2.filterMap Op.data = written.map (image c) := hdata
  refine ⟨hres, hlen, ?_, hcounter .ok, hcounter .dropped, hcounter .crcFail, hcounter .seqGap, hcounter .filtered,
    hfail⟩
  rw [hdata', hwritten, ← List.flatMap_def, readSegment_records hc, sent, List.map_zipWith]

theorem end_to_end_run :
    let f₀ : Frame := ⟨⟨1, 1, 0, 0xFFFFFFFF, 0⟩, Heapless.Vec.new, (0, 0)⟩
    let f₁ : Frame := ⟨⟨1, 1, 0, 0, 0⟩, Heapless.Vec.new, (0, 0)⟩
    let run := Machine.run (step Crates.documented capturingStorage.traced)
      ((Pipeline.new .allowAll : Pipeline 512 1), ([], 0), [])
      ([.ingest ([3, 1, 1, 5, 255, 255, 255].map (⟨·, 5⟩)), .ingest ([255, 1, 3, 244, 118, 0, 3, 1].map (⟨·, 6⟩)),
        .drain, .ingest ([1, 1, 1, 1, 1, 1, 1, 3, 165, 125, 0].map (⟨·, 7⟩))] ++ [.drain])
    readSegment Crates.documented (run.1.2.2.filterMap Op.data).flatten = [.ok (recordOf f₀ 6), .ok (recordOf f₁ 7)] ∧
      run.1.1.stats.ok = 2 := by
  intro f₀ f₁ run
  have hnew : ∀ f ∈ [f₀, f₁], ∃ packetType severity sequence payload,
      Frame.new packetType severity sequence payload = some f :=
    List.forall_mem_cons.2 ⟨⟨1, 0, 0xFFFFFFFF, [], rfl⟩, List.forall_mem_cons.2 ⟨⟨1, 0, 0, [], rfl⟩, by simp⟩⟩
  have hframes : Sendable [f₀, f₁] := ⟨hnew, by decide, by decide, List.isChain_pair.2 (by decide)⟩
  obtain ⟨encoded, hencoded, hrun⟩ := end_to_end (N := 512) (Q := 1) Crates.documented_standard (by decide)
    (S := capturingStorage) ⟨fun _ _ => rfl, fun _ => rfl⟩ ([], 0) hframes
  have hbytes : [f₀, f₁].mapM (fun f => f.encodeCobs Crates.documented maxCobsFrameBytes)
      = some [[3, 1, 1, 5, 255, 255, 255, 255, 1, 3, 244, 118, 0], [3, 1, 1, 1, 1, 1, 1, 1, 1, 3, 165, 125, 0]] := by
    decide +kernel
  obtain rfl := Option.some.inj (hbytes.symm.trans hencoded)
  obtain ⟨-, -, hread, hok, -⟩ := hrun [.ingest ([3, 1, 1, 5, 255, 255, 255].map (⟨·, 5⟩)),
    .ingest ([255, 1, 3, 244, 118, 0, 3, 1].map (⟨·, 6⟩)), .drain,
    .ingest ([1, 1, 1, 1, 1, 1, 1, 3, 165, 125, 0].map (⟨·, 7⟩))] rfl ⟨by decide, by decide, by decide, trivial⟩
  exact ⟨hread, hok⟩

end Telemetry
