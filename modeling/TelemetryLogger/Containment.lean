import TelemetryLogger.Batch
/-!
# Containment — what damage in one frame costs

A frame of a good stream is replaced by arbitrary bytes.  If nothing these bytes make is taken for a frame, the frames
before are untouched; of those behind, one is lost when its body merges with the bytes, and one when the sequence check
finds the hole (`damage_contained`).
-/
namespace Telemetry

open Record (image)

variable {N Q : Nat} {σ ε : Type}

/-! ## Good frames among the segments -/

theorem intact_body {c : Crates} (hc : c.Standard) {f : Frame} (hf : f.WellFormed) (hN : 493 ≤ N) :
    Intact c N (f.body c) (f.sealed c) := by
  obtain ⟨d, hsz, hdec, heq⟩ := decode_body_frame hc hf
  exact ⟨f.body_ne_nil hc, Nat.le_trans (f.length_body_le hc) hN, ⟨d, hsz, hdec, heq⟩, (counted_sealed hf).crc⟩

theorem judgeSegment_body {c : Crates} (hc : c.Standard) {f : Frame} (hf : f.WellFormed) (hN : 493 ≤ N)
    (last : Option UInt32) (now : UInt64) : judgeSegment c N .allowAll last (f.body c, now)
      = (some f.header.sequence,
        if last.any (fun l => f.header.sequence != l + 1) then .seqGap else .offer (recordOf f now)) := by
  rw [judgeSegment_of_intact (intact_body hc hf hN), if_pos (show (f.sealed c).Known from ⟨hf.packetType, hf.severity⟩),
    judgeFrame_of_counted (counted_sealed hf), FilterConfig.allow_allowAll, if_pos rfl]
  rfl

/-- **Good frames in sequence are all offered**, if the first follows the last number seen. -/
theorem judgeAll_bodies {c : Crates} (hc : c.Standard) (hN : 493 ≤ N) : ∀ (frames : List Frame) (times : List UInt64)
    (last : Option UInt32), (∀ f ∈ frames, f.WellFormed) → InSequence frames → times.length = frames.length →
    (∀ l ∈ last, ∀ f ∈ frames.head?, f.header.sequence = l + 1) →
    judgeAll c N .allowAll last ((frames.map (Frame.body c)).zip times)
      = ((frames.getLast?.map (·.header.sequence)).or last, (List.zipWith recordOf frames times).map .offer)
  | [], [], last, _, _, _, _ => rfl
  | f :: frames, now :: times, last, hwf, hseq, hlen, hlast => by
    have hany := (gap_eq_false_iff last f.header.sequence).2 (fun l hl => hlast l hl f rfl)
    have hnext : ∀ l ∈ some f.header.sequence, ∀ g ∈ frames.head?, g.header.sequence = l + 1 := by
      rintro l ⟨⟩ g hg
      exact hseq.rel_head? hg
    have ih := judgeAll_bodies hc hN frames times _ (fun g hg => hwf g (List.mem_cons_of_mem f hg)) hseq.tail
      (Nat.succ.inj hlen) hnext
    rw [judgeAll] at ih ⊢
    rw [List.map_cons, List.zip_cons_cons, Machine.run_cons, judgeSegment_body hc (hwf f List.mem_cons_self) hN, hany,
      ih]
    refine Prod.ext ?_ rfl
    cases frames with
    | nil => rfl
    | cons g frames => simp [List.getLast?_eq_some_getLast]

theorem offers_bodies {c : Crates} (hc : c.Standard) (hN : 493 ≤ N) {frames : List Frame} {times : List UInt64}
    {last : Option UInt32} (hwf : ∀ f ∈ frames, f.WellFormed) (hseq : InSequence frames)
    (hlen : times.length = frames.length) (hlast : ∀ l ∈ last, ∀ f ∈ frames.head?, f.header.sequence = l + 1) :
    offers (judgeAll c N .allowAll last ((frames.map (Frame.body c)).zip times)).2
      = List.zipWith recordOf frames times := by
  rw [judgeAll_bodies hc hN frames times last hwf hseq hlen hlast, offers_map_offer]

/-- **Behind a hole, the first good frame is rejected** and the others are offered. -/
theorem offers_bodies_of_gap {c : Crates} (hc : c.Standard) (hN : 493 ≤ N) {frames : List Frame} {times : List UInt64}
    {l : UInt32} (hwf : ∀ f ∈ frames, f.WellFormed) (hseq : InSequence frames) (hlen : times.length = frames.length)
    (hgap : ∀ f ∈ frames.head?, f.header.sequence ≠ l + 1) :
    offers (judgeAll c N .allowAll (some l) ((frames.map (Frame.body c)).zip times)).2
      = (List.zipWith recordOf frames times).drop 1 := by
  cases frames with
  | nil => rfl
  | cons f frames =>
    cases times with
    | nil => cases hlen
    | cons now times =>
      have hany : (some l).any (fun l => f.header.sequence != l + 1) = true := by
        simpa using hgap f rfl
      have hnext : ∀ l ∈ some f.header.sequence, ∀ g ∈ frames.head?, g.header.sequence = l + 1 := by
        rintro l ⟨⟩ g hg
        exact hseq.rel_head? hg
      have hrest := offers_bodies hc hN (fun g hg => hwf g (List.mem_cons_of_mem f hg)) hseq.tail (Nat.succ.inj hlen)
        hnext
      rw [judgeAll] at hrest ⊢
      rw [List.map_cons, List.zip_cons_cons, Machine.run_cons, judgeSegment_body hc (hwf f List.mem_cons_self) hN, hany]
      exact hrest

/-- **Segments that are not intact leave nothing.** -/
theorem judgeAll_of_not_intact {c : Crates} (filter : FilterConfig) (last : Option UInt32) :
    ∀ (ps : List (List UInt8)) (times : List UInt64), (∀ p ∈ ps, ∀ f, ¬ Intact c N p f) →
      (judgeAll c N filter last (ps.zip times)).1 = last ∧ offers (judgeAll c N filter last (ps.zip times)).2 = []
  | [], _, _ => ⟨rfl, rfl⟩
  | p :: ps, [], _ => ⟨rfl, rfl⟩
  | p :: ps, now :: times, h => by
    obtain ⟨hlast, hverdict⟩ := judgeSegment_of_not_intact (h p List.mem_cons_self) filter last now
    obtain ⟨ih, hoffers⟩ := judgeAll_of_not_intact filter last ps times
      (fun q hq => h q (List.mem_cons_of_mem p hq))
    rw [judgeAll] at ih hoffers ⊢
    rw [List.zip_cons_cons, Machine.run_cons, hlast]
    refine ⟨ih, ?_⟩
    rw [offers, List.flatMap_cons, ← offers, hoffers]
    rcases hverdict with hv | hv
    · rw [hv]
      rfl
    · rw [hv]
      rfl

/-! ## The damaged stream -/

theorem flatMap_wire (c : Crates) (frames : List Frame) :
    frames.flatMap (Frame.wire c) = (frames.map (Frame.body c)).flatMap (· ++ [0]) := by
  rw [List.flatMap_map]
  rfl

theorem opened_wires (c : Crates) (frames : List Frame) : Split.opened 0 (frames.flatMap (Frame.wire c)) = [] := by
  rw [flatMap_wire, Split.opened_terminated]

theorem closed_wires {c : Crates} (hc : c.Standard) (frames : List Frame) :
    Split.closed 0 (frames.flatMap (Frame.wire c)) = frames.map (Frame.body c) := by
  rw [flatMap_wire, Split.closed_terminated]
  intro p hp
  obtain ⟨f, -, rfl⟩ := List.mem_map.1 hp
  exact f.zero_not_mem_body hc

/-- The bytes `g` end where a segment ends. -/
def Delimited (g : List UInt8) : Prop := g = [] ∨ g.getLast? = some 0x00

instance (g : List UInt8) : Decidable (Delimited g) := inferInstanceAs (Decidable (_ ∨ _))

/-- **The segments that `g` makes** before the frames `post`: those it closes, and its open end merged with the next
body. -/
def scars (c : Crates) (g : List UInt8) (post : List Frame) : List (List UInt8) :=
  Split.closed 0 g ++ if Delimited g then [] else (post.head?.map (fun f => Split.opened 0 g ++ f.body c)).toList

/-- The frames behind the damage that keep a segment of their own. -/
def spared (g : List UInt8) (post : List Frame) : List Frame := if Delimited g then post else post.drop 1

theorem closed_damage {c : Crates} (hc : c.Standard) (g : List UInt8) (post : List Frame) :
    Split.closed 0 (g ++ post.flatMap (Frame.wire c)) = scars c g post ++ (spared g post).map (Frame.body c) := by
  unfold scars spared
  by_cases hg : Delimited g
  · rw [if_pos hg, if_pos hg, Split.closed_append 0 ((Split.opened_eq_nil_iff 0 g).2 hg), closed_wires hc,
      List.append_nil]
  · rw [if_neg hg, if_neg hg]
    cases post with
    | nil => simp
    | cons f post =>
      have hmem := f.zero_not_mem_body hc
      rw [List.flatMap_cons, Frame.wire, List.append_assoc, List.singleton_append, ← List.append_assoc,
        Split.closed_append_sep, Split.closed_append_of_not_mem 0 g hmem, Split.opened_append_of_not_mem 0 g hmem,
        closed_wires hc]
      simp

/-- **The segments of the damaged stream**: the bodies before, what the damage makes, the bodies spared. -/
theorem closed_damaged {c : Crates} (hc : c.Standard) (pre post : List Frame) (g : List UInt8) :
    Split.closed 0 (pre.flatMap (Frame.wire c) ++ (g ++ post.flatMap (Frame.wire c)))
      = pre.map (Frame.body c) ++ (scars c g post ++ (spared g post).map (Frame.body c)) := by
  rw [Split.closed_append 0 (opened_wires c pre), closed_wires hc, closed_damage hc]

/-- How many of the frames behind the damage are lost: one that merges with `g`, and one that shows the hole. -/
def lost (pre : List Frame) (g : List UInt8) : Nat :=
  (if Delimited g then 0 else 1) + if pre = [] then 0 else 1

theorem spared_eq_drop (g : List UInt8) (post : List Frame) :
    spared g post = post.drop (if Delimited g then 0 else 1) := by
  unfold spared
  split <;> rfl

theorem length_scars (c : Crates) (g : List UInt8) (post : List Frame) :
    (scars c g post).length = (Split.closed 0 g).length + (post.take (if Delimited g then 0 else 1)).length := by
  unfold scars
  by_cases hg : Delimited g
  · simp [hg]
  · cases post <;> simp [hg]

/-- **The hole shows** at the first frame spared, if there is a frame before it. -/
theorem spared_gap {f : Frame} {post : List Frame} {l : UInt32} (hseq : InSequence (f :: post))
    (hf : f.header.sequence = l + 1) (g : List UInt8) : ∀ h ∈ (spared g post).head?, h.header.sequence ≠ l + 1 := by
  intro h hh
  unfold spared at hh
  by_cases hg : Delimited g
  · rw [if_pos hg] at hh
    rw [hseq.rel_head? hh, hf]
    simp
  · rw [if_neg hg] at hh
    cases post with
    | nil => cases hh
    | cons k post =>
      have hk := (List.isChain_cons_cons.1 hseq).1
      rw [hseq.tail.rel_head? hh, hk, hf]
      simp [UInt32.add_assoc]

theorem offers_append (vs vs' : List Verdict) : offers (vs ++ vs') = offers vs ++ offers vs' := List.flatMap_append

/-- The segments of the damaged stream with their times: a spared body keeps the time of its own delimiter. -/
theorem segments_damaged {c : Crates} (hc : c.Standard) (pre post : List Frame)
    {preBytes gBytes postBytes : List TimedByte} (hpre : untimed preBytes = pre.flatMap (Frame.wire c))
    (hpost : untimed postBytes = post.flatMap (Frame.wire c)) :
    let j := if Delimited (untimed gBytes) then 0 else 1
    segments (preBytes ++ (gBytes ++ postBytes))
      = (pre.map (Frame.body c)).zip (completions preBytes)
        ++ ((scars c (untimed gBytes) post).zip (completions gBytes ++ (completions postBytes).take j)
          ++ ((spared (untimed gBytes) post).map (Frame.body c)).zip ((completions postBytes).drop j)) := by
  intro j
  have hlenpre : (pre.map (Frame.body c)).length = (completions preBytes).length := by
    rw [length_completions, hpre, closed_wires hc]
  have hlenpost : (completions postBytes).length = post.length := by
    rw [length_completions, hpost, closed_wires hc, List.length_map]
  have hlenscars : (scars c (untimed gBytes) post).length
      = (completions gBytes ++ (completions postBytes).take j).length := by
    rw [length_scars, List.length_append, length_completions gBytes, List.length_take, List.length_take, hlenpost]
  have htimes : completions (preBytes ++ (gBytes ++ postBytes)) = completions preBytes
      ++ ((completions gBytes ++ (completions postBytes).take j) ++ (completions postBytes).drop j) := by
    rw [completions_append, completions_append, List.append_assoc, List.take_append_drop]
  rw [segments, untimed_append, untimed_append, hpre, hpost, closed_damaged hc, htimes, List.zip_append hlenpre,
    List.zip_append hlenscars]

/-- **What the damaged stream offers**: the frames before, and those behind but the first one or two. -/
theorem offers_damaged {c : Crates} (hc : c.Standard) (hN : 493 ≤ N) {pre post : List Frame} {f : Frame}
    (hwf : ∀ h ∈ pre ++ f :: post, h.WellFormed) (hseq : InSequence (pre ++ f :: post))
    {preBytes gBytes postBytes : List TimedByte} (hpre : untimed preBytes = pre.flatMap (Frame.wire c))
    (hpost : untimed postBytes = post.flatMap (Frame.wire c))
    (hg : ∀ p ∈ scars c (untimed gBytes) post, ∀ h, ¬ Intact c N p h) :
    offers (judgeAll c N .allowAll none (segments (preBytes ++ (gBytes ++ postBytes)))).2
      = sent pre preBytes ++ (sent post postBytes).drop (lost pre (untimed gBytes)) := by
  obtain ⟨hseqpre, hseqpost, hlink⟩ := List.isChain_append.1 hseq
  have hlenpre : (completions preBytes).length = pre.length := by
    rw [length_completions, hpre, closed_wires hc, List.length_map]
  have hlenpost : (completions postBytes).length = post.length := by
    rw [length_completions, hpost, closed_wires hc, List.length_map]
  have hwfpre : ∀ h ∈ pre, h.WellFormed := fun h hh => hwf h (List.mem_append_left _ hh)
  have hwfspared : ∀ h ∈ spared (untimed gBytes) post, h.WellFormed := by
    intro h hh
    rw [spared_eq_drop] at hh
    exact hwf h (List.mem_append_right _ (List.mem_cons_of_mem f (List.mem_of_mem_drop hh)))
  have hseqspared : InSequence (spared (untimed gBytes) post) := by
    rw [spared_eq_drop]
    exact hseqpost.tail.drop _
  have hlenspared : ((completions postBytes).drop (if Delimited (untimed gBytes) then 0 else 1)).length
      = (spared (untimed gBytes) post).length := by
    rw [spared_eq_drop, List.length_drop, List.length_drop, hlenpost]
  have hpre' := judgeAll_bodies hc hN pre (completions preBytes) none hwfpre hseqpre hlenpre
    (fun l hl => by cases hl)
  obtain ⟨hmid, hmidoffers⟩ := judgeAll_of_not_intact .allowAll (pre.getLast?.map (·.header.sequence))
    (scars c (untimed gBytes) post)
    (completions gBytes ++ (completions postBytes).take (if Delimited (untimed gBytes) then 0 else 1)) hg
  rw [segments_damaged hc pre post hpre hpost, judgeAll, Machine.run_append, Machine.run_append, ← judgeAll,
    ← judgeAll, ← judgeAll, hpre', Option.or_none, hmid]
  simp only
  rw [offers_append, offers_append, offers_map_offer, hmidoffers, List.nil_append]
  refine congrArg (sent pre preBytes ++ ·) ?_
  rw [lost, ← List.drop_drop, sent, List.drop_zipWith, ← spared_eq_drop]
  rcases List.eq_nil_or_concat pre with rfl | ⟨init, last, rfl⟩
  · rw [if_pos rfl, List.drop_zero]
    exact offers_bodies hc hN hwfspared hseqspared hlenspared (fun l hl => by cases hl)
  · have hne : init.concat last ≠ [] := by simp
    rw [if_neg hne]
    have hhole : f.header.sequence = last.header.sequence + 1 := hlink last (by simp) f rfl
    have hlast : (init.concat last).getLast?.map (·.header.sequence) = some last.header.sequence := by simp
    rw [hlast]
    exact offers_bodies_of_gap hc hN hwfspared hseqspared hlenspared (spared_gap hseqpost hhole _)

/-- **Damage containment.**  In a stream of good frames in sequence, bytes `gBytes` stand in place of one frame and its
delimiter; the segments of the damaged stream are then the intact bodies and `scars`, and none of the latter passes the
structural checks and the CRC.  A new pipeline that lets everything through and drops nothing stores the other frames
unaltered, in order, with the times of their own delimiters, but for the first `lost` behind the damage: at most two,
two only if the bytes are not empty and do not end in `0x00`, and at most one if the damaged frame was the first. -/
theorem damage_contained {c : Crates} (hc : c.Standard) (hN : 493 ≤ N) {S : Storage σ ε} (hS : Healthy S) (s : σ)
    {pre post : List Frame} {f : Frame} (hwf : ∀ h ∈ pre ++ f :: post, h.WellFormed)
    (hseq : InSequence (pre ++ f :: post)) {calls : List Call} {preBytes gBytes postBytes : List TimedByte}
    (hstream : stream calls = preBytes ++ (gBytes ++ postBytes)) (hpre : untimed preBytes = pre.flatMap (Frame.wire c))
    (hpost : untimed postBytes = post.flatMap (Frame.wire c))
    (hg : ∀ p ∈ scars c (untimed gBytes) post, ∀ h, ¬ Intact c N p h)
    (hdrop : NoDrop (history c S.traced .allowAll ((Pipeline.new .allowAll : Pipeline N Q), s, []) []
      (calls ++ [.drain]))) :
    let x := after c S.traced ((Pipeline.new .allowAll : Pipeline N Q), s, []) (calls ++ [.drain])
    let kept := sent pre preBytes ++ (sent post postBytes).drop (lost pre (untimed gBytes))
    Split.closed 0 (untimed (stream calls)) = pre.map (Frame.body c)
      ++ (scars c (untimed gBytes) post ++ (spared (untimed gBytes) post).map (Frame.body c)) ∧
    x.2.2.filterMap Op.data = kept.map (image c) ∧ readSegment c (x.2.2.filterMap Op.data).flatten = kept.map .ok ∧
    lost pre (untimed gBytes) ≤ 2 ∧
    (lost pre (untimed gBytes) = 2 → untimed gBytes ≠ [] ∧ (untimed gBytes).getLast? ≠ some 0x00) ∧
    (pre = [] → lost pre (untimed gBytes) = if Delimited (untimed gBytes) then 0 else 1) := by
  intro x kept
  obtain ⟨hstored, -, -⟩ := stored_of_noDrop hc hS .allowAll s calls hdrop
  have hkept : x.2.2.filterMap Op.data = kept.map (image c) := by
    rw [hstored, offers_verdicts, hstream, offers_damaged hc hN hwf hseq hpre hpost hg]
  refine ⟨?_, hkept, ?_, ?_, ?_, ?_⟩
  · rw [hstream, untimed_append, untimed_append, hpre, hpost, closed_damaged hc]
  · rw [hkept, ← List.flatMap_def, readSegment_records hc]
  · unfold lost
    split <;> split <;> omega
  · unfold lost
    intro htwo
    have hopen : ¬ Delimited (untimed gBytes) := by
      intro hd
      rw [if_pos hd] at htwo
      split at htwo <;> omega
    exact not_or.1 hopen
  · intro hnil
    rw [lost, if_pos hnil, Nat.add_zero]

/-- A heartbeat without payload. -/
def heartbeat (sequence : UInt32) : Frame := ⟨⟨protocolVersion, 1, 0, sequence, 0⟩, Heapless.Vec.new, (0, 0)⟩

theorem heartbeat_wellFormed (sequence : UInt32) : (heartbeat sequence).WellFormed := ⟨rfl, rfl, rfl⟩

theorem damage_contained_run :
    let preBytes : List TimedByte := [3, 1, 1, 1, 1, 1, 1, 1, 1, 3, 165, 125, 0].map (⟨·, 5⟩)
    let gBytes : List TimedByte := [⟨255, 6⟩]
    let postBytes : List TimedByte := [3, 1, 1, 2, 2, 1, 1, 1, 1, 3, 243, 117, 0].map (⟨·, 7⟩)
      ++ [3, 1, 1, 2, 3, 1, 1, 1, 1, 3, 216, 113, 0].map (⟨·, 8⟩)
      ++ [3, 1, 1, 2, 4, 1, 1, 1, 1, 3, 9, 109, 0].map (⟨·, 9⟩)
    let x := after Crates.documented capturingStorage.traced ((Pipeline.new .allowAll : Pipeline 512 4), ([], 0), [])
      ([.ingest (preBytes ++ (gBytes ++ postBytes))] ++ [.drain])
    readSegment Crates.documented (x.2.2.filterMap Op.data).flatten
      = [.ok (recordOf (heartbeat 0) 5), .ok (recordOf (heartbeat 4) 9)] := by
  intro preBytes gBytes postBytes x
  let pre := [heartbeat 0]
  let post := [heartbeat 2, heartbeat 3, heartbeat 4]
  have hwf : ∀ h ∈ pre ++ heartbeat 1 :: post, h.WellFormed := by
    simp [pre, post, heartbeat_wellFormed]
  have hseq : InSequence (pre ++ heartbeat 1 :: post) := by
    simp [pre, post, InSequence, heartbeat]
  have hscars : ∀ p ∈ scars Crates.documented (untimed gBytes) post, ∀ h, ¬ Intact Crates.documented 512 p h := by
    intro p hp h hi
    have hscar : scars Crates.documented (untimed gBytes) post = [255 :: (heartbeat 2).body Crates.documented] := by
      decide +kernel
    rw [hscar, List.mem_singleton] at hp
    obtain ⟨d, -, hdec, -⟩ := hi.decodes
    have hnone : Crates.documented.cobsDecode (255 :: (heartbeat 2).body Crates.documented) = none := by decide +kernel
    rw [hp, hnone] at hdec
    cases hdec
  have hhealthy : Healthy capturingStorage := ⟨fun _ _ => rfl, fun _ => rfl⟩
  have hpre : untimed preBytes = pre.flatMap (Frame.wire Crates.documented) := by decide +kernel
  have hpost : untimed postBytes = post.flatMap (Frame.wire Crates.documented) := by decide +kernel
  have hpaced : Paced 4 0 [.ingest (preBytes ++ (gBytes ++ postBytes)), .drain] := ⟨by decide, trivial⟩
  have hdrop := (history_noDrop (N := 512) Crates.documented_standard hhealthy.traced _
    (x := ((Pipeline.new .allowAll : Pipeline 512 4), ([], 0), [])) (tracks_new Crates.documented .allowAll)
    (Nat.le_refl 0) hpaced).1
  have hstream : stream [.ingest (preBytes ++ (gBytes ++ postBytes))] = preBytes ++ (gBytes ++ postBytes) :=
    List.append_nil _
  exact (damage_contained Crates.documented_standard (by decide) hhealthy ([], 0) hwf hseq hstream hpre hpost hscars
    hdrop).2.2.1

end Telemetry
