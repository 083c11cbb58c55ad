import TelemetryLogger.Logbook
import TelemetryLogger.Traffic
/-!
# Toolchain — from `packet-generator` to `telemetry-decode`

The generator sends each write as one datagram, the host reads each datagram at once and drains, and the decoder reads
the files: the queue is never full, so what is printed at the end is each whole frame that follows the whole frame
before it (`traffic_decoded`), also if the network loses, repeats, reorders or damages datagrams (`network_decoded`).
-/
namespace Telemetry

/-- The chunks read before the others. -/
theorem consumed_append {chunks : List Chunk} (h : ∀ chunk ∈ chunks, chunk.1 ≠ [])
    (rest : List (Except IoErrorKind Chunk)) : consumed (chunks.map .ok ++ rest) = chunks ++ consumed rest := by
  induction chunks with
  | nil => rfl
  | cons chunk chunks ih =>
    have hne : ¬ chunk.1.length = 0 := fun h0 => h chunk List.mem_cons_self (List.length_eq_zero_iff.1 h0)
    rw [List.map_cons, List.cons_append, consumed, if_neg hne, ih (fun x hx => h x (List.mem_cons_of_mem _ hx))]
    rfl

theorem delimiters_eq_count (bytes : List TimedByte) : delimiters bytes = (untimed bytes).count 0x00 := by
  rw [delimiters, untimed, List.count, List.countP_map]
  rfl

/-- A datagram socket, and no filter. -/
def udpArgs : Host.Args := ⟨"udp:0.0.0.0:9000".toList, 1048576, 0, [], 50⟩

/-- **Datagrams with one delimiter each**, after which nothing more comes: a host without a filter counts and keeps what
the verdicts on them say. -/
theorem datagrams_logged {c : Crates} (hc : c.Standard) {datagrams : List (List TimedByte)}
    (hone : ∀ d ∈ datagrams, delimiters d = 1) (hlen : ∀ d ∈ datagrams, d.length ≤ readBufLen)
    {rest : List (Except IoErrorKind Chunk)} (hrest : consumed rest = []) {world : Host.World} {args : Host.Args}
    (hplain : args.minSeverity = 0 ∧ args.allowTypes = []) {l : Loop Host.Files}
    (h : Host.Logs c world args (datagrams.map (fun d => .ok (UdpSource.read d)) ++ rest) l) :
    (∀ k, l.pipeline.stats.counter k = UInt64.ofNat (((spoken (verdicts c defaultMaxFrame .allowAll []
        datagrams.flatten)).filterMap (Verdict.counter false)).count k)) ∧
      counted c world args (datagrams.map (fun d => .ok (UdpSource.read d)) ++ rest)
        = offers (verdicts c defaultMaxFrame .allowAll [] datagrams.flatten) := by
  have hread : ∀ d ∈ datagrams, (UdpSource.read d).1 = d := fun d hd => udpRead_of_le (hlen d hd)
  have hchunks : consumed (datagrams.map (fun d => .ok (UdpSource.read d)) ++ rest) = datagrams.map UdpSource.read := by
    have hne : ∀ chunk ∈ datagrams.map UdpSource.read, chunk.1 ≠ [] := by
      intro chunk hchunk
      obtain ⟨d, hd, rfl⟩ := List.mem_map.1 hchunk
      rw [hread d hd]
      rintro rfl
      cases hone _ hd
    have hmap := consumed_append hne rest
    rw [List.map_map, hrest, List.append_nil] at hmap
    exact hmap
  have hstream : stream (callsOf (datagrams.map UdpSource.read)) = datagrams.flatten := by
    rw [stream_callsOf, List.flatMap_map, List.flatMap_congr hread, List.flatMap_id']
  have hfilter : (Host.filterOf args).1 = .allowAll := by
    unfold Host.filterOf
    rw [hplain.1, hplain.2]
    rfl
  have hroom : ∀ chunk ∈ consumed (datagrams.map (fun d => .ok (UdpSource.read d)) ++ rest),
      delimiters chunk.1 ≤ hostQueueDepth := by
    intro chunk hchunk
    rw [hchunks] at hchunk
    obtain ⟨d, hd, rfl⟩ := List.mem_map.1 hchunk
    rw [hread d hd, hone d hd]
    decide
  have hcounter := (recorded_of_noDrop hc _ _ _ _ (noDrop_of_room hc args h.succeeds hroom)).2
  rw [← (h.state hc).pipeline, hchunks, hstream, hfilter] at hcounter
  have hcounted := counted_of_room hc args h.succeeds hroom
  rw [hchunks, hstream, List.filter_eq_self.2 (fun r hr => allows_of_plain hplain r)] at hcounted
  exact ⟨hcounter, hcounted⟩

namespace Generator

theorem Emission.length_unit_le {c : Crates} (hc : c.Standard) (e : Emission) :
    ∀ unit ∈ e.units c, unit.length ≤ 495 := by
  have hwire : ∀ f : Frame, (f.wire c).length ≤ 494 := by
    intro f
    rw [Frame.wire, List.length_append]
    exact Nat.succ_le_succ (f.length_body_le hc)
  intro unit hunit
  cases e with
  | valid f =>
    rw [List.mem_singleton.1 hunit]
    exact Nat.le_succ_of_le (hwire f)
  | badCrc f pos =>
    rw [List.mem_singleton.1 hunit, List.length_modify]
    exact Nat.le_succ_of_le (hwire f)
  | truncated f len =>
    rw [List.mem_singleton.1 hunit, List.length_append]
    exact Nat.succ_le_succ (Nat.le_trans (List.length_take_le' _ _) (hwire f))
  | burst f extra =>
    rw [List.eq_of_mem_replicate hunit]
    exact Nat.le_succ_of_le (hwire f)

section

variable {F ρ : Type} (R : Rng F ρ) [LT F] [LE F] [DecidableLT F] [DecidableLE F] (set : Settings F)

theorem length_emitted_le {c : Crates} (hc : c.Standard) (n : Nat) (g : Gen ρ) :
    ∀ unit ∈ (emitted R set c n g).2, unit.length ≤ 495 := by
  obtain ⟨rounds, -, -, -, hunits, -⟩ := emitted_spec R set hc n g
  intro unit hunit
  rw [hunits] at hunit
  obtain ⟨r, -, hunit⟩ := List.mem_flatMap.1 hunit
  exact r.emission.length_unit_le hc unit hunit

/-- **What the generator sends, the decoder prints.**  Each write of a run is one datagram, and the datagrams arrive in
order; then the socket fails, or nothing more comes.  If no flip made a delimiter, and the host logs without a filter,
its counters are those due after the tool's summary, nothing is dropped, the records it counts are those of each whole
frame that follows the whole frame before it, and a reader of the decoder's `JSON` gets those of them that pass its
filter. -/
theorem traffic_decoded {c : Crates} (hc : c.Standard) (rng : ρ) {n : Nat} (hn : n < 2 ^ 32)
    (hwhole : ∀ unit ∈ (emitted R set c n ⟨rng, 0, .default⟩).2, unit.count 0x00 = 1)
    {datagrams : List (List TimedByte)} (hsent : datagrams.map untimed = (emitted R set c n ⟨rng, 0, .default⟩).2)
    {rest : List (Except IoErrorKind Chunk)} (hrest : consumed rest = []) {world : Host.World} {args : Host.Args}
    (hplain : args.minSeverity = 0 ∧ args.allowTypes = []) {l : Loop Host.Files}
    (h : Host.Logs c world args (datagrams.map (fun d => .ok (UdpSource.read d)) ++ rest) l) {disk : Decode.Disk}
    {dargs : Decode.Args} (hinspects : Host.Inspects disk l.storage.1.2.1 dargs) (stats : Bool)
    (draw : List (List Char) → List (List (List Char)) → List Char) :
    let records := counted c world args (datagrams.map (fun d => .ok (UdpSource.read d)) ++ rest)
    Received set c n (emitted R set c n ⟨rng, 0, .default⟩) datagrams.flatten l.pipeline.stats records ∧
    (Decode.main c disk dargs .json stats).map (fun s => Decode.readJson (Decode.output draw s.stdout))
      = if records = [] then .error .noInputFiles else .ok (some (records.filter (Decode.passesFilter dargs))) := by
  intro records
  have hone : ∀ d ∈ datagrams, delimiters d = 1 := by
    intro d hd
    rw [delimiters_eq_count]
    exact hwhole _ (hsent ▸ List.mem_map_of_mem hd)
  have hlen : ∀ d ∈ datagrams, d.length ≤ readBufLen := by
    intro d hd
    have hunit := length_emitted_le R set hc n ⟨rng, 0, .default⟩ _ (hsent ▸ List.mem_map_of_mem hd)
    rw [untimed, List.length_map] at hunit
    exact Nat.le_trans hunit (by decide)
  have hbytes : untimed datagrams.flatten = (emitted R set c n ⟨rng, 0, .default⟩).2.flatten := by
    rw [untimed, List.map_flatten, ← hsent]
    rfl
  obtain ⟨hcounter, hcounted⟩ := datagrams_logged hc hone hlen hrest hplain h
  have hreceived := received R set hc (by decide : 493 ≤ defaultMaxFrame) rng hn hwhole hbytes hcounter
  rw [← hcounted] at hreceived
  exact ⟨hreceived, h.readJson hc hinspects stats draw⟩

end

/-- The seven writes of four frames, each a datagram; then the socket fails.  Both records are printed. -/
theorem traffic_decoded_run :
    let out := emitted counting mixed Crates.documented 4 ⟨8, 0, .default⟩
    let datagrams : List (List TimedByte) := out.2.map (fun unit => unit.map (⟨·, 5⟩))
    let reads := datagrams.map (fun d => Except.ok (UdpSource.read d)) ++ [.error .other]
    Received mixed Crates.documented 4 out datagrams.flatten (calmRun Crates.documented udpArgs reads).pipeline.stats
        mixedRecords ∧
      (calmRun Crates.documented udpArgs reads).pipeline.stats.counter = (fun
        | .ok => 2
        | .dropped => 0
        | .crcFail => 1
        | .seqGap => 4
        | .filtered => 0) ∧
      (Decode.main Crates.documented (calmDisk Crates.documented udpArgs reads) Session.decodeHere .json true).map
          (fun s => Decode.readJson (Decode.output (fun _ _ => []) s.stdout)) = .ok (some mixedRecords) := by
  intro out datagrams reads
  have hwhole : ∀ unit ∈ out.2, unit.count 0x00 = 1 := by decide +kernel
  have hsent : datagrams.map untimed = out.2 := by decide +kernel
  have hlogs : Host.Logs Crates.documented (calm reads) udpArgs reads _ :=
    logs_calm (show Host.Source.ofSpec udpArgs.input = some (.udp "0.0.0.0:9000".toList) from rfl) (by decide +kernel)
  have hmounts := mounts_calm Crates.documented_standard hlogs []
  obtain ⟨hreceived, hprinted⟩ := traffic_decoded counting mixed Crates.documented_standard 8
    (show 4 < 2 ^ 32 by decide) hwhole hsent rfl ⟨rfl, rfl⟩ hlogs
    (show Host.Inspects _ _ Session.decodeHere from ⟨rfl, [], rfl, hmounts⟩) true (fun _ _ => [])
  have hcounted : counted Crates.documented (calm reads) udpArgs reads = mixedRecords := by decide +kernel
  rw [hcounted] at hreceived hprinted
  refine ⟨hreceived, ?_, hprinted.trans ?_⟩
  · funext k
    cases k <;> decide +kernel
  · decide +kernel

end Generator

/-! ## A network that loses, repeats, reorders and damages -/

section Network

open Generator (Piece due map_fst_heard)
open Adjacent (breaks followers)

/-- The frames that arrive whole, each with the time of its delimiter. -/
def arrived (pieces : List Piece) (bytes : List TimedByte) : List Generator.Arrival :=
  Generator.arrivals ((pieces.map Piece.carried).zip (completions bytes))

theorem frames_arrived {pieces : List Piece} {bytes : List TimedByte}
    (h : (completions bytes).length = pieces.length) :
    (arrived pieces bytes).map Prod.fst = pieces.filterMap Piece.carried := by
  rw [arrived, Generator.fst_arrivals, map_fst_heard h, List.filterMap_map]
  rfl

/-- **Whatever the network does to the datagrams**, if a damaged one is a segment that fits and holds no frame, and the
host logs without a filter: the decoder prints the record of each frame that arrives whole and
whose number follows that of the whole frame before it.  The host counts each damaged datagram as a CRC failure and each
break in the numbers as a gap, and drops nothing.  If the network only loses frames of a sequence, and damages some,
then each costs at most one frame more. -/
theorem network_decoded {c : Crates} (hc : c.Standard) {pieces : List Piece}
    (hpieces : ∀ p ∈ pieces, p.Sound c defaultMaxFrame) {datagrams : List (List TimedByte)}
    (hsent : datagrams.map untimed = pieces.map (fun p => p.segment ++ [0x00]))
    {rest : List (Except IoErrorKind Chunk)} (hrest : consumed rest = []) {world : Host.World} {args : Host.Args}
    (hplain : args.minSeverity = 0 ∧ args.allowTypes = []) {l : Loop Host.Files}
    (h : Host.Logs c world args (datagrams.map (fun d => .ok (UdpSource.read d)) ++ rest) l) {disk : Decode.Disk}
    {dargs : Decode.Args} (hinspects : Host.Inspects disk l.storage.1.2.1 dargs) (stats : Bool)
    (draw : List (List Char) → List (List (List Char)) → List Char) :
    let heard := pieces.filterMap Piece.carried
    let whole := arrived pieces datagrams.flatten
    let records := (followers (fun a b => Generator.Follows a.1 b.1) none whole).map Generator.Arrival.record
    whole.map Prod.fst = heard ∧
    (Decode.main c disk dargs .json stats).map (fun s => Decode.readJson (Decode.output draw s.stdout))
      = (if records = [] then .error .noInputFiles
        else .ok (some (records.filter (Decode.passesFilter dargs)))) ∧
    l.pipeline.stats.ok = .ofNat records.length ∧ l.pipeline.stats.dropped = 0 ∧ l.pipeline.stats.filtered = 0 ∧
    l.pipeline.stats.crcFail = .ofNat (pieces.countP (fun p => p.carried.isNone)) ∧
    l.pipeline.stats.seqGap = .ofNat (breaks Generator.Follows heard) ∧
    ∀ frames, InSequence frames → heard.Sublist frames →
      frames.length ≤ records.length + 2 * (frames.length - heard.length) := by
  intro heard whole records
  have hunit : ∀ d ∈ datagrams, ∃ p ∈ pieces, untimed d = p.segment ++ [0x00] := by
    intro d hd
    obtain ⟨p, hp, heq⟩ := List.mem_map.1 (hsent ▸ List.mem_map_of_mem (f := untimed) hd)
    exact ⟨p, hp, heq.symm⟩
  have hone : ∀ d ∈ datagrams, delimiters d = 1 := by
    intro d hd
    obtain ⟨p, hp, heq⟩ := hunit d hd
    rw [delimiters_eq_count, heq, List.count_append, List.count_eq_zero.2 (hpieces p hp).zeroFree]
    rfl
  have hlen : ∀ d ∈ datagrams, d.length ≤ readBufLen := by
    intro d hd
    obtain ⟨p, hp, heq⟩ := hunit d hd
    have hsize := congrArg List.length heq
    rw [untimed, List.length_map, List.length_append] at hsize
    rw [hsize]
    exact Nat.le_trans (Nat.succ_le_succ (hpieces p hp).length) (by decide)
  have hbytes : untimed datagrams.flatten = (pieces.map Piece.segment).flatMap (· ++ [0x00]) := by
    rw [untimed, List.map_flatten, List.flatMap_map, List.flatMap_def, ← hsent]
    rfl
  obtain ⟨hcounter, hcounted⟩ := datagrams_logged hc hone hlen hrest hplain h
  obtain ⟨htimes, hoffers, hcount⟩ := Generator.verdicts_pieces hc (by decide : 493 ≤ defaultMaxFrame) hpieces hbytes
  have hwhole : whole.map Prod.fst = heard := frames_arrived htimes
  have hlength : heard.length = whole.length := by rw [← hwhole, List.length_map]
  have hrecords : counted c world args (datagrams.map (fun d => .ok (UdpSource.read d)) ++ rest) = records :=
    hcounted.trans hoffers
  have hsum : records.length + breaks Generator.Follows heard = heard.length := by
    have hfollow := Adjacent.length_followers (fun a b : Generator.Arrival => Generator.Follows a.1 b.1) none whole
    rw [Option.toList_none, List.nil_append, Adjacent.breaks_map Generator.Follows Prod.fst, hwhole] at hfollow
    rw [List.length_map, hlength]
    exact hfollow
  have hvalue : ∀ k, l.pipeline.stats.counter k
      = .ofNat (due none ((pieces.map Piece.carried).zip (completions datagrams.flatten)) k) := by
    intro k
    rw [hcounter k, hcount k]
  refine ⟨hwhole, ?_, ?_, hvalue .dropped, hvalue .filtered, ?_, ?_, ?_⟩
  · rw [h.readJson hc hinspects, hrecords]
  · rw [h.ok_eq hc, hrecords]
  · refine (hvalue .crcFail).trans (congrArg UInt64.ofNat ?_)
    rw [due, Generator.countP_isNone, map_fst_heard htimes, List.countP_map]
    rfl
  · refine (hvalue .seqGap).trans (congrArg UInt64.ofNat ?_)
    have hgap : due none ((pieces.map Piece.carried).zip (completions datagrams.flatten)) .seqGap
        = whole.length - (followers (fun a b : Generator.Arrival => Generator.Follows a.1 b.1) none whole).length := rfl
    rw [List.length_map] at hsum
    rw [hgap]
    omega
  · intro frames hseq hsub
    have hnone : breaks Generator.Follows frames = 0 := Adjacent.breaks_eq_zero Generator.Follows hseq
    have hbreaks := Adjacent.breaks_sublist Generator.Follows hsub
    omega

/-- Of four heartbeats the second is cut.  The third is then a gap, and the fourth is recorded again. -/
theorem network_decoded_run :
    let pieces : List Piece := [⟨(heartbeat 0).body Crates.documented, some (heartbeat 0)⟩,
      ⟨((heartbeat 1).body Crates.documented).take 5, none⟩,
      ⟨(heartbeat 2).body Crates.documented, some (heartbeat 2)⟩,
      ⟨(heartbeat 3).body Crates.documented, some (heartbeat 3)⟩]
    let datagrams : List (List TimedByte) := pieces.map (fun p => (p.segment ++ [0x00]).map (⟨·, 5⟩))
    let reads := datagrams.map (fun d => Except.ok (UdpSource.read d)) ++ [.error .other]
    let records : List StoredRecord := [.v1 ⟨5, 0, 1, 0, .new⟩, .v1 ⟨5, 3, 1, 0, .new⟩]
    (Decode.main Crates.documented (calmDisk Crates.documented udpArgs reads) Session.decodeHere .json true).map
        (fun s => Decode.readJson (Decode.output (fun _ _ => []) s.stdout)) = .ok (some records) ∧
      (calmRun Crates.documented udpArgs reads).pipeline.stats.ok = .ofNat records.length ∧
      (calmRun Crates.documented udpArgs reads).pipeline.stats.crcFail = .ofNat 1 ∧
      (calmRun Crates.documented udpArgs reads).pipeline.stats.seqGap = .ofNat 1 ∧
      4 ≤ records.length + 2 * (4 - 3) := by
  intro pieces datagrams reads records
  have hwhole : ∀ n : UInt32, Piece.Sound Crates.documented defaultMaxFrame
      ⟨(heartbeat n).body Crates.documented, some (heartbeat n)⟩ :=
    fun n => Piece.sound_whole Crates.documented_standard (by decide) (heartbeat_wellFormed n)
  have hcut : Piece.Sound Crates.documented defaultMaxFrame ⟨((heartbeat 1).body Crates.documented).take 5, none⟩ :=
    Piece.sound_cut Crates.documented_standard (by decide) (heartbeat_wellFormed 1) (by decide) (by decide +kernel)
  have hpieces : ∀ p ∈ pieces, p.Sound Crates.documented defaultMaxFrame := by
    simp only [pieces, List.forall_mem_cons]
    exact ⟨hwhole 0, hcut, hwhole 2, hwhole 3, fun p hp => absurd hp List.not_mem_nil⟩
  have hsent : datagrams.map untimed = pieces.map (fun p => p.segment ++ [0x00]) := by decide +kernel
  have hlogs : Host.Logs Crates.documented (calm reads) udpArgs reads _ :=
    logs_calm (show Host.Source.ofSpec udpArgs.input = some (.udp "0.0.0.0:9000".toList) from rfl) (by decide +kernel)
  have hmounts := mounts_calm Crates.documented_standard hlogs []
  obtain ⟨-, hprints, hok, -, -, hcrc, hgap, hloss⟩ := network_decoded Crates.documented_standard hpieces hsent rfl
    ⟨rfl, rfl⟩ hlogs (show Host.Inspects _ _ Session.decodeHere from ⟨rfl, [], rfl, hmounts⟩) true (fun _ _ => [])
  have hrecords : (followers (fun a b => Generator.Follows a.1 b.1) none (arrived pieces datagrams.flatten)).map
      Generator.Arrival.record = records := by decide +kernel
  have hheard : pieces.filterMap Piece.carried = [heartbeat 0, heartbeat 2, heartbeat 3] := rfl
  have hlost := hloss [heartbeat 0, heartbeat 1, heartbeat 2, heartbeat 3]
    (List.isChain_cons_cons.2 ⟨by decide, List.isChain_cons_cons.2 ⟨by decide, List.isChain_pair.2 (by decide)⟩⟩)
    (by rw [hheard]; decide)
  rw [hrecords] at hprints hok hlost
  rw [hheard] at hgap hlost
  exact ⟨hprints, hok, hcrc, hgap, hlost⟩

end Network

end Telemetry
