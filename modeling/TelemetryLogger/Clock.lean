import TelemetryLogger.Gaps
import TelemetryLogger.Logbook
/-!
# Clock — the times in a log (`telemetry-std`, `SystemClock`)

A record has the time at which its delimiter came in.  The clock does not go back (`SystemClock.now_mono`), so the
records of a run are in the order of their times, also when they are printed (`decode_in_time_order`).
-/
namespace Telemetry

/-- `SystemClock::now`, these nanoseconds after its base. -/
def SystemClock.now (elapsed : Nat) : UInt64 :=
  if elapsed / 1000 < 2 ^ 64 then UInt64.ofNat (elapsed / 1000) else 0xFFFFFFFFFFFFFFFF

theorem SystemClock.toNat_now (elapsed : Nat) : (now elapsed).toNat = min (elapsed / 1000) (2 ^ 64 - 1) := by
  unfold now
  split
  · rename_i h
    rw [UInt64.toNat_ofNat_of_lt' h]
    omega
  · show 2 ^ 64 - 1 = _
    omega

theorem SystemClock.now_mono {a b : Nat} (h : a ≤ b) : now a ≤ now b := by
  have hdiv : a / 1000 ≤ b / 1000 := Nat.div_le_div_right h
  rw [UInt64.le_iff_toNat_le, toNat_now, toNat_now]
  omega

def StoredRecord.timestampUs : StoredRecord → UInt64
  | .v1 v => v.timestampUs

variable {N : Nat}

/-- **A record has the time of its delimiter.** -/
theorem timestampUs_of_offer {c : Crates} {filter : FilterConfig} {w : List UInt8} {b : TimedByte} {r : StoredRecord}
    (h : verdictAt c N filter w b = .offer r) : r.timestampUs = b.now := by
  have hjudge : ∀ last p, judge c filter last p b.now = .offer r → r.timestampUs = b.now := by
    intro last p hp
    unfold judge judgeFrame at hp
    split at hp
    · cases hp
    · split at hp
      · split_ifs at hp
        cases hp
        rfl
      · cases hp
  unfold verdictAt at h
  simp only at h
  split_ifs at h
  exact hjudge _ _ h

theorem times_offers (c : Crates) (filter : FilterConfig) : ∀ (bytes : List TimedByte) (w : List UInt8),
    ((offers (verdicts c N filter w bytes)).map StoredRecord.timestampUs).Sublist (bytes.map (·.now))
  | [], _ => List.Sublist.slnil
  | b :: bytes, w => by
    have ih := times_offers c filter bytes (w ++ [b.byte])
    rw [verdicts, offers, List.flatMap_cons, ← offers, List.map_cons]
    cases hv : verdictAt c N filter w b with
    | offer r =>
      have htime := timestampUs_of_offer hv
      show (r.timestampUs :: _).Sublist _
      rw [htime]
      exact ih.cons_cons b.now
    | _ => exact ih.cons b.now

section

variable {c : Crates} (hc : c.Standard) {world : Host.World} {args : Host.Args}
  {reads : List (Except IoErrorKind Chunk)} {l : Loop Host.Files}

/-- **The records counted are in the order of the bytes read**, with the times of some of them. -/
theorem times_counted (c : Crates) (world : Host.World) (args : Host.Args) (reads : List (Except IoErrorKind Chunk)) :
    ((counted c world args reads).map StoredRecord.timestampUs).Sublist
      ((stream (callsOf (consumed reads))).map (·.now)) := by
  have hsub := (admitted_sublist (history c (FileStorage.storage world.io).traced (Host.filterOf args).1
    ((Pipeline.new (Host.filterOf args).1 : DefaultPipeline), (.new args.segmentSize, world.dir, 0), []) []
    (callsOf (consumed reads)))).1
  rw [history_verdicts] at hsub
  exact (hsub.map _).trans (times_offers c _ _ [])

include hc

/-- **A log is in the order of time.**  Each byte that a host reads comes in at an instant, the instants do not go back,
and the clock is the system's; then the records that the decoder prints are in the order of their times, and each has
the time of one of the bytes. -/
theorem decode_in_time_order (h : Host.Logs c world args reads l) {instants : List Nat}
    (hforward : instants.Pairwise (· ≤ ·))
    (hclock : (stream (callsOf (consumed reads))).map (·.now) = instants.map SystemClock.now) {disk : Decode.Disk}
    {dargs : Decode.Args} (hinspects : Host.Inspects disk l.storage.1.2.1 dargs) :
    let printed := (Decode.decodeAll c disk dargs).toOption.getD []
    (printed.map StoredRecord.timestampUs).Sublist (instants.map SystemClock.now) ∧
      printed.Pairwise (fun r r' => r.timestampUs ≤ r'.timestampUs) := by
  intro printed
  have hprinted : printed = (counted c world args reads).filter (Decode.passesFilter dargs) := h.printed hc hinspects
  have hsub : (printed.map StoredRecord.timestampUs).Sublist (instants.map SystemClock.now) := by
    rw [hprinted, ← hclock]
    exact (List.filter_sublist.map _).trans (times_counted c world args reads)
  have htimes : (instants.map SystemClock.now).Pairwise (· ≤ ·) :=
    List.pairwise_map.2 (hforward.imp (fun hle => SystemClock.now_mono hle))
  exact ⟨hsub, List.pairwise_map.1 (htimes.sublist hsub)⟩

end

/-- Two frames, all of whose bytes come in in the eighth microsecond. -/
theorem decode_in_time_order_run :
    ((Decode.decodeAll Crates.documented (calmDisk Crates.documented plainArgs [.ok twoFrames])
      Session.decodeHere).toOption.getD []).Pairwise (fun r r' => r.timestampUs ≤ r'.timestampUs) := by
  have hlogs : Host.Logs Crates.documented (calm [.ok twoFrames]) plainArgs [.ok twoFrames] _ :=
    logs_calm (show Host.Source.ofSpec plainArgs.input = some .stdin from rfl) (by decide +kernel)
  have hmounts := mounts_calm Crates.documented_standard hlogs []
  have hforward : (List.replicate 26 7125).Pairwise (· ≤ ·) := by simp
  exact (decode_in_time_order Crates.documented_standard hlogs hforward (by decide +kernel)
    (show Host.Inspects _ _ Session.decodeHere from ⟨rfl, [], rfl, hmounts⟩)).2

end Telemetry
