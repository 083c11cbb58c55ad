import TelemetryLogger.Lib.Bytes
import TelemetryLogger.Lib.Heapless
/-!
# Protocol — constants, enumerations and outcomes (`protocol.rs`, `error.rs`)
-/
namespace Telemetry

def protocolVersion : UInt8 := 0x01
def maxPayload : Nat := 480
def headerLen : Nat := 9
def crc16Len : Nat := 2
def minFrameLen : Nat := headerLen + crc16Len
def crc16Residue : UInt16 := 0xF0B8

inductive PacketType
  | heartbeat | sensorData | event | diagnostic | control
  deriving DecidableEq

def PacketType.tryFrom (value : UInt8) : Option PacketType :=
  if value = 0x01 then some .heartbeat
  else if value = 0x02 then some .sensorData
  else if value = 0x03 then some .event
  else if value = 0x04 then some .diagnostic
  else if value = 0x05 then some .control
  else none

inductive Severity
  | debug | info | warning | error | fatal
  deriving DecidableEq

def Severity.tryFrom (value : UInt8) : Option Severity :=
  if value = 0x00 then some .debug
  else if value = 0x01 then some .info
  else if value = 0x02 then some .warning
  else if value = 0x03 then some .error
  else if value = 0x04 then some .fatal
  else none

inductive Reason
  | crc (expected actual : UInt16)
  | sequenceGap (expected got : UInt32)
  | filtered
  | badLength
  deriving DecidableEq

inductive Outcome (α : Type)
  | accepted (a : α)
  | rejected (reason : Reason)
  deriving DecidableEq

inductive Error
  | bufferFull
  | storage
  | codec
  deriving DecidableEq

/-- The known packet types are the bytes 1 to 5. -/
theorem PacketType.tryFrom_isSome (b : UInt8) : (PacketType.tryFrom b).isSome = true ↔ 1 ≤ b.toNat ∧ b.toNat ≤ 5 := by
  unfold tryFrom
  repeat' split
  case isFalse h1 h2 h3 h4 h5 =>
    simp only [Option.isSome_none, Bool.false_eq_true, false_iff, not_and]
    simp only [← UInt8.toNat_inj, UInt8.reduceToNat] at *
    omega
  all_goals
    rename_i h
    subst h
    decide

/-- The known severities are the bytes 0 to 4. -/
theorem Severity.tryFrom_isSome (b : UInt8) : (Severity.tryFrom b).isSome = true ↔ b.toNat ≤ 4 := by
  unfold tryFrom
  repeat' split
  case isFalse h1 h2 h3 h4 h5 =>
    simp only [Option.isSome_none, Bool.false_eq_true, false_iff]
    simp only [← UInt8.toNat_inj, UInt8.reduceToNat] at *
    omega
  all_goals
    rename_i h
    subst h
    decide

end Telemetry
