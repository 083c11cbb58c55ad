import TelemetryLogger.Lib.Access
import TelemetryLogger.Lib.Adjacent
import TelemetryLogger.Lib.Bytes
import TelemetryLogger.Lib.Codec
import TelemetryLogger.Lib.Cobs
import TelemetryLogger.Lib.Crc
import TelemetryLogger.Lib.Decimal
import TelemetryLogger.Lib.Hex
import TelemetryLogger.Lib.Json
import TelemetryLogger.Lib.Machine
import TelemetryLogger.Lib.Overwrite
import TelemetryLogger.Lib.Pack
import TelemetryLogger.Lib.Split
import TelemetryLogger.Lib.Throttle
import TelemetryLogger.Crates
import TelemetryLogger.Frame
import TelemetryLogger.Framer
import TelemetryLogger.Reference
import TelemetryLogger.Grammar
import TelemetryLogger.Validator
import TelemetryLogger.Record
import TelemetryLogger.Bounds
import TelemetryLogger.Segment
import TelemetryLogger.Pipeline
import TelemetryLogger.Verdict
import TelemetryLogger.Detection
import TelemetryLogger.Runs
import TelemetryLogger.Conserve
import TelemetryLogger.Occupancy
import TelemetryLogger.Saturation
import TelemetryLogger.Delivery
import TelemetryLogger.Depth
import TelemetryLogger.Host
import TelemetryLogger.Udp
import TelemetryLogger.FileStorage
import TelemetryLogger.Session
import TelemetryLogger.Rotation
import TelemetryLogger.Decode
import TelemetryLogger.Restart
import TelemetryLogger.Batch
import TelemetryLogger.Containment
import TelemetryLogger.Evolution
import TelemetryLogger.Gaps
import TelemetryLogger.Compare
import TelemetryLogger.Generator
import TelemetryLogger.Damage
import TelemetryLogger.Traffic
import TelemetryLogger.Output
import TelemetryLogger.Formats
import TelemetryLogger.Logbook
import TelemetryLogger.Archive
import TelemetryLogger.Crash
import TelemetryLogger.Faults
import TelemetryLogger.Clock
import TelemetryLogger.Meaning
import TelemetryLogger.Reports
import TelemetryLogger.Toolchain
