import Mss.Services.Devices

/-!
# Calibrations of devices

The current calibration of each device, and the log of all of them.

* `DeviceCalibration`, `DeviceCalibrationLog`, `World`: the records.
* `Op`, `exec`: the operations on them.
* **`createCalibration`**: make a calibration its device's current one, and log it once.
-/

namespace Mss.Calibrations

open Atomic Storage Prog

/-! ## Records -/

/-- The payload of a calibration, less what no service reads. -/
structure DeviceCalibrationCreate where
  name : String
  version : String
  lastCalibrated : Option String
  deriving DecidableEq, Repr

/-- The current calibration of a device. -/
structure DeviceCalibration extends DeviceCalibrationCreate where
  id : Id
  updatedAt : Option String
  deriving DecidableEq, Repr

/-- A calibration as logged. -/
structure DeviceCalibrationLog extends DeviceCalibrationCreate where
  id : Id
  updatedAt : Option String
  deriving DecidableEq, Repr

/-- The calibration after an update by a payload of its device. -/
def DeviceCalibration.apply (record : DeviceCalibrationCreate) (now : String)
    (c : DeviceCalibration) : DeviceCalibration :=
  { c with
    version := record.version
    lastCalibrated := record.lastCalibrated
    updatedAt := some now }

/-- The log tells of the same calibration of the same device. -/
def DeviceCalibrationLog.TellsOf (record : DeviceCalibrationCreate) (r : DeviceCalibrationLog) :
    Prop :=
  r.name = record.name ∧ r.lastCalibrated = record.lastCalibrated

instance (record : DeviceCalibrationCreate) : DecidablePred (DeviceCalibrationLog.TellsOf record) :=
  fun r => inferInstanceAs (Decidable (r.name = record.name ∧ _))

/-! ## The operations -/

/-- **The calibrations**, the current ones and the log. -/
structure World where
  calibrations : Table DeviceCalibration (fun c => c.name) := .empty
  logs : Table DeviceCalibrationLog (fun r => r.id) := .empty

/-- **The operations**: each is an upsert, and the id of a record inserted is the database's. -/
inductive Op
  | upsertLog (record : DeviceCalibrationCreate) (id : Id) (now : String)
  | upsertCalibration (record : DeviceCalibrationCreate) (id : Id) (now : String)
  deriving DecidableEq

/-- The errors raised. -/
inductive Exc
  | duplicateKey
  deriving DecidableEq, Repr

/-- What an operation answers. -/
@[reducible] def Resp : Op → Type
  | .upsertLog _ _ _ => Except Exc Unit
  | .upsertCalibration _ _ _ => DeviceCalibration

/-- **What an operation answers and leaves.** A calibration that is logged is not logged again. -/
def exec (o : Op) (w : World) : Resp o × World :=
  match o with
  | .upsertLog record id now =>
    if ∃ r ∈ w.logs.rows, r.TellsOf record then (.ok (), w)
    else match w.logs.insert? (fun _ _ => False) { record with id := id, updatedAt := some now } with
      | some logs => (.ok (), { w with logs })
      | none => (.error .duplicateKey, w)
  | .upsertCalibration record id now =>
    (((w.calibrations.get record.name).map (.apply record now)).getD
      { record with id := id, updatedAt := some now },
      { w with
        calibrations := w.calibrations.upsert record.name (.apply record now) (fun _ => rfl)
          { record with id := id, updatedAt := some now } rfl })

/-- A program of the calibrations service. -/
abbrev Service (α : Type) : Type := Prog Resp Exc α

/-- Call one operation. -/
abbrev call (o : Op) : Service (Resp o) := Prog.perform o

/-- **Make the calibration its device's current one**, and log it once, under ids generated. -/
def createCalibration (record : DeviceCalibrationCreate) (logId id : Id) (now : String) :
    Service DeviceCalibration := do
  ofExcept (← call (.upsertLog record logId now))
  call (.upsertCalibration record id now)

end Mss.Calibrations
