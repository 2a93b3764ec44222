import Mss.Services.Calibrations
import Mss.Services.Jobs

/-!
# Events of devices

A device's backend sends events over its websocket, each in a frame, and is replied to.

* `Store`: all that the handlers write, each part with the operations of its own.
* `DeviceEvent`, `EventReply`, `EventResponse`: what is sent and what is replied.
* `onDeviceInitializedEvent`, …, `handleEvent`: the handlers.
* **`handleFrame`**: run the handler of the event in one frame; an error becomes an error reply.
-/

namespace Mss.DeviceEvents

open Atomic Storage Prog

/-! ## What is stored, sent and replied -/

/-- **What the handlers write**: jobs and projects, devices, and calibrations. -/
structure Store (P : Type) where
  db : Db P
  devices : Devices.World
  calibrations : Calibrations.World := {}

/-- The data of an event, by its name. -/
inductive DeviceEventData
  | initialized (data : Devices.DeviceUpsert)
  | recalibrated (data : Calibrations.DeviceCalibrationCreate)
  | jobUpdated (data : SentJobUpdate)
  | switchedOff (date : DateTime)
  | switchedOn (date : DateTime)
  deriving DecidableEq

/-- An event of a device. -/
structure DeviceEvent where
  id : String
  data : DeviceEventData

/-- The data of a reply. -/
inductive EventReply
  | job (job : Job)
  | device (device : Devices.Device)
  | calibration (calibration : Calibrations.DeviceCalibration)

/-- The reply to a frame. -/
structure EventResponse where
  id : String
  status : String
  detail : Option String := none
  data : Option EventReply := none

/-- The errors that handlers raise. -/
inductive Exc
  | forbidden (msg : String)
  | jobs (e : Mss.Exc)
  | devices (e : Devices.Exc)
  | calibrations (e : Calibrations.Exc)

/-- How an error is replied. -/
def Exc.detail : Exc → String
  | .forbidden msg => "forbidden: " ++ msg
  | .jobs (.forbidden msg) => "forbidden: " ++ msg
  | _ => "unexpected server error"

/-- What the host gives. -/
structure Host where
  jobs : Mss.Host
  devices : Devices.Host
  qpuSecondsLowThreshold : ℚ

/-- What the handling of an event generates: the time, and the ids of what it may insert. -/
structure Generated where
  jobs : Mss.Generated
  deviceId : Id
  logId : Id
  calibrationId : Id

/-! ## The handlers -/

variable {P : Type} [ProjectStore P] (h : Host) (g : Generated)

/-- A handler: it replies or raises, and leaves a store. -/
abbrev Handler (P : Type) : Type := Store P → Except Exc EventReply × Store P

/-- Run a program of the jobs service, replying what it returns. -/
def runJobs (p : Mss.Service Job) : Handler P := fun s =>
  match p.run (Mss.exec h.jobs) s.db with
  | (.ok job, db) => (.ok (.job job), { s with db })
  | (.error e, db) => (.error (.jobs e), { s with db })

/-- Run a program of the devices service, replying what it returns. -/
def runDevices (p : Devices.Service Devices.Device) : Handler P := fun s =>
  match p.run Devices.exec s.devices with
  | (.ok device, devices) => (.ok (.device device), { s with devices })
  | (.error e, devices) => (.error (.devices e), { s with devices })

/-- Run a program of the calibrations service, replying what it returns. -/
def runCalibrations (p : Calibrations.Service Calibrations.DeviceCalibration) : Handler P :=
  fun s => match p.run Calibrations.exec s.calibrations with
    | (.ok calibration, calibrations) => (.ok (.calibration calibration), { s with calibrations })
    | (.error e, calibrations) => (.error (.calibrations e), { s with calibrations })

/-- Refuse to edit another device's record. -/
def forbidEditing (name : String) : Handler P := fun s =>
  (.error (.forbidden ("editing '" ++ name ++ "' is not allowed")), s)

/-- Handle the event that a job was updated. It is not told of which device. -/
def onJobUpdatedEvent (data : SentJobUpdate) : Handler P :=
  runJobs h (Mss.onJobUpdatedEvent h.jobs g.jobs h.qpuSecondsLowThreshold data.toJobUpdate)

/-- Handle the event that the device was initialized. -/
def onDeviceInitializedEvent (device : String) (data : Devices.DeviceUpsert) : Handler P :=
  if data.name ≠ device then forbidEditing data.name
  else runDevices (Devices.upsertDevice h.devices data g.deviceId)

/-- Handle the event that the device was switched off. -/
def onDeviceSwitchedOffEvent (device : String) (date : DateTime) : Handler P :=
  runDevices (Devices.switchOffDevice h.devices device date)

/-- Handle the event that the device was switched on. -/
def onDeviceSwitchedOnEvent (device : String) : Handler P :=
  runDevices (Devices.switchOnDevice h.devices device)

/-- Handle the event that the device was recalibrated. -/
def onDeviceRecalibratedEvent (device : String) (data : Calibrations.DeviceCalibrationCreate) :
    Handler P :=
  if data.name ≠ device then forbidEditing data.name
  else runCalibrations (Calibrations.createCalibration data g.logId g.calibrationId g.jobs.now)

/-- The handler of an event, by its name. -/
def handleEvent (device : String) : DeviceEventData → Handler P
  | .initialized data => onDeviceInitializedEvent h g device data
  | .recalibrated data => onDeviceRecalibratedEvent g device data
  | .jobUpdated data => onJobUpdatedEvent h g data
  | .switchedOff date => onDeviceSwitchedOffEvent h device date
  | .switchedOn _ => onDeviceSwitchedOnEvent h device

/-- **Run the handler of the event in one frame**; a frame of no event, or an error, becomes an
error reply. -/
def handleFrame (frame : Except String DeviceEvent) (device : String) (s : Store P) :
    EventResponse × Store P :=
  match frame with
  | .error msg => ({ id := "unknown", status := "error", detail := some ("invalid data: " ++ msg) }, s)
  | .ok event => match handleEvent h g device event.data s with
    | (.ok data, s') => ({ id := event.id, status := "success", data := some data }, s')
    | (.error e, s') => ({ id := event.id, status := "error", detail := some e.detail }, s')

end Mss.DeviceEvents
