import Mss.Services.Handshakes

/-!
# Devices and their websockets

A backend opens websockets to MSS, each a connection that lapses unless it is renewed. A device is
online while it has a live connection and is not switched off; its stored flag follows that.

* `Device`, `DeviceConnection`, `SwitchedOffDevice`, `World`: the records and the clock.
* `Op`, `exec`: the operations on them.
* **`syncOnlineFlags`**: mark devices by what is connected and what is switched off.
* `upsertDevice`, `addConnection`, `removeConnection`, `keepConnectionsLive`, `switchOffDevice`,
  `switchOnDevice`: the services, most of which end by marking.
-/

namespace Mss.Devices

open Atomic Storage Prog

/-! ## Records -/

/-- The payload of a device, less what no service reads: its flag is the backend's view. -/
structure DeviceUpsert where
  name : String
  isOnline : Bool
  lastOnline : Option String := none
  deriving DecidableEq, Repr

/-- A device. -/
structure Device extends DeviceUpsert where
  id : Id
  createdAt : Option String := none
  updatedAt : Option String := none
  deriving DecidableEq, Repr

/-- A websocket that is held open, until it lapses. -/
structure DeviceConnection where
  id : Id
  deviceName : String
  connectedAt : DateTime
  expiresAt : DateTime
  deriving DecidableEq, Repr

/-- The connection as the database gives it back. -/
def DeviceConnection.stored (b : Backend) (r : DeviceConnection) : DeviceConnection :=
  { r with
    connectedAt := r.connectedAt.stored b
    expiresAt := r.expiresAt.stored b }

/-- The connection has not lapsed. -/
def DeviceConnection.isLive (now : ℤ) (r : DeviceConnection) : Bool :=
  now < r.expiresAt.utcMicros

/-- A device switched off, until it is switched on. -/
structure SwitchedOffDevice where
  name : String
  switchedOffAt : DateTime
  deriving DecidableEq, Repr

/-- The mark as the database gives it back. -/
def SwitchedOffDevice.stored (b : Backend) (r : SwitchedOffDevice) : SwitchedOffDevice :=
  { r with switchedOffAt := r.switchedOffAt.stored b }

/-- An update of a device; a value left out is not changed. -/
structure DeviceChanges where
  isOnline : Option Bool := none
  lastOnline : Option (Option String) := none
  updatedAt : Option (Option String) := none
  deriving DecidableEq, Repr

/-- The device after an update. -/
def Device.apply (u : DeviceChanges) (d : Device) : Device :=
  { d with
    isOnline := u.isOnline.getD d.isOnline
    lastOnline := u.lastOnline.getD d.lastOnline
    updatedAt := u.updatedAt.getD d.updatedAt }

@[simp] theorem Device.apply_name (u : DeviceChanges) (d : Device) : (d.apply u).name = d.name :=
  rfl

/-- What an upsert of a payload changes of a device: the values that are not null. -/
def DeviceUpsert.changes (payload : DeviceUpsert) (timestamp : String) : DeviceChanges where
  isOnline := some payload.isOnline
  lastOnline := payload.lastOnline.map some
  updatedAt := some (some timestamp)

/-- What an upsert of a payload inserts. -/
def DeviceUpsert.created (payload : DeviceUpsert) (timestamp : String) (id : Id) : Device :=
  { payload with
    id := id
    createdAt := some timestamp
    updatedAt := some timestamp }

/-! ## The operations -/

/-- **What the processes share**: the clock, in microseconds, the devices, their connections, and
those switched off. -/
structure World where
  backend : Backend
  now : ℤ
  devices : Table Device (fun d => d.name) := .empty
  connections : Table DeviceConnection DeviceConnection.id := .empty
  switchedOff : Table SwitchedOffDevice SwitchedOffDevice.name := .empty

/-- The device has a connection that has not lapsed. -/
def World.isConnected (w : World) (name : String) : Bool :=
  w.connections.rows.any fun r => r.deviceName = name && r.isLive w.now

/-- The device is marked switched off. -/
def World.isSwitchedOff (w : World) (name : String) : Bool :=
  (w.switchedOff.get name).isSome

/-- **The operations**; time passes, and lapsed connections are deleted, by operations of their
own. The id of a record that an upsert inserts is the database's. -/
inductive Op
  | readClock
  | getDevice (name : String)
  | findDevices (names : Option (List String))
  | upsertDevice (payload : DeviceUpsert) (timestamp : String) (id : Id)
  | updateDevice (name : String) (u : DeviceChanges)
  | insertConnection (r : DeviceConnection)
  | deleteConnection (id : Id)
  | updateConnections (ids : List Id) (expiresAt : DateTime)
  | findConnectedNames
  | findSwitchedOffNames
  | upsertSwitchedOff (r : SwitchedOffDevice)
  | deleteSwitchedOff (name : String)
  | deleteExpired (now : ℤ)
  | passTime (micros : ℕ)
  deriving DecidableEq

/-- What an operation answers. -/
@[reducible] def Resp : Op → Type
  | .readClock => ℤ
  | .getDevice _ => Option Device
  | .findDevices _ => List Device
  | .upsertDevice _ _ _ => Unit
  | .updateDevice _ _ => Option Device
  | .insertConnection _ => Bool
  | .deleteConnection _ => Option DeviceConnection
  | .updateConnections _ _ => Unit
  | .findConnectedNames => List String
  | .findSwitchedOffNames => List String
  | .upsertSwitchedOff _ => Unit
  | .deleteSwitchedOff _ => Unit
  | .deleteExpired _ => Unit
  | .passTime _ => Unit

/-- The live connection of an id. -/
def World.findConnection (w : World) (id : Id) : Option DeviceConnection :=
  (w.connections.get id).filter (·.isLive w.now)

/-- Renew a connection, if it is one of those given and has not lapsed. -/
def World.renew (w : World) (ids : List Id) (expiresAt : DateTime) (r : DeviceConnection) :
    DeviceConnection :=
  if r.id ∈ ids ∧ r.isLive w.now then { r with expiresAt := expiresAt.stored w.backend } else r

theorem World.renew_id (w : World) (ids : List Id) (expiresAt : DateTime) (r : DeviceConnection) :
    (w.renew ids expiresAt r).id = r.id := by
  unfold renew
  split_ifs <;> rfl

/-- **What an operation answers and leaves.** -/
def exec (o : Op) (w : World) : Resp o × World :=
  match o with
  | .readClock => (w.now, w)
  | .getDevice name => (w.devices.get name, w)
  | .findDevices names => (w.devices.rows.filter fun d => names.all (d.name ∈ ·), w)
  | .upsertDevice payload timestamp id => ((), { w with
      devices := w.devices.upsert payload.name (.apply (payload.changes timestamp))
        (Device.apply_name _) (payload.created timestamp id) rfl })
  | .updateDevice name u => ((w.devices.get name).map (.apply u),
      { w with devices := w.devices.modify name (.apply u) (Device.apply_name u) })
  | .insertConnection r => match w.connections.insert? (fun _ _ => False) (r.stored w.backend) with
    | some connections => (true, { w with connections })
    | none => (false, w)
  | .deleteConnection id => match w.findConnection id with
    | some r => (some r, { w with connections := w.connections.erase id })
    | none => (none, w)
  | .updateConnections ids expiresAt => ((), { w with
      connections := w.connections.mapRows (w.renew ids expiresAt) (w.renew_id ids expiresAt) })
  | .findConnectedNames =>
    (((w.connections.rows.filter (·.isLive w.now)).map (·.deviceName)).dedup, w)
  | .findSwitchedOffNames => (w.switchedOff.rows.map (·.name), w)
  | .upsertSwitchedOff r => ((), { w with
      switchedOff := w.switchedOff.upsert r.name
        (fun q => { q with switchedOffAt := (r.stored w.backend).switchedOffAt }) (fun _ => rfl)
        (r.stored w.backend) rfl })
  | .deleteSwitchedOff name => ((), { w with switchedOff := w.switchedOff.erase name })
  | .deleteExpired now =>
    ((), { w with connections := w.connections.eraseWhere fun r => !r.isLive now })
  | .passTime micros => ((), { w with now := w.now + micros })

/-- The errors raised. -/
inductive Exc
  | notFound (msg : String)
  | duplicateKey
  deriving DecidableEq, Repr

/-- A program of the devices service. -/
abbrev Service (α : Type) : Type := Prog Resp Exc α

/-- Call one operation. -/
abbrev call (o : Op) : Service (Resp o) := Prog.perform o

/-! ## Devices -/

/-- What the host gives: an instant as ISO 8601 text, in the precision configured, and a datetime
as ISO 8601 text in full. -/
structure Host where
  datetimeToZulu : ℤ → String
  isoformat : DateTime → String

variable (h : Host)

/-- The current time as text. -/
def getCurrentTimestamp : Service String := do
  let now ← call .readClock
  return h.datetimeToZulu now

/-- The device of the given name. -/
def getDevice (name : String) : Service Device := do
  match ← call (.getDevice name) with
  | some device => pure device
  | none => throw (.notFound ("no matches for '\x7b'name': '" ++ name ++ "'\x7d'"))

/-- Patch the data of the device of the given name. -/
def patchDevice (name : String) (payload : DeviceChanges) : Service Device := do
  let now ← getCurrentTimestamp h
  match ← call (.updateDevice name { payload with updatedAt := some (some now) }) with
  | some device => pure device
  | none => throw (.notFound ("device '" ++ name ++ "' not found"))

/-! ## Marking devices -/

/-- Since when a device marked so was last online; never, while it is. -/
def getLastOnline (isOnline : Bool) : Service (Option String) :=
  if isOnline then pure none
  else do
    let now ← getCurrentTimestamp h
    return some now

/-- Mark the device by whether it is to be online, if it is not marked so. -/
def syncDevice (isOnline : Bool) (device : Device) : Service Unit :=
  if isOnline ≠ device.isOnline then do
    let lastOnline ← getLastOnline h isOnline
    let _ ← patchDevice h device.name
      { isOnline := some isOnline, lastOnline := some lastOnline }
  else pure ()

/-- Mark each of the devices, by the names connected and those switched off. -/
def syncEach (connectedNames switchedOffNames : List String) : List Device → Service Unit
  | [] => pure ()
  | device :: devices => do
    syncDevice h (device.name ∈ connectedNames ∧ device.name ∉ switchedOffNames) device
    syncEach connectedNames switchedOffNames devices

/-- **Mark each device, or the named ones, online if it has a live connection and is not switched
off**, and offline otherwise, since now. -/
def syncOnlineFlags (names : Option (List String)) : Service Unit := do
  let connectedNames ← call .findConnectedNames
  let switchedOffNames ← call .findSwitchedOffNames
  let devices ← call (.findDevices names)
  syncEach h connectedNames switchedOffNames devices

/-! ## The services -/

/-- Create a new device or update it if it exists; `id` is the one the database gives it. -/
def upsertDevice (payload : DeviceUpsert) (id : Id) : Service Device := do
  let timestamp ← getCurrentTimestamp h
  call (.upsertDevice payload timestamp id)
  syncOnlineFlags h (some [payload.name])
  getDevice payload.name

/-- The instant so many seconds from now. -/
def getExpiry (ttl : ℚ) : Service DateTime := do
  let now ← call .readClock
  return ⟨now + Handshake.microsOf ttl, some 0⟩

/-- How long a connection counts unless it is renewed. -/
def connectionTtlSeconds : ℚ := 90

/-- Record a websocket of the device's backend, under an id generated for it. -/
def addConnection (deviceName : String) (ttl : ℚ) (id : Id) : Service Id := do
  let connectedAt ← call .readClock
  let expiresAt ← getExpiry ttl
  let isInserted ← call (.insertConnection ⟨id, deviceName, ⟨connectedAt, some 0⟩, expiresAt⟩)
  if isInserted then do
    syncOnlineFlags h (some [deviceName])
    return id
  else throw .duplicateKey

/-- Forget the websocket, which marks its device offline if it was the last. -/
def removeConnection (connectionId : Id) : Service Unit := do
  match ← call (.deleteConnection connectionId) with
  | some connection => syncOnlineFlags h (some [connection.deviceName])
  | none => pure ()

/-- Keep the websockets from lapsing for another `ttl` seconds. -/
def keepConnectionsLive (connectionIds : List Id) (ttl : ℚ) : Service Unit :=
  if connectionIds ≠ [] then do
    let expiresAt ← getExpiry ttl
    call (.updateConnections connectionIds expiresAt)
  else pure ()

/-- Mark the device switched off, and so offline since the date, until switched on. -/
def switchOffDevice (name : String) (date : DateTime) : Service Device := do
  let _ ← getDevice name
  call (.upsertSwitchedOff ⟨name, date⟩)
  patchDevice h name { isOnline := some false, lastOnline := some (some (h.isoformat date)) }

/-- Mark the device switched on, and so online again if connected. -/
def switchOnDevice (name : String) : Service Device := do
  call (.deleteSwitchedOff name)
  syncOnlineFlags h (some [name])
  getDevice name

/-- Delete the connections lapsed by now. -/
def deleteExpiredRecords : Service Unit := do
  let now ← call .readClock
  call (.deleteExpired now)

end Mss.Devices
