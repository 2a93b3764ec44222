import Mss.Lib.Pool
import Mss.Lib.Versions
import Mss.Services.Calibrations

/-!
# Creating calibrations, statement by statement

Several processes create calibrations on one database at once. An upsert is a find and then an
insert: in PostgreSQL two statements of one transaction, whose writes the others see once it is
committed; in MongoDB two steps of one command, whose writes are seen at once.

* `World`, `Op`, `exec`: the two tables and the statements on them, each with the call it is of.
* `Proceeds`: a statement waits while another call has written the row and not committed it.
* `sqlUpsertLog`, `mongoUpsertLog`, `sqlUpsertCalibration`, `mongoUpsertCalibration`: `update_one`
  of either store with `should_upsert`.
* **`createCalibration`**: the service over these.

A row lock under which nothing is written yet only makes other calls wait, and is left out. So are
the reads whose records no one uses.
-/

namespace Mss.CalibrationUpserts

open Atomic Storage Prog
open Calibrations (DeviceCalibrationCreate DeviceCalibration DeviceCalibrationLog)

variable {ι : Type} [DecidableEq ι]

/-! ## The statements -/

/-- The name of the device, under which its current calibration is kept. -/
def nameOf (c : DeviceCalibration) : String := c.name

/-- **The calibrations under concurrent writes.** -/
structure World (ι : Type) where
  backend : Backend
  logs : Table (Version ι DeviceCalibrationLog.id) (fun v => v.row.id) := .empty
  calibrations : Table (Version ι nameOf) (fun v => nameOf v.row) := .empty

/-- The log that all read. -/
def World.log (w : World ι) : List DeviceCalibrationLog := w.logs.rows.filterMap Version.committed

/-- The current calibrations that all read. -/
def World.current (w : World ι) : List DeviceCalibration :=
  w.calibrations.rows.filterMap Version.committed

/-- The current calibration of a device, as a call reads it. -/
def World.sees (w : World ι) (i : ι) (name : String) : Option DeviceCalibration :=
  (w.calibrations.get name).bind (Version.seenBy i)

/-- Who is noted as the writer of what a call writes: no one where it is committed at once. -/
def writerOf (b : Backend) (i : ι) : Option ι :=
  match b with
  | .sql => some i
  | .mongodb => none

/-- **The statements** of each call. A select is for update, and finds the first key. -/
inductive Op (ι : Type)
  | selectLog (i : ι) (record : DeviceCalibrationCreate)
  | insertLog (i : ι) (row : DeviceCalibrationLog)
  | selectCalibration (i : ι) (name : String)
  | insertCalibration (i : ι) (row : DeviceCalibration)
  | updateCalibration (i : ι) (record : DeviceCalibrationCreate) (now : String)
  | getCalibration (i : ι) (name : String)
  | commit (i : ι)

/-- The errors raised. -/
inductive Exc
  | duplicateKey
  | indexError
  deriving DecidableEq, Repr

/-- What a statement answers. -/
@[reducible] def Resp : Op ι → Type
  | .selectLog _ _ => Option Id
  | .insertLog _ _ => Except Exc Unit
  | .selectCalibration _ _ => Option String
  | .insertCalibration _ _ => Except Exc Unit
  | .updateCalibration _ _ _ => Option DeviceCalibration
  | .getCalibration _ _ => Option DeviceCalibration
  | .commit _ => Unit

/-- **What a statement answers and leaves.** The log has no unique index but its key's; the name of
a current calibration is its key. -/
def exec (o : Op ι) (w : World ι) : Resp o × World ι :=
  match o with
  | .selectLog i record =>
    (((w.logs.rows.filterMap (Version.seenBy i)).find? fun r => decide (r.TellsOf record)).map
      (·.id), w)
  | .insertLog i row =>
    match w.logs.insert? (fun _ _ => False) { row := row, writer := writerOf w.backend i } with
    | some logs => (.ok (), { w with logs })
    | none => (.error .duplicateKey, w)
  | .selectCalibration i name => ((w.sees i name).map (·.name), w)
  | .insertCalibration i row =>
    match w.calibrations.insert? (fun _ _ => False)
        { row := row, writer := writerOf w.backend i } with
    | some calibrations => (.ok (), { w with calibrations })
    | none => (.error .duplicateKey, w)
  | .updateCalibration i record now =>
    ((w.sees i record.name).map (.apply record now),
      { w with
        calibrations := w.calibrations.modify record.name
          (Version.update (writerOf w.backend i) i (.apply record now) fun _ => rfl)
          fun _ => Version.key_update })
  | .getCalibration i name => (w.sees i name, w)
  | .commit i =>
    ((), { w with
      logs := w.logs.mapRows (Version.commit i) fun v => by rw [Version.commit_row]
      calibrations := w.calibrations.mapRows (Version.commit i) fun v => by
        rw [Version.commit_row] })

/-- Whether a version is another's that is not committed. -/
def isOthers (i : ι) {R K : Type} {key : R → K} (v : Version ι key) : Bool :=
  match v.writer with
  | none => false
  | some j => j ≠ i

/-- **A statement proceeds** unless it has to wait: an insert for another's uncommitted row of its
name, and a select for update or an update, of a row that it sees, for another's uncommitted write
of it. -/
def Proceeds (o : Op ι) (w : World ι) : Prop :=
  match o with
  | .insertCalibration i row => ∀ v ∈ w.calibrations.get row.name, isOthers i v = false
  | .selectCalibration i name =>
    ∀ v ∈ w.calibrations.get name, (v.seenBy i).isSome = true → isOthers i v = false
  | .updateCalibration i record _ =>
    ∀ v ∈ w.calibrations.get record.name, (v.seenBy i).isSome = true → isOthers i v = false
  | _ => True

instance (o : Op ι) (w : World ι) : Decidable (Proceeds o w) := by
  unfold Proceeds
  cases o <;> exact inferInstance

/-! ## The programs -/

/-- A program of these statements. -/
abbrev Service (ι : Type) [DecidableEq ι] (α : Type) : Type := Prog (Resp (ι := ι)) Exc α

/-- Call one statement. -/
abbrev call (o : Op ι) : Service ι (Resp o) := Prog.perform o

/-- The log's upsert in PostgreSQL: what it sets only on insert changes nothing of a row found. -/
def sqlUpsertLog (i : ι) (record : DeviceCalibrationCreate) (id : Id) (now : String) :
    Service ι Unit := do
  match ← call (.selectLog i record) with
  | some _ => call (.commit i)
  | none =>
    match ← call (.insertLog i { record with id := id, updatedAt := some now }) with
    | .ok _ => call (.commit i)
    | .error e =>
      -- back at the savepoint: the row may be a concurrent call's
      match ← call (.selectLog i record) with
      | some _ => call (.commit i)
      | none => throw e

/-- The log's upsert in MongoDB: a find, and an insert where it found none. -/
def mongoUpsertLog (i : ι) (record : DeviceCalibrationCreate) (id : Id) (now : String) :
    Service ι Unit := do
  match ← call (.selectLog i record) with
  | some _ => return
  | none => ofExcept (← call (.insertLog i { record with id := id, updatedAt := some now }))

/-- What an upsert in PostgreSQL returns: the row of the key, once more read. -/
def getRecord (i : ι) (name : String) : Service ι DeviceCalibration := do
  match ← call (.getCalibration i name) with
  | some c =>
    call (.commit i)
    return c
  | none => throw .indexError

/-- The upsert of the current calibration in PostgreSQL. -/
def sqlUpsertCalibration (i : ι) (record : DeviceCalibrationCreate) (id : Id) (now : String) :
    Service ι DeviceCalibration := do
  match ← call (.selectCalibration i record.name) with
  | some key =>
    let _ ← call (.updateCalibration i record now)
    getRecord i key
  | none =>
    match ← call (.insertCalibration i { record with id := id, updatedAt := some now }) with
    | .ok _ => getRecord i record.name
    | .error e =>
      -- back at the savepoint: a concurrent call inserted it first
      match ← call (.selectCalibration i record.name) with
      | some key =>
        let _ ← call (.updateCalibration i record now)
        getRecord i key
      | none => throw e

/-- The upsert of the current calibration in MongoDB, tried again or not where another call
inserted the name first. -/
def mongoUpsertCalibration (retries : Bool) (i : ι) (record : DeviceCalibrationCreate) (id : Id)
    (now : String) : Service ι DeviceCalibration := do
  match ← call (.updateCalibration i record now) with
  | some c => return c
  | none =>
    match ← call (.insertCalibration i { record with id := id, updatedAt := some now }) with
    | .ok _ => return { record with id := id, updatedAt := some now }
    | .error e =>
      if retries then
        match ← call (.updateCalibration i record now) with
        | some c => return c
        | none => throw e
      else throw e

/-- What a call is given and generates. -/
structure Sent where
  record : DeviceCalibrationCreate
  logId : Id
  id : Id
  now : String
  deriving DecidableEq, Repr

/-- **Make the calibration its device's current one**, and log it once. -/
def createCalibration (b : Backend) (retries : Bool) (i : ι) (sent : Sent) :
    Service ι DeviceCalibration :=
  match b with
  | .sql => do
    sqlUpsertLog i sent.record sent.logId sent.now
    sqlUpsertCalibration i sent.record sent.id sent.now
  | .mongodb => do
    mongoUpsertLog i sent.record sent.logId sent.now
    mongoUpsertCalibration retries i sent.record sent.id sent.now

end Mss.CalibrationUpserts
