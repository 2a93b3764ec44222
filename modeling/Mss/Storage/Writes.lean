import Mss.Lib.Transactions
import Mss.Storage.SqlStore

/-!
# The writes of a store

A write is checked against the schema, and the store is asked. In SQL each runs in a transaction,
reads included: it finds the records, locks them, writes them and reads them back, and if any of
that raises, the tables are as they were.

* `Write`: a call that writes; **`Database.write`**: it is checked first.
* `SqlEngine`: a database, and what the store takes of Python.
* `SqlStore.findFirstKey`, `getRecord`, **`insertUpsertedRecord`**: the statements of an update.
* **`SqlStore.insertMany`**, **`updateOne`**, **`updateMany`**, **`deleteOne`**: the transactions.
-/

namespace Mss

open Storage

/-! ## Calls -/

/-- Which version of an updated record an update returns. -/
inductive Returning
  | before
  | after
  deriving DecidableEq, Repr

/-- **A call that writes records of a schema.** -/
inductive Write
  | insert (record : Record)
  | insertMany (records : List Record)
  | updateOne (filter : Filter) (update : Update) (shouldUpsert : Bool) (returning : Returning)
  | updateMany (filter : Filter) (update : Update)
  | deleteOne (filter : Filter)

/-- What a write returns. -/
inductive Answer
  | record (record : Option Record)
  | records (records : List Record)
  | count (count : ℕ)

/-- What MongoDB refuses: a value of a unique index that is taken, a document off the validator, or
an operator that the document's field does not take. -/
inductive ServerError
  | duplicateKey
  | documentInvalid
  | badUpdate
  deriving DecidableEq, Repr

/-- What a call raises: what a find does, the storage layer's `DuplicateKeyError` or its
`StorageError` of another constraint, or what the driver does. -/
inductive CallError
  | find (error : FindError)
  | duplicateKey
  | storage
  | integrity (violation : Violation)
  | data
  | index
  | server (error : ServerError)
  deriving DecidableEq, Repr

/-- What a database raises, as the driver does. -/
def WriteError.toCall : WriteError → CallError
  | .find error => .find error
  | .integrity violation => .integrity violation
  | .data => .data
  | .index => .index

/-- **Unique violations** become the storage layer's error. -/
def translateUniqueViolations : WriteError → CallError
  | .integrity .unique => .duplicateKey
  | .integrity _ => .storage
  | error => error.toCall

/-- Check a write against the schema. -/
def Database.check (schema : Schema) : Write → Except StorageError Unit
  | .insert _ | .insertMany _ => .ok ()
  | .updateOne filter update _ _ | .updateMany filter update => do
    checkFilter schema filter
    checkUpdate schema update
    checkKeyKept schema filter update
  | .deleteOne filter => checkFilter schema filter

/-- **Write through the database**: the write is checked, and the store is asked. -/
def Database.write {σ : Type} (schema : Schema)
    (storeWrite : Write → σ → Outcome CallError σ Answer) (write : Write) (s : σ) :
    Outcome CallError σ Answer :=
  match Database.check schema write with
  | .error e => .refuse (.find (.refused e)) s
  | .ok () => storeWrite write s

/-! ## What the store uses -/

/-- **A SQL database**, and what the store takes of Python: lower case, how a datetime is written,
and how a record is validated, from stored data and from values. -/
structure SqlEngine where
  database : SqlDatabase
  references : References
  text : TextOrder
  plan : SqlPlan text
  lower : String → String
  isoformat : ℤ → Option ℤ → String
  validate : Value Scalar → Except ValidationError Record
  construct : Record → Except ValidationError Record

/-- The tables of a schema in the database. -/
abbrev SqlEngine.Tables (engine : SqlEngine) (tables : SchemaTables) : Type :=
  SqlTables engine.database engine.references tables

/-- A scalar as a column is read: a datetime is aware, of UTC. -/
def Scalar.toPython : Scalar → PyScalar
  | bool b => .bool b
  | int i => .int i
  | float q => .float q
  | text t => .str t
  | datetime w => .datetime w (some 0)

/-- What is read of a key. -/
def readKey : Value Scalar → PyValue
  | .scalar s => .scalar s.toPython
  | _ => .none

/-- An error of a validation. -/
def WriteError.invalid (error : ValidationError) : WriteError := .find (.invalid error)

/-! ## The values of an upsert -/

/-- The values that the filter asks for, at its top. -/
def equalitiesOf (filter : Filter) : Record :=
  filter.foldl (fun values entry =>
    match entry with
    | .logical _ _ => values
    | .field name condition =>
      if isOperatorMap condition then
        match (operatorsOf condition).lookup "$eq" with
        | some v => assign name v values
        | none => values
      else assign name condition values) []

/-- The changes of an operator. -/
def changesOf (update : Update) (operator : String) : FieldChanges :=
  (update.lookup operator).getD []

/-- Assign each of some values. -/
def assignAll (values : Record) (changes : FieldChanges) : Record :=
  changes.foldl (fun values change => assign change.1 change.2 values) values

/-- **The values of the record that an upsert creates**: the filter's, then the update's. -/
def upsertedValues (filter : Filter) (update : Update) : Record :=
  let values := assignAll (equalitiesOf filter) (changesOf update "$set")
  let values := assignAll values (changesOf update "$setOnInsert")
  let values := assignAll values (changesOf update "$inc")
  assignAll values ((changesOf update "$addToSet").map fun change =>
    (change.1, .sequence .list [change.2]))

/-- The values with an id, where the schema has ids and none is given. -/
def withUpsertId (schema : Schema) (newId : String) (values : Record) : Record :=
  if (values.lookup "id").isNone ∧ (schema.declared "id").any FieldType.isIdField then
    assign "id" (.scalar (.str newId)) values
  else values

namespace SqlStore

section

variable (engine : SqlEngine) {tables : SchemaTables} (now : ℕ → ℤ) (newId : ℕ → String)

/-! ## Statements -/

/-- Find the matched records, at an instant, to write them. -/
def findToWrite (instant : ℤ) (filter : Filter) (limit : Option ℕ) (s : engine.Tables tables) :
    Except WriteError (List Record) :=
  (findRecords engine.lower engine.database engine.validate engine.plan s.stored.toStoredRows
    instant filter [] 0 limit false).mapError .find

/-- **Get the record of a key**, which has to be there. -/
def getRecord (instant : ℤ) (key : PyValue) (s : engine.Tables tables) :
    Except WriteError Record := do
  match ← findToWrite engine instant (filterOfKey tables.schema key) none s with
  | record :: _ => return record
  | [] => .error .index

/-- **The key of the first matched row**, in the order of insertion. -/
def findFirstKey (instant : ℤ) (filter : Filter) (s : engine.Tables tables) :
    Except WriteError (Option PyValue) := do
  let clause ← (translateFilter engine.lower tables instant filter).mapError .raised
  return (selectRows engine.database engine.plan s.stored.toStoredRows clause [rowIdTerm] 0
    (some 1)).head?.map fun row => readKey (row tables.schema.storage.key)

/-- Update the record of a key. -/
def updateKey (key : PyValue) (changes : Changes) (s : engine.Tables tables) :
    Except WriteError (engine.Tables tables) :=
  writeChanges engine.isoformat s key changes

/-- **Insert the record that an upsert creates**, and give its key. If it is there already, it is
updated. -/
def insertUpsertedRecord (instant : ℤ) (filter : Filter) (update : Update)
    (s : engine.Tables tables) : Except WriteError (PyValue × engine.Tables tables) := do
  let values := withUpsertId tables.schema (newId 0) (upsertedValues filter update)
  let record ← (engine.construct values).mapError .invalid
  match insertRecord engine.isoformat s (newId 1) record with
  | .ok s' => return (record.get tables.schema.storage.key, s')
  | .error (.integrity violation) =>
    match ← findFirstKey engine instant filter s with
    | none => .error (.integrity violation)
    | some key =>
      let changes ← (translateUpdate engine.isoformat tables update).mapError .raised
      return (key, ← updateKey engine key changes s)
  | .error e => .error e

/-! ## Transactions -/

/-- Insert a record. -/
def insertBody (record : Record) (s : engine.Tables tables) :
    Except WriteError (Record × engine.Tables tables) := do
  return (record, ← insertRecord engine.isoformat s (newId 0) record)

/-- Insert one of many records, with its place among them. -/
def insertNumbered (s : engine.Tables tables) (record : Record × ℕ) :
    Except WriteError (engine.Tables tables) :=
  insertRecord engine.isoformat s (newId record.2) record.1

/-- Insert records one after another. -/
def insertManyBody (records : List Record) (s : engine.Tables tables) :
    Except WriteError (List Record × engine.Tables tables) := do
  return (records, ← records.zipIdx.foldlM (insertNumbered engine newId) s)

/-- What an upsert returns. -/
def answerUpserted (returning : Returning) (key : PyValue) (s : engine.Tables tables) :
    Except WriteError (Option Record × engine.Tables tables) :=
  match returning with
  | .before => return (none, s)
  | .after => do return (some (← getRecord engine (now 2) key s), s)

/-- What an update of a record returns. -/
def answerUpdated (returning : Returning) (key : PyValue) (before : Record)
    (s : engine.Tables tables) : Except WriteError (Option Record × engine.Tables tables) :=
  match returning with
  | .before => return (some before, s)
  | .after => do return (some (← getRecord engine (now 2) key s), s)

/-- Update the first matched record, or insert one. -/
def updateOneBody (filter : Filter) (update : Update) (shouldUpsert : Bool) (returning : Returning)
    (s : engine.Tables tables) : Except WriteError (Option Record × engine.Tables tables) := do
  let changes ← (translateUpdate engine.isoformat tables update).mapError .raised
  match ← findFirstKey engine (now 0) filter s with
  | none =>
    if shouldUpsert then do
      let (key, s') ← insertUpsertedRecord engine newId (now 1) filter update s
      answerUpserted engine now returning key s'
    else return (none, s)
  | some key => do
    let before ← getRecord engine (now 1) key s
    let s' ← updateKey engine key changes s
    answerUpdated engine now returning key before s'

/-- The key of a record. -/
def keyOf (tables : SchemaTables) (record : Record) : PyValue :=
  record.get tables.schema.storage.key

/-- The filter of the keys of some records. -/
def keysFilter (tables : SchemaTables) (records : List Record) : Filter :=
  [.field tables.schema.storage.key
    (.dict [("$in", .sequence .list (records.map (keyOf tables)))])]

/-- Whether a record is among those read afterwards, as it was. -/
def isAsBefore (tables : SchemaTables) (after : List Record) (record : Record) : Bool :=
  match after.reverse.find? fun r => (keyOf tables r).equals (keyOf tables record) with
  | none => false
  | some r => PyValue.equalEntries r record

/-- Update the matched records, and count those that are not as they were. -/
def updateManyBody (filter : Filter) (update : Update) (s : engine.Tables tables) :
    Except WriteError (ℕ × engine.Tables tables) := do
  let changes ← (translateUpdate engine.isoformat tables update).mapError .raised
  let before ← findToWrite engine (now 0) filter none s
  let s' ← before.foldlM (fun s record => updateKey engine (keyOf tables record) changes s) s
  let after ← findToWrite engine (now 1) (keysFilter tables before) none s'
  return (before.countP fun record => !isAsBefore tables after record, s')

/-- Delete the first matched record. -/
def deleteOneBody (filter : Filter) (s : engine.Tables tables) :
    Except WriteError (Option Record × engine.Tables tables) := do
  match ← findToWrite engine (now 0) filter (some 1) s with
  | [] => return (none, s)
  | record :: _ =>
    let key := boundKey engine.database.dialect tables (keyOf tables record)
    let s' ← deleteRows s fun row => isChildOf (row tables.schema.storage.key) key
    return (some record, s')

/-- Run the body of a write in a transaction. -/
def inTransaction {α : Type} (translate : WriteError → CallError) (answer : α → Answer)
    (body : engine.Tables tables → Except WriteError (α × engine.Tables tables))
    (s : engine.Tables tables) : Outcome CallError (engine.Tables tables) Answer :=
  (transact (fun s => (body s).map fun r => (answer r.1, r.2)) s).mapError translate

/-- **Insert a record.** -/
def insert (record : Record) (s : engine.Tables tables) :
    Outcome CallError (engine.Tables tables) Answer :=
  inTransaction engine translateUniqueViolations (fun r => .record (some r))
    (insertBody engine newId record) s

/-- **Insert records.** -/
def insertMany (records : List Record) (s : engine.Tables tables) :
    Outcome CallError (engine.Tables tables) Answer :=
  inTransaction engine translateUniqueViolations .records (insertManyBody engine newId records) s

/-- **Update the first matched record**, or insert one if none matched and it should upsert. -/
def updateOne (filter : Filter) (update : Update) (shouldUpsert : Bool) (returning : Returning)
    (s : engine.Tables tables) : Outcome CallError (engine.Tables tables) Answer :=
  inTransaction engine translateUniqueViolations .record
    (updateOneBody engine now newId filter update shouldUpsert returning) s

/-- **Update every matched record.** -/
def updateMany (filter : Filter) (update : Update) (s : engine.Tables tables) :
    Outcome CallError (engine.Tables tables) Answer :=
  inTransaction engine translateUniqueViolations .count (updateManyBody engine now filter update) s

/-- **Delete the first matched record**; what the driver raises is not translated. -/
def deleteOne (filter : Filter) (s : engine.Tables tables) :
    Outcome CallError (engine.Tables tables) Answer :=
  inTransaction engine WriteError.toCall .record (deleteOneBody engine now filter) s

/-- The store's writes, at the instants and with the ids they come to. -/
def write (write : Write) (s : engine.Tables tables) :
    Outcome CallError (engine.Tables tables) Answer :=
  match write with
  | .insert record => insert engine newId record s
  | .insertMany records => insertMany engine newId records s
  | .updateOne filter update shouldUpsert returning =>
    updateOne engine now newId filter update shouldUpsert returning s
  | .updateMany filter update => updateMany engine now filter update s
  | .deleteOne filter => deleteOne engine now filter s

end

end SqlStore

end Mss
