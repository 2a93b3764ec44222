import Mss.Storage.MongoFilters

/-!
# Reading records

Next to finding, a store gets the record of a key, counts what a filter matches, and gives the
different values that a field holds there.

* **`Reads`**: what a database reads for a schema.
* `SqlStore.reads`: in SQL, each a statement on the schema's tables.
* `MongoStore.reads`: in MongoDB, each a command of the server.
-/

namespace Mss

open Storage

/-- **What a database reads** for a schema. -/
structure Reads (R : Type) where
  get : PyValue → Except FindError (Option R)
  find : Filter → List String → ℕ → Option ℕ → Except FindError (List R)
  count : Filter → Except FindError ℕ
  findDistinct : String → Filter → Except FindError (List (Value Scalar))

/-- Check the filter of a read against the schema. -/
def checkRead (schema : Schema) (filter : Filter) : Except FindError Unit :=
  (checkFilter schema filter).mapError .refused

/-- The reads through the database: filters, sorts and fields are checked against the schema, and
the store is asked. -/
def Database.reads {R : Type} (schema : Schema) (store : Reads R) : Reads R where
  get := store.get
  find filter sort skip limit := Database.find schema store.find (some filter) sort skip limit
  count filter := do
    checkRead schema filter
    store.count filter
  findDistinct field filter := do
    checkRead schema filter
    let _ ← (resolveField schema field).mapError FindError.refused
    store.findDistinct field filter

section

variable {R : Type}

namespace SqlStore

variable (lower : String → String) (database : SqlDatabase) {text : TextOrder}
  {tables : SchemaTables} (validate : Value Scalar → Except ValidationError R)
  (plan : SqlPlan text) (stored : StoredRows tables) (now : ℤ)

/-- **The unexpired record of a key.** -/
def get (key : PyValue) : Except FindError (Option R) := do
  let records ← findRecords lower database validate plan stored now
    (filterOfKey tables.schema key) [] 0 (some 1) true
  return records.head?

/-- The number of unexpired records that match the filter. -/
def count (filter : Filter) : Except FindError ℕ := do
  let clause ← (translateFilter lower tables now filter).mapError .raised
  return (matchedRows database stored clause).length

/-- The child rows of some records' list. -/
def childrenOfRows (stored : StoredRows tables) (field : String) (listTable : ListTable)
    (rows : List Row) : List Row :=
  (stored.childRows field).filter fun child =>
    rows.any fun row => isChildOf (row tables.schema.storage.key) (child listTable.parentColumn)

/-- **The different values that a field holds** in the matched records. -/
def findDistinct (field : String) (filter : Filter) : Except FindError (List (Value Scalar)) := do
  let clause ← (translateFilter lower tables now filter).mapError .raised
  let rows := matchedRows database stored clause
  match tables.listTables.lookup field with
  | some listTable =>
    if listTable.elementModel.isSome then
      throw (.raised (.queryError
        ("'" ++ field ++ "' is a list of models, which has no distinct values")))
    else
      return ((childrenOfRows stored field listTable rows).map fun child =>
        child (listTable.valueColumn.getD "")).dedup
  | none =>
    if (tables.columns.lookup field).isNone then throw (.raised (.keyError field))
    else return (rows.map fun row => row field).dedup

/-- The reads of the store, at an instant. -/
def reads : Reads R where
  get := get lower database validate plan stored now
  find filter sort skip limit := find lower database validate plan stored now filter sort skip limit
  count := count lower database stored now
  findDistinct := findDistinct lower database stored now

end SqlStore

namespace MongoStore

open Mongo

/-- How the server tells apart the values of a field of some documents. -/
abbrev MongoDistinct := Option Collation → String → List Document → List Bson

variable (validate : Value Scalar → Except ValidationError R) {server : MongoServer}
  (plan : MongoPlan server) (distinct : MongoDistinct) (schema : Schema)
  (documents : List Document) (now : ℤ)

/-- **The unexpired record of a key.** -/
def get (key : PyValue) : Except FindError (Option R) := do
  let query ← translateUnexpiredFilter schema now (filterOfKey schema key)
  match documents.find? (server.isMatch none query) with
  | none => return none
  | some document => readStored schema (convertToRecord validate schema) document

/-- The documents that an unexpired record of a filter has. -/
def matchedDocuments (server : MongoServer) (schema : Schema) (documents : List Document) (now : ℤ)
    (filter : Filter) : Except FindError (List Document) := do
  let query ← translateUnexpiredFilter schema now filter
  return documents.filter (server.isMatch (getQueryCollation schema filter) query)

/-- The number of unexpired records that match the filter. -/
def count (server : MongoServer) (filter : Filter) : Except FindError ℕ := do
  return (← matchedDocuments server schema documents now filter).length

/-- **The different values that a field holds** in the matched records. -/
def findDistinct (server : MongoServer) (field : String) (filter : Filter) :
    Except FindError (List (Value Scalar)) := do
  let matched ← matchedDocuments server schema documents now filter
  return (distinct (getQueryCollation schema filter) (getDocumentField field) matched).map
    convertFromBson

/-- The reads of the store, at an instant. -/
def reads : Reads R where
  get := @get R validate server schema documents now
  find := find validate plan schema documents now
  count := count schema documents now server
  findDistinct := findDistinct distinct schema documents now server

end MongoStore

end

end Mss
