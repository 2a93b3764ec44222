import Mss.Storage.Writes

/-!
# Deletions of many records

A deletion of every matched record is one statement on the schema's table. The child rows of what it
deletes go with it, and the foreign keys of other schemas to it act: a column that held one of the keys
is set to NULL, and a child row that held one is deleted. SQL has no TTL index, so that the store
deletes what has expired itself, from the tables of every schema at every sweep.

* `StoredSchema`, `Store`: the tables of every schema.
* `SqlStore.deleteWhere`, `SqlStore.onDelete`, `SqlStore.deleteFrom`: a DELETE with a WHERE clause.
* **`SqlStore.deleteMany`**: the matched records, counted.
* **`SqlStore.deleteExpiredRecords`**: a sweep.
-/

namespace Mss

open Storage

/-! ## The schemas of a store -/

/-- **The tables of a schema in a store**, and the table to which each of its references is. -/
structure StoredSchema (database : SqlDatabase) where
  tables : SchemaTables
  target : String → Option String
  references : References
  stored : SqlTables database references tables

namespace StoredSchema

variable {database : SqlDatabase} (t : StoredSchema database)

/-- The name of the schema's table. -/
def table : String := t.tables.schema.storage.table

/-- The rows, as they are read. -/
abbrev read : StoredRows t.tables := t.stored.stored.toStoredRows

/-- Whether a field holds keys of the schema of a table. -/
def refersTo (table field : String) : Bool :=
  t.tables.schema.storage.references.contains field && t.target field == some table

/-- Whether a column does: it is of a field, which the row's number is not. -/
def isForeignKey (table column : String) : Bool :=
  column != rowId && (t.tables.columns.lookup column).isSome && t.refersTo table column

end StoredSchema

/-- **A store**: the tables of each of its schemas. -/
abbrev Store (database : SqlDatabase) : Type := List (StoredSchema database)

namespace SqlStore

section

variable {database : SqlDatabase}

/-- `DELETE`: the rows of a table that a WHERE clause is true of, and their child rows. -/
def deleteWhere {references : References} {tables : SchemaTables} (clause : Clause)
    (s : SqlTables database references tables) :
    Except WriteError (SqlTables database references tables) :=
  deleteRows s fun row => clause.eval database s.stored.toStoredRows row == .yes

/-- Whether a value is the key of a row that a deletion from a table deletes. -/
def isGone (table : String) (clause : Clause) (store : Store database) (value : Value Scalar) :
    Bool :=
  store.any fun t => t.table == table && t.stored.rows.any fun row =>
    clause.eval database t.read row == .yes &&
      isChildOf (row t.tables.schema.storage.key) value

/-- The rows that `ON DELETE` leaves of a schema's tables where rows of another table are deleted:
`SET NULL` in its columns, and `CASCADE` in the tables of its lists. -/
def rowsOnDelete (table : String) (gone : Value Scalar → Bool) (t : StoredSchema database) :
    RawTables where
  rows := t.stored.rows.map fun row column =>
    if t.isForeignKey table column && gone (row column) then .null else row column
  childRows field :=
    match t.tables.listTables.lookup field with
    | none => t.stored.childRows field
    | some listTable => (t.stored.childRows field).filter fun child =>
      !(t.refersTo table field && listTable.valueColumn.any fun column => gone (child column))

/-- **What a deletion from another table does** to the tables of a schema. A key is not NULL. -/
def onDelete (table : String) (gone : Value Scalar → Bool) (t : StoredSchema database) :
    Except WriteError (StoredSchema database) := do
  let references : References := fun field value =>
    t.references field value && !(field != rowId && t.refersTo table field && gone value)
  let stored ← execute (rowsOnDelete table gone t)
  return { t with references, stored }

/-- **`DELETE`** from a table of the store, the rows that a WHERE clause is true of. No schema refers
to itself: a schema's references are looked up among the tables built before its own. -/
def deleteFrom (table : String) (clause : Clause) (store : Store database) :
    Except WriteError (Store database) :=
  store.mapM fun t =>
    if t.table = table then do return { t with stored := ← deleteWhere clause t.stored }
    else onDelete table (isGone table clause store) t

/-- The clause of the rows that have expired at an instant. -/
def expiredClause (field : String) (now : ℤ) : Clause :=
  .compare .le ⟨field, false⟩ (.scalar (.datetime now (some 0)))

/-- Delete the expired records of a schema, if its records expire. -/
def deleteExpiredOf (now : ℤ) (store : Store database) (t : StoredSchema database) :
    Except WriteError (Store database) :=
  match t.tables.schema.storage.expires with
  | none => .ok store
  | some field =>
    if (t.tables.columns.lookup field).isNone then .error (.raised (.keyError field))
    else deleteFrom t.table (expiredClause field now) store

/-- **Delete the expired records**, of one schema after another. -/
def deleteExpiredRecords (store : Store database) (now : ℤ) : Except WriteError (Store database) :=
  store.foldlM (deleteExpiredOf now) store

/-- Sweep at some instants, one after another. -/
def sweepAt (instants : List ℤ) (store : Store database) : Except WriteError (Store database) :=
  instants.foldlM deleteExpiredRecords store

end

section

variable (engine : SqlEngine) (now : ℕ → ℤ)

/-- Delete the matched records of a schema, and count them. -/
def deleteManyBody (t : StoredSchema engine.database) (filter : Filter)
    (store : Store engine.database) : Except WriteError (ℕ × Store engine.database) := do
  let clause ← (translateFilter engine.lower t.tables (now 0) filter).mapError .raised
  let store' ← deleteFrom t.table clause store
  return ((matchedRows engine.database t.read clause).length, store')

/-- **Delete every matched record** of a schema; what the driver raises is not translated. -/
def deleteMany (t : StoredSchema engine.database) (filter : Filter)
    (store : Store engine.database) : Outcome WriteError (Store engine.database) ℕ :=
  transact (deleteManyBody engine now t filter) store

end

end SqlStore

end Mss
