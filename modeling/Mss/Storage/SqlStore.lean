import Mss.Storage.Updates

/-!
# The tables of a schema, and the statements that write them

A database takes a statement if the tables it leads to meet their constraints, and raises otherwise.
The writes of the store are sequences of statements, each sequence in a transaction: if one of them
raises, the tables are as they were before the first.

* **`SqlTables`**: the rows of a schema's tables, which meet the constraints; `execute`: a statement.
* `SqlStore.writeChanges`: the changes of an update on one record.
* `SqlStore.insertRecord`: a record's row, and the rows of its lists; `deleteRows`: a deletion.
-/

namespace Mss

open Storage

/-! ## Constraints -/

/-- The rows of a schema's table and of its child tables. -/
structure RawTables where
  rows : List Row
  childRows : String → List Row

/-- The columns of a child table's primary key: the record's key, with the element, or with the
place of a model's. -/
def ListTable.primaryKey (listTable : ListTable) : List String :=
  [listTable.parentColumn, listTable.valueColumn.getD position]

/-- The columns that no two rows share together: the key, then each unique group. A single field
compared without case is unique in lower case. -/
def uniqueColumns (storage : StorageSpec) : List (List Column) :=
  [⟨storage.key, false⟩] :: (storage.unique.filter (· != [storage.key])).map fun group =>
    match group with
    | [field] => [⟨field, storage.caseInsensitive.contains field⟩]
    | fields => fields.map fun field => ⟨field, false⟩

/-- Whether two rows hold the same values in the columns, none of them NULL. -/
def clashes (database : SqlDatabase) (columns : List Column) (a b : Row) : Bool :=
  columns.all fun column => isChildOf (database.read column a) (database.read column b)

/-- A column of integers holds 64 bits. -/
def inRange : Value Scalar → Bool
  | .scalar (.int i) => -2 ^ 63 ≤ i && i < 2 ^ 63
  | _ => true

/-- A place in a list has 32 bits, which SQLite does not mind. -/
def placeInRange (dialect : SqlDialect) (row : Row) : Bool :=
  dialect == .sqlite || positionOf row < 2 ^ 31

/-- Which keys of other schemas are stored: of a field that references them, and a value. -/
abbrev References := String → Value Scalar → Bool

/-- Whether a reference is null, or to a stored record. -/
def isReference (references : References) (field : String) (value : Value Scalar) : Bool :=
  isNullValue value || references field value

namespace RawTables

section

variable (database : SqlDatabase) (references : References) (tables : SchemaTables)
  (raw : RawTables)

/-- Every column holds values of its type. -/
def Typed : Prop :=
  (∀ row ∈ raw.rows, ∀ column ∈ tables.columns,
    Fits column.2 (row column.1) ∧ inRange (row column.1) = true) ∧
  ∀ list ∈ tables.listTables, ∀ row ∈ raw.childRows list.1,
    placeInRange database.dialect row = true ∧ ∀ column ∈ list.2.columns,
      Fits column.2 (row column.1) ∧ inRange (row column.1) = true

/-- No key is NULL. -/
def NotNull : Prop :=
  (∀ row ∈ raw.rows, isNullValue (row tables.schema.storage.key) = false) ∧
  ∀ list ∈ tables.listTables, ∀ row ∈ raw.childRows list.1, ∀ column ∈ list.2.primaryKey,
    isNullValue (row column) = false

/-- No two rows have one id, or share a unique group or a primary key. -/
def Unique : Prop :=
  raw.rows.Pairwise (fun a b => rowIdOf a < rowIdOf b) ∧
  (∀ columns ∈ uniqueColumns tables.schema.storage,
    raw.rows.Pairwise fun a b => clashes database columns a b = false) ∧
  ∀ list ∈ tables.listTables, (raw.childRows list.1).Pairwise fun a b =>
    (list.2.primaryKey.all fun column => isChildOf (a column) (b column)) = false

/-- Every child row is of a stored record, and every reference is to one. -/
def ForeignKeys : Prop :=
  (∀ list ∈ tables.listTables, ∀ child ∈ raw.childRows list.1, ∃ row ∈ raw.rows,
    isChildOf (row tables.schema.storage.key) (child list.2.parentColumn) = true) ∧
  (∀ field ∈ tables.schema.storage.references, (tables.columns.lookup field).isSome = true →
    ∀ row ∈ raw.rows, isReference references field (row field) = true) ∧
  ∀ list ∈ tables.listTables, list.1 ∈ tables.schema.storage.references →
    ∀ child ∈ raw.childRows list.1, ∀ column ∈ list.2.valueColumn,
      isReference references list.1 (child column) = true

instance : Decidable (raw.Typed database tables) := by unfold Typed; infer_instance
instance : Decidable (raw.NotNull tables) := by unfold NotNull; infer_instance
instance : Decidable (raw.Unique database tables) := by unfold Unique; infer_instance
instance : Decidable (raw.ForeignKeys references tables) := by unfold ForeignKeys; infer_instance

end

end RawTables

/-- **The tables of a schema**, whose rows meet the constraints. -/
structure SqlTables (database : SqlDatabase) (references : References) (tables : SchemaTables)
    extends RawTables where
  typed : toRawTables.Typed database tables
  notNull : toRawTables.NotNull tables
  unique : toRawTables.Unique database tables
  foreignKeys : toRawTables.ForeignKeys references tables

/-- The constraint that a statement violates. -/
inductive Violation
  | notNull
  | unique
  | foreignKey
  deriving DecidableEq, Repr

/-- What a write raises: what a find does, an `IntegrityError`, a value that a column does not take,
or an `IndexError`. -/
inductive WriteError
  | find (error : FindError)
  | integrity (violation : Violation)
  | data
  | index
  deriving DecidableEq, Repr

section

variable {database : SqlDatabase} {references : References} {tables : SchemaTables}

/-- **Execute a statement** that leads to these rows. -/
def execute (raw : RawTables) : Except WriteError (SqlTables database references tables) :=
  if typed : raw.Typed database tables then
    if notNull : raw.NotNull tables then
      if unique : raw.Unique database tables then
        if foreignKeys : raw.ForeignKeys references tables then
          .ok { raw with typed, notNull, unique, foreignKeys }
        else .error (.integrity .foreignKey)
      else .error (.integrity .unique)
    else .error (.integrity .notNull)
  else .error .data

/-- The stored rows, as they are read. -/
def SqlTables.stored (s : SqlTables database references tables) : NumberedRows tables where
  rows := s.rows
  childRows := s.childRows
  typed row hrow column hcolumn := (s.typed.1 row hrow column hcolumn).1
  childTyped list hlist row hrow column hcolumn := ((s.typed.2 list hlist row hrow).2 column hcolumn).1
  childKey list hlist row hrow column hcolumn hnull := by
    have hmem : column ∈ list.2.primaryKey := by
      simp [ListTable.primaryKey, Option.mem_def.mp hcolumn]
    have := s.notNull.2 list hlist row hrow column hmem
    rw [hnull] at this
    cases this
  numbered := s.unique.1

end

/-! ## Values -/

/-- A scalar in a column of a type: an integer among floats is one. -/
def Scalar.asType (type : ColumnType) (a : Scalar) : Scalar :=
  match type, a with
  | .float, int i => float i
  | _, a => a

/-- The scalar a column of a type gets. -/
def SqlDialect.bindAs (dialect : SqlDialect) (type : ColumnType) (s : PyScalar) : Scalar :=
  (dialect.bind s).asType type

/-- The value a column of a type gets. -/
def SqlDialect.store (dialect : SqlDialect) (type : ColumnType) : PyValue → Value Scalar
  | .none => .null
  | .scalar s => .scalar (dialect.bindAs type s)
  | v => v.toValue

/-- A sum of two numbers; a sum with a float is a float. -/
def addNumbers : Scalar → Scalar → Value Scalar
  | .int i, .int j => .scalar (.int (i + j))
  | .int i, .float q => .scalar (.float (i + q))
  | .float q, .int i => .scalar (.float (q + i))
  | .float q, .float r => .scalar (.float (q + r))
  | _, _ => .list []

/-- What a column holds, increased by a number; NULL counts as 0. -/
def increase (dialect : SqlDialect) (type : ColumnType) (held : Value Scalar) (by_ : PyValue) :
    Value Scalar :=
  match held, by_ with
  | .null, .scalar s => addNumbers (dialect.bindAs type (.int 0)) (dialect.bindAs type s)
  | .scalar a, .scalar s => addNumbers a (dialect.bindAs type s)
  | _, _ => .list []

/-- The value of a column after its change. -/
def changedValue (dialect : SqlDialect) (type : ColumnType) (held : Value Scalar) :
    ColumnChange → Value Scalar
  | .value v => dialect.store type v
  | .json v => v
  | .increment by_ => increase dialect type held by_

/-- A row after its changes, each computed from the row before. -/
def changedRow (dialect : SqlDialect) (columns : Columns) (changes : List (String × ColumnChange))
    (row : Row) : Row := fun column =>
  match changes.lookup column with
  | none => row column
  | some change => changedValue dialect ((columns.lookup column).getD .json) (row column) change

/-! ## Child rows -/

section

variable (dialect : SqlDialect) (isoformat : ℤ → Option ℤ → String)

/-- A row of the columns' values. -/
def rowOf (values : List (String × Value Scalar)) : Row := fun column => Value.get column values

/-- The type of a child table's column. -/
def ListTable.typeOf (listTable : ListTable) (column : String) : ColumnType :=
  (listTable.columns.lookup column).getD .json

/-- The row of a scalar element at a place. -/
def elementRow (listTable : ListTable) (key : Value Scalar) (element : PyValue) (place : ℤ) : Row :=
  let column := listTable.valueColumn.getD ""
  rowOf [(listTable.parentColumn, key),
    (column, dialect.store (listTable.typeOf column) element), (position, .scalar (.int place))]

/-- The value of a field of a model element. -/
def elementValue (type : ColumnType) (value : PyValue) : Value Scalar :=
  if type = .json then toJsonable isoformat value
  else dialect.store type (convertToColumnValue value)

/-- The row of a model element at a place. -/
def modelRow (listTable : ListTable) (fields : Fields) (key : Value Scalar)
    (entries : List (String × PyValue)) (place : ℤ) : Row :=
  rowOf ((listTable.parentColumn, key) :: (position, .scalar (.int place)) ::
    fields.map fun field =>
      (field.1, elementValue dialect isoformat (listTable.typeOf field.1)
        ((entries.lookup field.1).getD .none)))

/-- **The child rows of a record's list**, in their order. -/
def getChildRows (listTable : ListTable) (key : Value Scalar) (elements : List PyValue) :
    Except PyError (List Row) :=
  match listTable.elementModel with
  | none =>
    .ok (elements.zipIdx.map fun element => elementRow dialect listTable key element.1 element.2)
  | some fields =>
    elements.zipIdx.mapM fun element =>
      match element.1 with
      | .dict entries =>
        .ok (modelRow dialect isoformat listTable fields key entries element.2)
      | _ => .error .attributeError

end

/-- The place after every one of some child rows. -/
def nextPlace (children : List Row) : ℤ :=
  ((children.map positionOf).max?.map (· + 1)).getD 0

/-! ## Writing a record -/

/-- **A record**: the fields of a validated one, as they are dumped. -/
abbrev Record := List (String × PyValue)

/-- The value of a record's field. -/
def Record.get (record : Record) (field : String) : PyValue := (record.lookup field).getD .none

/-- The key of a record, as the column gets it. -/
def boundKey (dialect : SqlDialect) (tables : SchemaTables) (key : PyValue) : Value Scalar :=
  dialect.store ((tables.columns.lookup tables.schema.storage.key).getD .json) key

/-- The error of a translation. -/
def WriteError.raised (error : PyError) : WriteError := .find (.raised error)

namespace SqlStore

section

variable {database : SqlDatabase} {references : References} {tables : SchemaTables}
  (isoformat : ℤ → Option ℤ → String) (s : SqlTables database references tables)

/-- Put other child rows in a list's table. -/
def withChildRows (field : String) (children : List Row) : RawTables :=
  { s.toRawTables with childRows := Function.update s.childRows field children }

/-- The child rows of a record's list. -/
def childrenOf (field : String) (listTable : ListTable) (key : Value Scalar) : List Row :=
  (s.childRows field).filter fun child => isChildOf key (child listTable.parentColumn)

/-- `DELETE`: the child rows of a record, those of which a test holds. -/
def deleteChildren (field : String) (listTable : ListTable) (key : Value Scalar)
    (test : Row → Bool) : Except WriteError (SqlTables database references tables) :=
  execute (withChildRows s field ((s.childRows field).filter fun child =>
    !(isChildOf key (child listTable.parentColumn) && test child)))

/-- `INSERT`: child rows after those there are. -/
def insertChildren (field : String) (children : List Row) :
    Except WriteError (SqlTables database references tables) :=
  execute (withChildRows s field (s.childRows field ++ children))

/-- `UPDATE`: the columns of the record of a key. -/
def updateRow (key : Value Scalar) (values : List (String × ColumnChange)) :
    Except WriteError (SqlTables database references tables) :=
  execute { s.toRawTables with
    rows := s.rows.map fun row =>
      if isChildOf (row tables.schema.storage.key) key then
        changedRow database.dialect tables.columns values row
      else row }

/-- The table of a list field. -/
def listTableOf (tables : SchemaTables) (field : String) : Except WriteError ListTable :=
  match tables.listTables.lookup field with
  | some listTable => .ok listTable
  | none => .error (.raised (.keyError field))

/-- Replace a list: its rows are deleted, then those of the elements are inserted. -/
def replaceList (key : Value Scalar) (s : SqlTables database references tables)
    (replacement : String × List PyValue) :
    Except WriteError (SqlTables database references tables) := do
  let listTable ← listTableOf tables replacement.1
  let s ← deleteChildren s replacement.1 listTable key fun _ => true
  if replacement.2.isEmpty then return s
  else
    let children ← (getChildRows database.dialect isoformat listTable key replacement.2).mapError
      .raised
    insertChildren s replacement.1 children

/-- An `IntegrityError` inside a savepoint is passed over: nothing was written. -/
def passOver (s : SqlTables database references tables) :
    Except WriteError (SqlTables database references tables) →
      Except WriteError (SqlTables database references tables)
  | .error (.integrity _) => .ok s
  | result => result

/-- Add an element, after those there are; a conflict is taken to mean that it is there already. -/
def addElement (key : Value Scalar) (s : SqlTables database references tables)
    (addition : String × PyValue) : Except WriteError (SqlTables database references tables) := do
  let listTable ← listTableOf tables addition.1
  let place := nextPlace (childrenOf s addition.1 listTable key)
  passOver s (insertChildren s addition.1
    [elementRow database.dialect listTable key addition.2 place])

/-- Remove the elements equal to a value; nothing is equal to NULL. -/
def removeElement (key : Value Scalar) (s : SqlTables database references tables)
    (removal : String × PyValue) : Except WriteError (SqlTables database references tables) := do
  let listTable ← listTableOf tables removal.1
  let column := listTable.valueColumn.getD ""
  deleteChildren s removal.1 listTable key fun child =>
    isChildOf (child column) (database.dialect.store (listTable.typeOf column) removal.2)

/-- Whether the changes give a record another key. -/
def changesKey (key : PyValue) : Option ColumnChange → Bool
  | none => false
  | some (.value v) => !v.equals key
  | some _ => true

/-- Write the columns of a record, where any change. -/
def writeValues (key : Value Scalar) (values : List (String × ColumnChange))
    (s : SqlTables database references tables) :
    Except WriteError (SqlTables database references tables) :=
  if values.isEmpty then .ok s else updateRow s key values

/-- Write the lists of a record: those replaced, then the elements added, then those removed. -/
def writeLists (key : Value Scalar) (changes : Changes)
    (s : SqlTables database references tables) :
    Except WriteError (SqlTables database references tables) := do
  let s ← changes.listReplacements.foldlM (replaceList isoformat key) s
  let s ← changes.listAdditions.foldlM (addElement key) s
  changes.listRemovals.foldlM (removeElement key) s

/-- **Write the changes** to the record of the key and to its child rows. -/
def writeChanges (key : PyValue) (changes : Changes) :
    Except WriteError (SqlTables database references tables) :=
  let keyName := tables.schema.storage.key
  let bound := boundKey database.dialect tables key
  if changesKey key (changes.values.lookup keyName) then
    .error (.raised (.queryError
      ("an update cannot change " ++ tables.schema.name ++ "." ++ keyName)))
  else do
    let s ← writeValues bound (changes.values.filter fun change => change.1 != keyName) s
    writeLists isoformat bound changes s

/-- The id of the next row. -/
def nextRowId (rows : List Row) : ℤ := ((rows.map rowIdOf).max?.map (· + 1)).getD 1

/-- The record, with a new id where its schema has ids and it has none. -/
def withId (schema : Schema) (newId : String) (record : Record) : Record :=
  if (record.get "id").isNone ∧ (schema.declared "id").any FieldType.isIdField then
    assign "id" (.scalar (.str newId)) record
  else record

/-- What a column of a record's row gets. -/
def columnValue (dialect : SqlDialect) (tables : SchemaTables) (record : Record)
    (column : String × ColumnType) : Value Scalar :=
  if tables.jsonFields.contains column.1 then toJsonable isoformat (record.get column.1)
  else dialect.store column.2 (convertToColumnValue (record.get column.1))

/-- The row of a record. -/
def recordRow (dialect : SqlDialect) (tables : SchemaTables) (record : Record) (number : ℤ) : Row :=
  rowOf ((rowId, .scalar (.int number)) ::
    (tables.columns.filter fun column => column.1 != rowId).map fun column =>
      (column.1, columnValue isoformat dialect tables record column))

/-- `INSERT`: a row after those there are. -/
def insertRow (row : Row) : Except WriteError (SqlTables database references tables) :=
  execute { s.toRawTables with rows := s.rows ++ [row] }

/-- The elements of a record's list, which may be None. -/
def itemsOf (value : PyValue) : Except PyError (List PyValue) :=
  if value.isNone then .ok [] else iterate value

/-- Insert the elements of a list of a new record. -/
def insertList (record : Record) (s : SqlTables database references tables)
    (list : String × ListTable) : Except WriteError (SqlTables database references tables) := do
  let key := boundKey database.dialect tables (record.get tables.schema.storage.key)
  let elements ← (itemsOf (record.get list.1)).mapError .raised
  if elements.isEmpty then return s
  else
    let children ← (getChildRows database.dialect isoformat list.2 key
      (elements.map convertToColumnValue)).mapError .raised
    insertChildren s list.1 children

/-- **Insert a record**: its row, then the child rows of its lists. -/
def insertRecord (newId : String) (record : Record) :
    Except WriteError (SqlTables database references tables) := do
  let values := withId tables.schema newId record
  let s ← insertRow s
    (recordRow isoformat database.dialect tables values (nextRowId s.rows))
  tables.listTables.foldlM (insertList isoformat values) s

/-- `DELETE`: the rows of which a test holds, and with them their child rows. -/
def deleteRows (test : Row → Bool) : Except WriteError (SqlTables database references tables) :=
  let rows := s.rows.filter fun row => !test row
  execute {
    rows
    childRows := fun field =>
      match tables.listTables.lookup field with
      | none => s.childRows field
      | some listTable => (s.childRows field).filter fun child =>
        rows.any fun row =>
          isChildOf (row tables.schema.storage.key) (child listTable.parentColumn) }

/-- The tables of no records. -/
def empty : SqlTables database references tables where
  rows := []
  childRows := fun _ => []
  typed := by simp [RawTables.Typed]
  notNull := by simp [RawTables.NotNull]
  unique := by simp [RawTables.Unique]
  foreignKeys := by simp [RawTables.ForeignKeys]

/-- **Update the record of a key**: the update is translated, and its changes are written. -/
def update (key : PyValue) (s : SqlTables database references tables) (update : Update) :
    Except WriteError (SqlTables database references tables) := do
  let changes ← (translateUpdate isoformat tables update).mapError .raised
  writeChanges isoformat s key changes

end

end SqlStore

end Mss
