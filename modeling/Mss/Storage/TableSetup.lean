import Mss.Lib.Postorder
import Mss.Storage.Schemas

/-!
# Setting up the tables of schemas that reference one another

A field of a schema may hold keys of another schema, or of its own, and its column is then a foreign
key. The schemas are ordered so that each comes after those it references, and the tables of each
are built with the tables of those built before it at hand.

* `SetupError`: what is raised on the way.
* `SchemaClass`: a schema with the schemas that its fields reference; **`checkStorageSpec`**.
* `Column`, `Index`, `Table`, `ListTable`, `SchemaTables`: the tables.
* `addUnique`, `addIndex`, `addExpiry`, `getListTable`, `addElementIndex`, **`getTablesOf`**: the
  tables of one schema.
* `orderByReferences`, **`getSchemaTables`**: the tables of all.
-/

namespace Mss.Setup

open Storage

/-- **The errors raised.** The last three are SQLAlchemy's. -/
inductive SetupError
  | storageSpec (message : String)
  | unknownField (message : String)
  | keyError (key : String)
  | valueError (message : String)
  | indexError
  | recursionError
  | tableDefined (name : String)
  | duplicateColumn (table : String)
  | noColumn (name : String)
  deriving DecidableEq, Repr

/-- Whether the error is the one that says what is wrong with a schema's storage. -/
def SetupError.isRefusal : SetupError → Bool
  | .storageSpec _ => true
  | _ => false

/-! ## Schemas that reference schemas -/

/-- **A schema**, whose fields in `storage.references` each hold keys of the schema `target` tells. -/
structure SchemaClass (σ : Type) where
  name : String
  fields : Fields
  allowsExtra : Bool := false
  storage : StorageSpec
  target : String → σ
  distinct : (fields.map Prod.fst).Nodup
  referencedOnce : storage.references.Nodup

variable {σ : Type} [DecidableEq σ] (classes : σ → SchemaClass σ)

namespace SchemaClass

variable (c : SchemaClass σ)

/-- The declaration of a field, or a `KeyError`. -/
def modelField (field : String) : Except SetupError FieldType :=
  match c.fields.lookup field with
  | some annotation => .ok annotation
  | none => .error (.keyError field)

/-- The schema that a field references, if it references one. -/
def referenced (field : String) : Option σ :=
  if field ∈ c.storage.references then some (c.target field) else none

/-- The field a dotted path names, or none for a path into a free-form mapping. -/
def resolveField (path : String) : Except SetupError (Option FieldType) :=
  let unknown := c.name ++ " has no field '" ++ path ++ "'"
  (resolveParts (.unknownField unknown) (.model c.allowsExtra c.fields) (pathParts path)).mapError
    fun _ => .unknownField unknown

end SchemaClass

/-- The name without the '-' before it. -/
def stripDashes (field : String) : String := String.ofList (field.toList.dropWhile (· = '-'))

/-- The fields that a schema's storage names. -/
def extractSpecFields (storage : StorageSpec) : List String :=
  storage.key :: (storage.unique ++ storage.indexes).flatten ++ storage.caseInsensitive ++
    storage.indexedLists ++ storage.references ++ storage.expires.toList

/-- **Check what a schema's storage says**: the fields it names are the schema's, the indexed lists
are lists, and the schemas referenced are among those given. -/
def checkStorageSpec (schemas : List σ) (s : σ) : Except SetupError Unit := do
  let c := classes s
  (extractSpecFields c.storage).forM fun field => do
    let _ ← c.resolveField (stripDashes field)
  c.storage.indexedLists.forM fun field => do
    let resolved ← c.resolveField field
    if !resolved.any FieldType.isListField then
      throw (.storageSpec (c.name ++ "." ++ field ++ " is not a list field"))
  c.storage.references.forM fun field =>
    if c.target field ∈ schemas then pure ()
    else throw (.storageSpec (c.name ++ "." ++ field ++ " references " ++
      (classes (c.target field)).name ++ ", which is not in this Database"))

/-! ## Tables -/

/-- What becomes of a row when the row it references is deleted. -/
inductive OnDelete
  | setNull
  | cascade
  deriving DecidableEq, Repr

/-- A column of a table that another references. -/
structure ForeignKey where
  table : String
  column : String
  onDelete : OnDelete
  deriving DecidableEq, Repr

/-- A column. -/
structure Column where
  name : String
  type : ColumnType
  foreignKey : Option ForeignKey := none
  isPrimaryKey : Bool := false
  isNullable : Bool := true
  isUnique : Bool := false
  deriving DecidableEq, Repr

/-- What an index is on. -/
inductive IndexExpression
  | column (name : String)
  | descending (name : String)
  | lower (name : String)
  deriving DecidableEq, Repr

/-- An index. -/
structure Index where
  name : String
  expressions : List IndexExpression
  isUnique : Bool := false
  deriving DecidableEq, Repr

/-- **A table**, with its unique constraints by name and its indexes. -/
structure Table where
  name : String
  columns : List Column
  uniques : List (String × List String) := []
  indexes : List Index := []
  deriving DecidableEq, Repr

namespace Table

/-- The names of the columns. -/
def names (t : Table) : List String := t.columns.map (·.name)

/-- The column of a name, or a `KeyError`. -/
def column (t : Table) (name : String) : Except SetupError Column :=
  match t.columns.find? (·.name = name) with
  | some column => .ok column
  | none => .error (.keyError name)

/-- The table with one more index. -/
def addIndex (t : Table) (index : Index) : Table := { t with indexes := t.indexes ++ [index] }

end Table

/-- **Define a table**, whose name is not taken and whose columns differ. -/
def defineTable (taken : List String) (name : String) (columns : List Column) :
    Except SetupError Table :=
  if name ∈ taken then .error (.tableDefined name)
  else if (columns.map (·.name)).Nodup then .ok { name, columns }
  else .error (.duplicateColumn name)

/-- The child table of a list field. -/
structure ListTable where
  table : Table
  parentColumn : String
  valueColumn : Option String
  elementModel : Option Fields

/-- **A schema's table**, and the child tables of its list fields. -/
structure SchemaTables (σ : Type) where
  schema : σ
  table : Table
  listTables : List (String × ListTable)
  jsonFields : List String
  nonNullFields : List String

/-! ## The tables of one schema -/

section Build

variable (built : List (SchemaTables σ)) (c : SchemaClass σ)

/-- The foreign key of a field, if the field references a schema: the schema has its tables by now,
or a `KeyError`. -/
def getForeignKey (field : String) (onDelete : OnDelete) : Except SetupError (Option ForeignKey) :=
  match c.referenced field with
  | none => .ok none
  | some referenced =>
    match built.find? (·.schema = referenced) with
    | none => .error (.keyError (classes referenced).name)
    | some target => (target.table.column (classes referenced).storage.key).map fun column =>
        some ⟨target.table.name, column.name, onDelete⟩

/-- The list fields kept in child tables. -/
def getChildFields : Except SetupError (List String) := do
  let annotations ← c.storage.references.mapM fun field =>
    (c.modelField field).map fun annotation => (field, annotation)
  return c.storage.indexedLists ++ (annotations.filter (·.2.isListField)).map Prod.fst

/-- The column that orders rows as they were inserted. -/
def rowIdColumn : Column where
  name := rowId
  type := .bigInteger
  isPrimaryKey := true
  isNullable := false

/-- The column of a field. -/
def getColumn (field : String × FieldType) : Except SetupError Column := do
  let foreignKey ← getForeignKey classes built c field.1 .setNull
  let isKey := field.1 = c.storage.key
  return { name := field.1, type := getColumnType field.2, foreignKey, isNullable := !isKey
           isUnique := isKey }

/-- The name of an index or a constraint on some fields of a table. -/
def indexName (mark table : String) (fields : List String) : String :=
  mark ++ "_" ++ table ++ "_" ++ String.intercalate "_" fields

/-- Let no two rows share some columns, which the table has. -/
def addUniqueConstraint (table : Table) (fields : List String) : Except SetupError Table :=
  match fields.find? (· ∉ table.names) with
  | some field => .error (.noColumn field)
  | none =>
    .ok { table with uniques := table.uniques ++ [(indexName "ux" table.name fields, fields)] }

/-- Let no two rows share a group of fields: without case, if it is one field so compared. -/
def addUnique (childFields : List String) (table : Table) (fields : List String) :
    Except SetupError Table :=
  if fields.any (· ∈ childFields) then
    .error (.storageSpec (c.name ++ ": a list field cannot be unique"))
  else if fields = [c.storage.key] then .ok table
  else match fields with
    | [field] =>
      if field ∈ c.storage.caseInsensitive then
        (table.column field).map fun column => table.addIndex
          { name := indexName "ux" table.name [field], expressions := [.lower column.name]
            isUnique := true }
      else addUniqueConstraint table [field]
    | fields => addUniqueConstraint table fields

/-- Whether a path has a dot. -/
def isDotted (field : String) : Bool := field.toList.contains '.'

/-- Index a group of fields, unless it is the key or has dotted ones. -/
def addIndex (table : Table) (fields : List String) : Except SetupError Table :=
  let names := fields.map stripDashes
  if names = [c.storage.key] ∨ names.any isDotted then .ok table
  else do
    let expressions ← fields.mapM fun field =>
      (table.column (stripDashes field)).map fun column =>
        if field.toList.head? = some '-' then .descending column.name else .column column.name
    return table.addIndex { name := indexName "ix" table.name names, expressions }

/-- Index the field after which a record expires, if there is one. -/
def addExpiry (table : Table) : Except SetupError Table :=
  match c.storage.expires with
  | none => .ok table
  | some field => (table.column field).map fun column =>
      table.addIndex { name := indexName "ix" table.name [field], expressions := [.column column.name] }

/-- The annotation of a list field's elements. -/
def elementOf (field : String) : Except SetupError FieldType := do
  match getElementField (← c.modelField field) with
  | some element => return element
  | none => throw (.valueError "too many values to unpack (expected 1)")

/-- The column of the record's key in a child table. -/
def parentColumnName : String :=
  if c.storage.key = "id" then getSingular c.storage.table ++ "_id" else c.storage.key

/-- The name of a list field's child table. -/
def childTableName (field : String) : String := getSingular c.storage.table ++ "_" ++ field

/-- The column of the record's key, which references it. -/
def parentColumnOf (table : Table) (key : Column) : Column where
  name := parentColumnName c
  type := key.type
  foreignKey := some ⟨table.name, key.name, .cascade⟩
  isPrimaryKey := true
  isNullable := false

/-- **The child table of a list field.** -/
def getListTable (table : Table) (taken : List String) (field : String) :
    Except SetupError ListTable := do
  let element ← elementOf c field
  match element.findNestedModel with
  | some (_, fields) =>
    let key ← table.column c.storage.key
    let child ← defineTable taken (childTableName c field)
      (parentColumnOf c table key ::
        { name := position, type := .bigInteger, isPrimaryKey := true, isNullable := false } ::
        fields.map fun f => { name := f.1, type := getColumnType f.2 })
    return { table := child, parentColumn := parentColumnName c, valueColumn := none
             elementModel := some fields }
  | none =>
    let valueColumn := getSingular field
    let foreignKey ← getForeignKey classes built c field .cascade
    let key ← table.column c.storage.key
    let child ← defineTable taken (childTableName c field)
      [parentColumnOf c table key,
        { name := valueColumn, type := getColumnType element, foreignKey, isPrimaryKey := true
          isNullable := false },
        { name := position, type := .bigInteger, isNullable := false }]
    return { table := child.addIndex { name := "ix_" ++ childTableName c field ++ "_" ++ valueColumn
                                       expressions := [.column valueColumn] }
             parentColumn := parentColumnName c, valueColumn := some valueColumn
             elementModel := none }

/-- The child tables of list fields, each defined after the ones before it. -/
def getListTables (table : Table) : List String → List String →
    Except SetupError (List (String × ListTable))
  | _, [] => .ok []
  | taken, field :: fields => do
    let listTable ← getListTable classes built c table taken field
    let listTables ← getListTables table (taken ++ [childTableName c field]) fields
    return (field, listTable) :: listTables

/-- The list that a dotted path starts with. -/
def listOfPath (field : String) : String :=
  String.ofList ((stripDashes field).toList.takeWhile (· ≠ '.'))

/-- What a dotted path names in the elements, or an `IndexError` for a path without a dot. -/
def elementPath (field : String) : Except SetupError String :=
  match (stripDashes field).toList.dropWhile (· ≠ '.') with
  | [] => .error .indexError
  | _ :: rest => .ok (String.ofList rest)

/-- The error for an index that is not on the elements of one list of models. -/
def notOneList (fields : List String) : SetupError :=
  .storageSpec ("('" ++ String.intercalate "', '" fields ++
    (if fields.length = 1 then "',)" else "')") ++ " are not all fields of one list of models")

/-- **Index fields of a list's model elements.** -/
def addElementIndex (listTables : List (String × ListTable)) (fields : List String) :
    Except SetupError (List (String × ListTable)) :=
  match (fields.map listOfPath).dedup with
  | [list] =>
    match listTables.lookup list with
    | none => .error (notOneList fields)
    | some listTable =>
      if listTable.elementModel.isNone then .error (notOneList fields)
      else do
        let names ← fields.mapM elementPath
        let columns ← names.mapM listTable.table.column
        let index : Index :=
          { name := indexName "ix" listTable.table.name names
            expressions := columns.map fun column => .column column.name }
        return listTables.map fun x =>
          if x.1 = list then (x.1, { x.2 with table := x.2.table.addIndex index }) else x
  | _ => .error (notOneList fields)

/-- **The tables of a schema**, and the names taken after them. -/
def getTablesOf (taken : List String) (s : σ) : Except SetupError (SchemaTables σ × List String) := do
  let c := classes s
  let childFields ← getChildFields c
  let kept := c.fields.filter fun field => field.1 ∉ childFields
  let columns ← kept.mapM (getColumn classes built c)
  let table ← defineTable taken c.storage.table (rowIdColumn :: columns)
  let table ← c.storage.unique.foldlM (addUnique c childFields) table
  let table ← c.storage.indexes.foldlM (addIndex c) table
  let table ← addExpiry c table
  let listTables ← getListTables classes built c table (taken ++ [c.storage.table]) childFields
  let listTables ← (c.storage.indexes.filter (·.any isDotted)).foldlM addElementIndex listTables
  return ({ schema := s, table, listTables
            jsonFields := (kept.filter fun field => getColumnType field.2 = .json).map Prod.fst
            nonNullFields := (c.fields.filter fun field => !field.2.isNoneAllowed).map Prod.fst },
    taken ++ c.storage.table :: childFields.map (childTableName c))

end Build

/-! ## The tables of all -/

/-- The schemas, of those given, that a schema references other than itself. -/
def otherReferences (schemas : List σ) (s : σ) : List σ :=
  ((classes s).storage.references.map (classes s).target).filter fun t => t ≠ s ∧ t ∈ schemas

/-- **Add a schema after those it references**, on a stack with room for so many calls. -/
def addAfterReferences (limit : ℕ) (schemas : List σ) (s : σ) (ordered : List σ) :
    Except SetupError (List σ) :=
  visit (otherReferences classes schemas) .recursionError limit s ordered

/-- **Order the schemas** so that each comes after those it references. -/
def orderByReferences (limit : ℕ) (schemas : List σ) : Except SetupError (List σ) :=
  schemas.foldlM (fun ordered s => addAfterReferences classes limit schemas s ordered) []

/-- Build the tables of one more schema. -/
def buildNext (acc : List (SchemaTables σ) × List String) (s : σ) :
    Except SetupError (List (SchemaTables σ) × List String) :=
  (getTablesOf classes acc.1 acc.2 s).map fun x => (acc.1 ++ [x.1], x.2)

/-- **The tables of each schema**, in the order in which they are built. -/
def getSchemaTables (limit : ℕ) (schemas : List σ) : Except SetupError (List (SchemaTables σ)) := do
  let ordered ← orderByReferences classes limit schemas
  return (← ordered.foldlM (buildNext classes) ([], [])).1

end Mss.Setup
