import Mss.Lib.Documents

/-!
# Schemas and their SQL tables

A schema names fields, each with the type it is annotated with, and says how its records are stored.
From that the SQL tables are derived: a column per scalar field, a JSON column per nested one, and a
child table for each list whose elements are queried one at a time.

* `FieldType`, and what is read off one: `findNestedModel`, `isListField`, `isIdField`,
  `unwrapOptional`, `getColumnType`.
* `Schema`, `StorageSpec`, and `resolveField`, which follows a dotted path.
* **`getTablesOf`**: the tables of a schema.
-/

namespace Mss

open Storage

/-! ## Annotations -/

/-- The scalar types a field may be annotated with. -/
inductive ScalarType
  | bool
  | int
  | float
  | str
  | datetime
  | id
  | uuid
  | path
  | literal
  | intEnum
  | strEnum
  deriving DecidableEq, Repr

/-- What a generic type is an instance of; an `Optional` is a union with `None`. -/
inductive Origin
  | list
  | tuple
  | set
  | dict
  | union
  | other
  deriving DecidableEq, Repr

/-- **The annotation of a field.** `plain` is a class the storage layer has no column for. -/
inductive FieldType where
  | scalar (type : ScalarType)
  | any
  | noneType
  | plain
  | model (allowsExtra : Bool) (fields : List (String × FieldType))
  | generic (origin : Origin) (args : List FieldType)

/-- The fields of a model. -/
abbrev Fields := List (String × FieldType)

namespace FieldType

/-- The arguments of a generic type. -/
def args : FieldType → List FieldType
  | generic _ args => args
  | _ => []

mutual

/-- The model the annotation holds, alone or inside. -/
def findNestedModel : FieldType → Option (Bool × Fields)
  | model allowsExtra fields => some (allowsExtra, fields)
  | generic _ args => findNestedModelIn args
  | _ => none

/-- The first model one of the annotations holds. -/
def findNestedModelIn : List FieldType → Option (Bool × Fields)
  | [] => none
  | a :: as => (findNestedModel a).or (findNestedModelIn as)

end

/-- Whether it is a list, a tuple or a set of something. -/
def isSequence : FieldType → Bool
  | generic .list _ | generic .tuple _ | generic .set _ => true
  | _ => false

/-- Whether the field holds a list, possibly Optional. -/
def isListField (a : FieldType) : Bool := (a :: a.args).any isSequence

mutual

/-- Whether the field holds an Id, alone or inside. -/
def isIdField : FieldType → Bool
  | scalar type => type == .id
  | generic _ args => isIdFieldIn args
  | _ => false

/-- Whether one of the annotations holds an Id. -/
def isIdFieldIn : List FieldType → Bool
  | [] => false
  | a :: as => isIdField a || isIdFieldIn as

end

/-- Whether any path leads into the field. -/
def isOpenMapping : FieldType → Bool
  | any | generic .dict _ => true
  | _ => false

mutual

/-- The type an annotation names, through Optional. -/
def unwrapOptional : FieldType → FieldType
  | generic .union args =>
    match unwrapOthers args with
    | [a] => a
    | _ => generic .union args
  | a => a

/-- The types the annotations other than `None` name. -/
def unwrapOthers : List FieldType → List FieldType
  | [] => []
  | noneType :: as => unwrapOthers as
  | a :: as => unwrapOptional a :: unwrapOthers as

end

/-- Whether it is the type of `None`. -/
def isNoneType : FieldType → Bool
  | noneType => true
  | _ => false

/-- Whether the field may hold `None`. -/
def isNoneAllowed : FieldType → Bool
  | any | noneType => true
  | generic .union args => args.any isNoneType
  | _ => false

end FieldType

/-! ## Columns -/

/-- The SQL type of a column. -/
inductive ColumnType
  | boolean
  | bigInteger
  | float
  | string
  | dateTime
  | json
  deriving DecidableEq, Repr

/-- The column of a scalar. -/
def ScalarType.column : ScalarType → ColumnType
  | bool => .boolean
  | int | intEnum => .bigInteger
  | float => .float
  | datetime => .dateTime
  | str | id | uuid | path | literal | strEnum => .string

/-- The column of a type: a scalar's own, or JSON for anything nested. -/
def FieldType.column : FieldType → ColumnType
  | scalar type => type.column
  | _ => .json

/-- **The SQL type of a field.** -/
def getColumnType (a : FieldType) : ColumnType :=
  if a.isIdField && !a.isListField then .string else a.unwrapOptional.column

/-- The field of a list field's elements; a list of two types has none. -/
def getElementField (a : FieldType) : Option FieldType :=
  match a.unwrapOptional.args with
  | [] => some .any
  | [element] => some element
  | _ => none

/-! ## Schemas -/

/-- How a schema is stored: its table, the field it is fetched by, the groups of fields that no two
records share, the fields compared without case, the field after which a record expires, the fields
that hold keys of other schemas, the other lists whose elements are queried, whether reads leave out
stored records that fail validation, and the groups of fields that queries filter or sort on. -/
structure StorageSpec where
  table : String
  key : String
  unique : List (List String) := []
  caseInsensitive : List String := []
  expires : Option String := none
  references : List String := []
  indexedLists : List String := []
  shouldSkipInvalid : Bool := false
  indexes : List (List String) := []
  deriving DecidableEq, Repr

/-- **A schema.** Its fields are attributes of a class, so no name has a dot, and a record expires
after a datetime. -/
structure Schema where
  name : String
  fields : Fields
  allowsExtra : Bool
  storage : StorageSpec
  undotted : ∀ field ∈ fields, '.' ∉ field.1.toList
  expiresAt : ∀ field ∈ storage.expires, (fields.lookup field).map getColumnType = some .dateTime

/-- The annotation of the schema itself. -/
def Schema.annotation (schema : Schema) : FieldType := .model schema.allowsExtra schema.fields

/-- The errors of the storage layer that a filter meets. -/
inductive StorageError
  | query (message : String)
  | unknownField (message : String)
  deriving DecidableEq, Repr

/-- The parts of a dotted path. -/
def pathParts (path : String) : List String := (path.toList.splitOn '.').map String.ofList

/-- Follow the parts of a path from an annotation. -/
def resolveParts (unknown : StorageError) : FieldType → List String →
    Except StorageError (Option FieldType)
  | _, [] => .ok none
  | annotation, part :: parts =>
    match annotation.findNestedModel with
    | none => if annotation.isOpenMapping then .ok none else .error unknown
    | some (allowsExtra, fields) =>
      match fields.lookup part with
      | none => if allowsExtra then .ok none else .error unknown
      | some field => if parts = [] then .ok (some field) else resolveParts unknown field parts

/-- **The field a dotted path names**, or none for a path into a free-form mapping. -/
def resolveField (schema : Schema) (path : String) : Except StorageError (Option FieldType) :=
  resolveParts (.unknownField (schema.name ++ " has no field '" ++ path ++ "'")) schema.annotation
    (pathParts path)

/-- Whether the field holds a list of models. -/
def isModelList : Option FieldType → Bool
  | none => false
  | some a => a.isListField && a.findNestedModel.isSome

/-! ## Tables -/

/-- The column that orders rows as they were inserted. -/
def rowId : String := "row_id"

/-- The column that orders the elements of a list. -/
def position : String := "position"

/-- The columns of a table, by name. -/
abbrev Columns := List (String × ColumnType)

/-- **The child table of a list field**: the column of its record's key, and either one column for a
scalar element or one for each field of a model's. -/
structure ListTable where
  parentColumn : String
  valueColumn : Option String
  elementModel : Option Fields
  columns : Columns

/-- **A schema's table**, and the child tables of its list fields. `nonNullFields` cannot hold None:
their NULL means a missing field. -/
structure SchemaTables where
  schema : Schema
  columns : Columns
  listTables : List (String × ListTable)
  jsonFields : List String
  nonNullFields : List String

/-- The name without a trailing 's'. -/
def getSingular (tableName : String) : String :=
  if tableName.toList.getLast? = some 's' then String.ofList tableName.toList.dropLast else tableName

/-- The annotation of a declared field. -/
def Schema.declared (schema : Schema) (field : String) : Option FieldType :=
  schema.fields.lookup field

/-- The list fields kept in child tables: the indexed ones, then those that hold references. One that
is named twice would have its table defined twice. -/
def getChildFields (schema : Schema) : Option (List String) := do
  let references ← schema.storage.references.mapM fun field =>
    (schema.declared field).map fun a => (field, a)
  let fields := schema.storage.indexedLists ++
    (references.filter fun reference => reference.2.isListField).map Prod.fst
  if fields.Nodup then return fields else none

/-- A table has one column of each name. -/
def ofColumns (columns : Columns) : Option Columns :=
  if (columns.map Prod.fst).Nodup then some columns else none

/-- The column of a field. -/
def columnOf (field : String × FieldType) : String × ColumnType := (field.1, getColumnType field.2)

/-- The child table of a list field, of a table with these columns. -/
def getListTable (schema : Schema) (columns : Columns) (field : String) : Option ListTable := do
  let annotation ← schema.declared field
  if ! annotation.isListField then none
  let keyType ← columns.lookup schema.storage.key
  let parentColumn :=
    if schema.storage.key = "id" then getSingular schema.storage.table ++ "_id"
    else schema.storage.key
  let element ← getElementField annotation
  match element.findNestedModel with
  | some (_, fields) =>
    let columns ← ofColumns
      ((parentColumn, keyType) :: (position, .bigInteger) :: fields.map columnOf)
    return ⟨parentColumn, none, some fields, columns⟩
  | none =>
    let valueColumn := getSingular field
    let columns ← ofColumns
      [(parentColumn, keyType), (valueColumn, getColumnType element), (position, .bigInteger)]
    return ⟨parentColumn, some valueColumn, none, columns⟩

/-- **The tables of a schema**; none where the database cannot be set up for it. -/
def getTablesOf (schema : Schema) : Option SchemaTables := do
  let childFields ← getChildFields schema
  let kept := schema.fields.filter fun field => !childFields.contains field.1
  let columns ← ofColumns ((rowId, .bigInteger) :: kept.map columnOf)
  if schema.storage.expires.any fun field => (columns.lookup field).isNone then none
  let listTables ← childFields.mapM fun field =>
    (getListTable schema columns field).map fun listTable => (field, listTable)
  return {
    schema, columns, listTables
    jsonFields := (kept.filter fun field => getColumnType field.2 = .json).map Prod.fst
    nonNullFields := (schema.fields.filter fun field => !field.2.isNoneAllowed).map Prod.fst }

end Mss
