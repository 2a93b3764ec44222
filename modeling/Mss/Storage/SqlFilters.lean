import Mss.Lib.Kleene
import Mss.Storage.Filters

/-!
# Filters in SQL

A filter becomes a WHERE clause on a schema's table. Every value becomes a bound parameter and every
field a column; a list field kept in a child table is matched by an EXISTS on that table.

* `Clause`: the clauses that are built.
* **`translateFilter`**: the WHERE clause of a filter, or the exception raised instead.
* `SqlDatabase`, `StoredRows`: the database, and the rows it holds for a schema.
* **`Clause.eval`**: the truth of a clause at a row, which nulls may leave unknown.
* `StoredRows.recordOf`: the record a row stands for.
-/

namespace Mss

open Storage

/-! ## Clauses -/

/-- The comparisons of a column with a value. -/
inductive Comparison
  | eq
  | ne
  | gt
  | ge
  | lt
  | le
  deriving DecidableEq, Repr

/-- A column, or its text in lower case. -/
structure Column where
  name : String
  isLowered : Bool
  deriving DecidableEq, Repr

/-- **A clause.** `existsIn` is an EXISTS on the rows of a list's child table whose parent is the
row's key. -/
inductive Clause where
  | always
  | never
  | and (clauses : List Clause)
  | or (clauses : List Clause)
  | not (clause : Clause)
  | isNull (column : Column)
  | isNotNull (column : Column)
  | compare (comparison : Comparison) (column : Column) (value : PyValue)
  | isIn (column : Column) (values : List PyValue)
  | isNotIn (column : Column) (values : List PyValue)
  | ilike (column : Column) (pattern : List Char)
  | existsIn (listField parentColumn key : String) (conditions : List Clause)

/-- What a translation may raise. -/
inductive PyError
  | queryError (message : String)
  | keyError (key : String)
  | argumentError
  | typeError
  | attributeError
  deriving DecidableEq, Repr

/-! ## Columns and values -/

/-- The column of a field. -/
def getColumn (tables : SchemaTables) (fieldName : String) : Except PyError String :=
  if (tables.listTables.lookup fieldName).isSome then
    .error (.queryError ("list field '" ++ fieldName ++ "' is matched by element"))
  else if fieldName.toList.contains '.' || tables.jsonFields.contains fieldName then
    .error (.queryError ("'" ++ fieldName ++ "' is in a JSON column, which is read whole"))
  else if (tables.columns.lookup fieldName).isNone then
    .error (.queryError
      ("'" ++ fieldName ++ "' is not a column of " ++ tables.schema.storage.table))
  else .ok fieldName

/-- What a column holds of a scalar: an enum's value, the text of a UUID or a path. -/
def PyScalar.convert : PyScalar → PyScalar
  | .intEnum value => .int value
  | .strEnum value => .str value
  | .uuid text | .path text => .str text
  | s => s

/-- Convert a value into what a column holds. -/
def convertToColumnValue : PyValue → PyValue
  | .scalar s => .scalar s.convert
  | v => v

/-- The items a `for` loop goes through. -/
def iterate : PyValue → Except PyError (List PyValue)
  | .sequence _ items => .ok items
  | .dict entries => .ok (entries.map fun entry => .scalar (.str entry.1))
  | .scalar (.str s) => .ok (s.toList.map fun c => .scalar (.str (String.singleton c)))
  | _ => .error .typeError

section

variable (lower : String → String)

/-- Convert an operand, without case where its field is compared so. -/
def convertOperand (isCaseInsensitive : Bool) (operand : PyValue) : PyValue :=
  match convertToColumnValue operand with
  | .scalar (.str s) => .scalar (.str (if isCaseInsensitive then lower s else s))
  | v => v

/-! ## Comparisons -/

/-- None matches a null or missing field. -/
def getEqualityClause (column : Column) (value : PyValue) : Clause :=
  if value.isNone then .isNull column else .compare .eq column value

/-- A null or missing field differs from any value but None. -/
def getInequalityClause (column : Column) (value : PyValue) : Clause :=
  if value.isNone then .isNotNull column
  else .or [.compare .ne column value, .isNull column]

/-- `$in`. -/
def getAnyOfClause (column : Column) (values : List PyValue) : Clause :=
  let known := values.filter fun value => !value.isNone
  let clause := if known.isEmpty then .never else .isIn column known
  if known.length < values.length then .or [clause, .isNull column] else clause

/-- `$nin`: a null or missing field is none of the values, unless one is None. -/
def getNoneOfClause (column : Column) (values : List PyValue) : Clause :=
  let known := values.filter fun value => !value.isNone
  let clause := if known.isEmpty then .always else .isNotIn column known
  if known.length < values.length then .and [clause, .isNotNull column]
  else .or [clause, .isNull column]

/-- An order comparison, which is not built with None, True or False. -/
def getOrderClause (comparison : Comparison) (column : Column) (value : PyValue) :
    Except PyError (List Clause) :=
  match value with
  | .none | .scalar (.bool _) => .error .argumentError
  | v => .ok [.compare comparison column v]

/-- A column that holds the text in any case, the wildcards of LIKE taken as they are. -/
def getSubstringClause (column : Column) (text : List Char) : Clause :=
  .ilike column ('%' :: escapeLike text ++ ['%'])

/-- The text a `$regex` operand searches for. -/
def searchedTextOf : PyValue → Except PyError (List Char)
  | .scalar (.str p) => .ok (getSearchedText p)
  | _ => .error .typeError

/-- The clauses of one operator on a column. -/
def getOperatorClauses (column : Column) (isCaseInsensitive : Bool) (operator : String)
    (operand : PyValue) : Except PyError (List Clause) :=
  let value := convertOperand lower isCaseInsensitive operand
  match FieldOperator.ofName operator with
  | some .in => do
    let items ← iterate operand
    return [getAnyOfClause column (items.map (convertOperand lower isCaseInsensitive))]
  | some .nin => do
    let items ← iterate operand
    return [getNoneOfClause column (items.map (convertOperand lower isCaseInsensitive))]
  | some .eq => .ok [getEqualityClause column value]
  | some .ne => .ok [getInequalityClause column value]
  | some .gt => getOrderClause .gt column value
  | some .gte => getOrderClause .ge column value
  | some .lt => getOrderClause .lt column value
  | some .lte => getOrderClause .le column value
  | some .regex => do
    let text ← searchedTextOf operand
    return [getSubstringClause column text]
  | some .options | none => .ok []

/-- **Compare a column with a value**, or with each operator of an operator map. -/
def getComparisonClause (column : Column) (condition : PyValue) (isCaseInsensitive : Bool) :
    Except PyError Clause := do
  let clauses ← (operatorsOf condition).mapM fun entry =>
    getOperatorClauses lower column isCaseInsensitive entry.1 entry.2
  return .and clauses.flatten

/-- The clause of a condition on a scalar field. -/
def translateColumnCondition (tables : SchemaTables) (fieldName : String) (condition : PyValue) :
    Except PyError Clause := do
  let column ← getColumn tables fieldName
  let isCaseInsensitive := tables.schema.storage.caseInsensitive.contains fieldName
  getComparisonClause lower ⟨column, isCaseInsensitive⟩ condition isCaseInsensitive

/-! ## Lists -/

/-- An EXISTS on the elements of a list. -/
def existsElement (tables : SchemaTables) (fieldName : String) (listTable : ListTable)
    (conditions : List Clause) : Clause :=
  .existsIn fieldName listTable.parentColumn tables.schema.storage.key conditions

/-- A list that holds one of the values. -/
def getListMembershipClause (tables : SchemaTables) (fieldName : String) (listTable : ListTable)
    (values : List PyValue) : Clause :=
  let known := (values.filter fun value => !value.isNone).map convertToColumnValue
  if known.isEmpty then .never
  else existsElement tables fieldName listTable
    [.isIn ⟨listTable.valueColumn.getD "", false⟩ known]

/-- Whether the operand is a list. -/
def PyValue.isList : PyValue → Bool
  | sequence .list _ => true
  | _ => false

/-- The clause of one operator on a list of scalars. -/
def getListOperatorClause (tables : SchemaTables) (fieldName : String) (listTable : ListTable)
    (operator : String) (operand : PyValue) : Except PyError Clause :=
  let whole := PyError.queryError
    ("list field '" ++ fieldName ++ "' is matched by element, not whole")
  match FieldOperator.ofName operator with
  | some .eq =>
    if operand.isList then .error whole
    else .ok (getListMembershipClause tables fieldName listTable [operand])
  | some .ne =>
    if operand.isList then .error whole
    else .ok (.not (getListMembershipClause tables fieldName listTable [operand]))
  | some .in => do return getListMembershipClause tables fieldName listTable (← iterate operand)
  | some .nin => do
    return .not (getListMembershipClause tables fieldName listTable (← iterate operand))
  | _ => .error (.queryError ("list field '" ++ fieldName ++ "' takes no " ++ operator))

/-- The clause of a condition on a field of an element. -/
def getElementFieldClause (listTable : ListTable) (entry : String × PyValue) :
    Except PyError Clause :=
  if (listTable.columns.lookup entry.1).isNone then .error (.keyError entry.1)
  else getComparisonClause lower ⟨entry.1, false⟩ entry.2 false

/-- A list with one element that meets every condition of the filter. -/
def getElementMatchClause (tables : SchemaTables) (fieldName : String) (listTable : ListTable)
    (elementFilter : PyValue) : Except PyError Clause :=
  match elementFilter with
  | .dict entries => do
    let conditions ← entries.mapM (getElementFieldClause lower listTable)
    return existsElement tables fieldName listTable conditions
  | _ => .error .attributeError

/-- The clause of a condition on a list field: a value or `$in` matches a list holding it. -/
def translateListCondition (tables : SchemaTables) (fieldName : String) (listTable : ListTable)
    (condition : PyValue) : Except PyError Clause :=
  let onlyElementMatch := PyError.queryError
    ("list field '" ++ fieldName ++ "' is matched with $elemMatch")
  if listTable.elementModel.isSome then
    match operatorsOf condition with
    | [(key, elementFilter)] =>
      if key = elementMatch then
        getElementMatchClause lower tables fieldName listTable elementFilter
      else .error onlyElementMatch
    | _ => .error onlyElementMatch
  else do
    let clauses ← (operatorsOf condition).mapM fun entry =>
      getListOperatorClause tables fieldName listTable entry.1 entry.2
    return .and clauses

/-! ## Filters -/

/-- The clause of a condition on a field. -/
def translateField (tables : SchemaTables) (fieldName : String) (condition : PyValue) :
    Except PyError Clause :=
  match tables.listTables.lookup fieldName with
  | some listTable => translateListCondition lower tables fieldName listTable condition
  | none => translateColumnCondition lower tables fieldName condition

mutual

/-- The clause of an entry. -/
def translateEntry (tables : SchemaTables) : Entry → Except PyError Clause
  | .logical .and filters => (translateItems tables filters).map .and
  | .logical .or filters => (translateItems tables filters).map .or
  | .field name condition => translateField lower tables name condition

/-- The clauses of a filter's entries. -/
def translateEntries (tables : SchemaTables) : List Entry → Except PyError (List Clause)
  | [] => .ok []
  | entry :: entries => do
    let clause ← translateEntry tables entry
    let clauses ← translateEntries tables entries
    return clause :: clauses

/-- The clause of each filter of a list. -/
def translateItems (tables : SchemaTables) : List (List Entry) → Except PyError (List Clause)
  | [] => .ok []
  | filter :: filters => do
    let clauses ← translateEntries tables filter
    let items ← translateItems tables filters
    return .and (.always :: clauses) :: items

end

/-- The clause of the filter's conditions. -/
def translateConditions (tables : SchemaTables) (filter : Filter) : Except PyError Clause := do
  let clauses ← translateEntries lower tables filter
  return .and (.always :: clauses)

/-- **The WHERE clause of a filter**: its conditions, on the rows unexpired at an instant. -/
def translateFilter (tables : SchemaTables) (now : ℤ) (filter : Filter) :
    Except PyError Clause := do
  let clause ← translateConditions lower tables filter
  match tables.schema.storage.expires with
  | none => return .and [clause]
  | some field =>
    if (tables.columns.lookup field).isNone then throw (.keyError field)
    let column : Column := ⟨field, false⟩
    let later ← getOrderClause .gt column (.scalar (.datetime now (some 0)))
    return .and [clause, .or (.isNull column :: later)]

end

/-! ## Rows -/

/-- A row: what its columns hold. -/
abbrev Row := String → Value Scalar

/-- What a column of a type may hold. -/
def Fits (type : ColumnType) (value : Value Scalar) : Prop :=
  type = .json ∨ value = .null ∨ ∃ s, value = .scalar s ∧ s.kind = type

/-- **The rows stored for a schema**: every column holds values of its type, and a list's element is
part of its row's key, so that it is not null. -/
structure StoredRows (tables : SchemaTables) where
  rows : List Row
  childRows : String → List Row
  typed : ∀ row ∈ rows, ∀ column ∈ tables.columns, Fits column.2 (row column.1)
  childTyped : ∀ list ∈ tables.listTables, ∀ row ∈ childRows list.1,
    ∀ column ∈ list.2.columns, Fits column.2 (row column.1)
  childKey : ∀ list ∈ tables.listTables, ∀ row ∈ childRows list.1,
    ∀ column ∈ list.2.valueColumn, row column ≠ .null

/-- Whether a child row is of the record of a key. -/
def isChildOf (key parent : Value Scalar) : Bool :=
  match key, parent with
  | .scalar a, .scalar b => a = b
  | _, _ => false

/-- Whether a column holds NULL. -/
def isNullValue : Value Scalar → Bool
  | .null => true
  | _ => false

/-- The place of an element. -/
def positionOf (row : Row) : ℤ :=
  match row position with
  | .scalar (.int i) => i
  | _ => 0

/-- The element a child row holds. -/
def getElement (listTable : ListTable) (row : Row) : Value Scalar :=
  match listTable.elementModel with
  | some fields => .document (fields.map fun field => (field.1, row field.1))
  | none => row (listTable.valueColumn.getD "")

/-- Whether a column is read into a record: not the row's id, and not the NULL of a field that cannot
hold None. -/
def SchemaTables.isRead (tables : SchemaTables) (row : Row) (name : String) : Bool :=
  name != rowId && !(tables.nonNullFields.contains name && isNullValue (row name))

namespace StoredRows

variable {tables : SchemaTables} (stored : StoredRows tables)

/-- The elements of a record's list, in their order. -/
def elementsOf (row : Row) (fieldName : String) (listTable : ListTable) : List (Value Scalar) :=
  let children := (stored.childRows fieldName).filter fun child =>
    isChildOf (row tables.schema.storage.key) (child listTable.parentColumn)
  (children.mergeSort fun a b => positionOf a ≤ positionOf b).map (getElement listTable)

/-- **The record a row stands for**: its fields, then its lists. -/
def recordOf (row : Row) : Value Scalar :=
  .document
    (((tables.columns.filter fun column => tables.isRead row column.1).map
        fun column => (column.1, row column.1)) ++
      tables.listTables.map fun list => (list.1, .list (stored.elementsOf row list.1 list.2)))

end StoredRows

/-! ## The truth of a clause -/

/-- The databases there are drivers for. -/
inductive SqlDialect
  | postgresql
  | sqlite
  deriving DecidableEq, Repr

/-- A naive datetime is given UTC's timezone before it is written. -/
def processBindParam : PyScalar → PyScalar
  | .datetime wall none => .datetime wall (some 0)
  | s => s

/-- The parameter the database gets: SQLite's datetimes have no timezone. -/
def SqlDialect.bind (dialect : SqlDialect) (s : PyScalar) : Scalar :=
  match dialect, processBindParam s with
  | .sqlite, .datetime wall _ => .datetime wall
  | _, s => s.toScalar

/-- **A database**: its dialect, its `lower`, the letters that `ILIKE` takes for the same, and what
it answers where a column is compared with a value of another type. -/
structure SqlDatabase where
  dialect : SqlDialect
  lower : String → String
  same : Char → Char → Bool
  foreign : Comparison → Value Scalar → PyValue → Truth
  foreignLike : Value Scalar → List Char → Truth

/-- The comparison of two scalars of one type. -/
def Comparison.test : Comparison → Scalar → Scalar → Bool
  | eq, a, b => a = b
  | ne, a, b => a ≠ b
  | gt, a, b => b.lt a
  | ge, a, b => !a.lt b
  | lt, a, b => a.lt b
  | le, a, b => !b.lt a

namespace SqlDatabase

variable (database : SqlDatabase)

/-- A comparison with NULL is unknown. -/
def compare (comparison : Comparison) (x : Value Scalar) (value : PyValue) : Truth :=
  match x, value with
  | .null, _ => .unknown
  | _, .none => .unknown
  | .scalar a, .scalar s =>
    if a.kind = (database.dialect.bind s).kind then
      .ofBool (comparison.test a (database.dialect.bind s))
    else database.foreign comparison x value
  | _, _ => database.foreign comparison x value

/-- Whether a value is among others: one comparison or another. -/
def isAmong (x : Value Scalar) (values : List PyValue) : Truth :=
  .any (values.map (database.compare .eq x))

/-- `ILIKE`, with the backslash as its escape. -/
def ilike (x : Value Scalar) (pattern : List Char) : Truth :=
  match x with
  | .null => .unknown
  | .scalar (.text s) => .ofBool (likeMatches database.same (parseLike '\\' pattern) s.toList)
  | _ => database.foreignLike x pattern

/-- What a column reads at a row. -/
def read (column : Column) (row : Row) : Value Scalar :=
  if column.isLowered then
    match row column.name with
    | .scalar (.text s) => .scalar (.text (database.lower s))
    | v => v
  else row column.name

end SqlDatabase

section

variable (database : SqlDatabase) {tables : SchemaTables} (stored : StoredRows tables)

mutual

/-- **The truth of a clause at a row.** -/
def Clause.eval : Clause → Row → Truth
  | .always, _ => .yes
  | .never, _ => .no
  | .and clauses, row => .all (Clause.evalEach clauses row)
  | .or clauses, row => .any (Clause.evalEach clauses row)
  | .not clause, row => (clause.eval row).not
  | .isNull column, row => .ofBool (isNullValue (database.read column row))
  | .isNotNull column, row => .ofBool !isNullValue (database.read column row)
  | .compare comparison column value, row =>
    database.compare comparison (database.read column row) value
  | .isIn column values, row => database.isAmong (database.read column row) values
  | .isNotIn column values, row => (database.isAmong (database.read column row) values).not
  | .ilike column pattern, row => database.ilike (database.read column row) pattern
  | .existsIn listField parentColumn key conditions, row =>
    .ofBool ((stored.childRows listField).any fun child =>
      isChildOf (row key) (child parentColumn) &&
        Truth.all (Clause.evalEach conditions child) == .yes)

/-- The truth of each clause of a list. -/
def Clause.evalEach : List Clause → Row → List Truth
  | [], _ => []
  | clause :: clauses, row => clause.eval row :: Clause.evalEach clauses row

end

end

end Mss
