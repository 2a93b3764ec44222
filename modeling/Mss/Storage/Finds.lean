import Mss.Lib.Paging
import Mss.Lib.Refusals
import Mss.Storage.SqlFilters

/-!
# Finding records

A find takes a filter, the fields to sort by, and how many of the matched records to skip and to
return. In SQL it is one statement on the schema's table: the rows that the WHERE clause is true of,
in the order of the ORDER BY clauses, from an offset on and up to a limit.

* `parseSort`, `checkSort`: the fields of a sort.
* **`translateSort`**: its ORDER BY clauses; the row's id comes last, so that they decide.
* `readStored`: the record of stored data, or none where the schema skips what is invalid.
* **`SqlStore.findRecords`**, **`Database.find`**.
-/

namespace Mss

open Storage Std

/-! ## Sorts -/

/-- The text after its leading dashes. -/
def lstripDashes (field : String) : String :=
  String.ofList (field.toList.dropWhile (· == '-'))

/-- Each field of a sort, and whether it is descending. -/
def parseSort (sort : List String) : List (String × Bool) :=
  sort.map fun field => (lstripDashes field, field.toList.head? == some '-')

/-- Check that the sort names only the schema's fields. -/
def checkSort (schema : Schema) (sort : List String) : Except StorageError Unit :=
  sort.forM fun field => do
    let _ ← resolveField schema (lstripDashes field)

/-- **A clause of an ORDER BY.** -/
structure OrderTerm where
  column : String
  isDescending : Bool
  nullsFirst : Bool
  deriving DecidableEq, Repr

/-- The clause that orders rows as they were inserted. -/
def rowIdTerm : OrderTerm := ⟨rowId, false, true⟩

/-- **The ORDER BY clauses of a sort**: None first as MongoDB sorts it, ties in insertion order. -/
def translateSort (tables : SchemaTables) (sort : List String) :
    Except PyError (List OrderTerm) := do
  let order ← (parseSort sort).mapM fun field => do
    let column ← getColumn tables field.1
    return if field.2 then ⟨column, true, false⟩ else ⟨column, false, true⟩
  return order ++ [rowIdTerm]

/-! ## The order of rows -/

/-- How a database orders text. -/
structure TextOrder where
  cmp : String → String → Ordering
  trans : TransCmp cmp

attribute [instance] TextOrder.trans

/-- The place of a scalar's kind among those of others; no column holds two kinds. -/
def Scalar.rank : Scalar → ℕ
  | bool _ => 0
  | int _ => 1
  | float _ => 2
  | text _ => 3
  | datetime _ => 4

/-- The order of a column's scalars. -/
def Scalar.compare (text : TextOrder) : Scalar → Scalar → Ordering
  | bool a, bool b => Ord.compare a b
  | int a, int b => Ord.compare a b
  | float a, float b => Ord.compare a b
  | Scalar.text a, Scalar.text b => text.cmp a b
  | datetime a, datetime b => Ord.compare a b
  | a, b => Ord.compare a.rank b.rank

/-- What a column orders a row by: its scalar, or nothing. -/
def orderKey : Value Scalar → Option Scalar
  | .scalar s => some s
  | _ => none

/-- The order of two rows by a clause. -/
def OrderTerm.cmp (text : TextOrder) (term : OrderTerm) (a b : Row) : Ordering :=
  compareNulls term.nullsFirst
    (if term.isDescending then fun x y => Scalar.compare text y x else Scalar.compare text)
    (orderKey (a term.column)) (orderKey (b term.column))

/-- **The order of two rows by the clauses of an ORDER BY.** -/
def compareRows (text : TextOrder) (order : List OrderTerm) : Row → Row → Ordering :=
  compareBy (order.map (OrderTerm.cmp text))

/-- The rows are in the order of an ORDER BY. -/
def InOrder (text : TextOrder) (order : List OrderTerm) (a b : Row) : Prop :=
  (compareRows text order a b).isLE

/-- How a database sorts the rows of a statement: in the order of its ORDER BY. -/
abbrev SqlPlan (text : TextOrder) := ∀ order : List OrderTerm, Sorting (InOrder text order)

/-- The number a scalar is. -/
def Scalar.toInt : Scalar → ℤ
  | int i => i
  | _ => 0

/-- The id of a row. -/
def rowIdOf (row : Row) : ℤ := ((orderKey (row rowId)).map Scalar.toInt).getD 0

/-- **Stored rows, numbered in the order they were inserted.** -/
structure NumberedRows (tables : SchemaTables) extends StoredRows tables where
  numbered : rows.Pairwise fun a b => rowIdOf a < rowIdOf b

/-- Whether a column of a type may hold a value. -/
def fits (type : ColumnType) : Value Scalar → Bool
  | .null => true
  | .scalar s => type == .json || s.kind == type
  | _ => type == .json

instance (type : ColumnType) (value : Value Scalar) : Decidable (Fits type value) :=
  decidable_of_iff (fits type value = true) (by cases value <;> simp [fits, Fits])

/-! ## Finding -/

/-- The fields that failed validation. -/
structure ValidationError where
  fields : List String
  deriving DecidableEq, Repr

/-- What a find raises: what the checks refuse, what the translation does, what MongoDB's client
does not encode, or the record that fails validation. -/
inductive FindError
  | refused (error : StorageError)
  | raised (error : PyError)
  | notEncoded
  | invalid (error : ValidationError)
  deriving DecidableEq, Repr

section

variable {R D : Type}

/-- **Convert stored data into a record**, or none if it is invalid and the schema skips that. -/
def readStored (schema : Schema) (convert : D → Except ValidationError R) (data : D) :
    Except FindError (Option R) :=
  match convert data with
  | .ok record => .ok (some record)
  | .error e => if schema.storage.shouldSkipInvalid then .ok none else .error (.invalid e)

variable (lower : String → String) (database : SqlDatabase) {text : TextOrder}
  {tables : SchemaTables} (validate : Value Scalar → Except ValidationError R)

/-- The rows a WHERE clause is true of. -/
def matchedRows (stored : StoredRows tables) (clause : Clause) : List Row :=
  stored.rows.filter fun row => clause.eval database stored row == .yes

/-- The rows of a statement: filtered, sorted, and cut to a page. -/
def selectRows (plan : SqlPlan text) (stored : StoredRows tables) (clause : Clause)
    (order : List OrderTerm) (skip : ℕ) (limit : Option ℕ) : List Row :=
  page skip limit ((plan order).run (matchedRows database stored clause))

/-- The record of a row, validated. -/
def validateRow (stored : StoredRows tables) (row : Row) : Except FindError R :=
  (validate (stored.recordOf row)).mapError .invalid

namespace SqlStore

/-- **Find the matched records**; a read leaves out the invalid ones of a schema that skips them. -/
def findRecords (plan : SqlPlan text) (stored : StoredRows tables) (now : ℤ) (filter : Filter)
    (sort : List String) (skip : ℕ) (limit : Option ℕ) (isRead : Bool) :
    Except FindError (List R) := do
  let clause ← (translateFilter lower tables now filter).mapError .raised
  let order ← (translateSort tables sort).mapError .raised
  let rows := selectRows database plan stored clause order skip limit
  if isRead then
    let records ← rows.mapM fun row => readStored tables.schema validate (stored.recordOf row)
    return records.reduceOption
  else rows.mapM (validateRow validate stored)

/-- The unexpired records that match the filter, in the sort's order. -/
def find (plan : SqlPlan text) (stored : StoredRows tables) (now : ℤ) (filter : Filter)
    (sort : List String) (skip : ℕ) (limit : Option ℕ) : Except FindError (List R) :=
  findRecords lower database validate plan stored now filter sort skip limit true

end SqlStore

/-- **Find through the database**: the filter and the sort are checked against the schema, and the
store is asked. -/
def Database.find (schema : Schema)
    (storeFind : Filter → List String → ℕ → Option ℕ → Except FindError (List R))
    (filter : Option Filter) (sort : List String) (skip : ℕ) (limit : Option ℕ) :
    Except FindError (List R) := do
  (checkFilter schema (filter.getD [])).mapError .refused
  (checkSort schema sort).mapError .refused
  storeFind (filter.getD []) sort skip limit

end

end Mss
