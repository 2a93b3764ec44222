import Mathlib.Data.Rat.Defs
import Mathlib.Algebra.Order.Ring.Rat
import Mss.Lib.Like
import Mss.Storage.Schemas

/-!
# Filters

A filter is a document of MongoDB's query dialect: it maps fields to a value or to operators, and
may hold `$and` and `$or` lists of filters.

* `PyValue`, `Scalar`: the operands of a filter, and the scalars that records hold.
* `Filter`, `FieldOperator`, `isOperatorMap`.
* **`checkFilter`**: the filters the dialect has.
* **`Filter.Matches`**: what a filter means, as MongoDB gives it.
-/

namespace Mss

open Storage

/-! ## Values -/

/-- A scalar that a record holds. A datetime is an instant. -/
inductive Scalar
  | bool (b : Bool)
  | int (i : ℤ)
  | float (q : ℚ)
  | text (s : String)
  | datetime (instant : ℤ)
  deriving DecidableEq, Repr

/-- A scalar as Python has it. A datetime is a wall clock's time and its offset from UTC, which a
naive one lacks. -/
inductive PyScalar
  | bool (b : Bool)
  | int (i : ℤ)
  | float (q : ℚ)
  | str (s : String)
  | datetime (wall : ℤ) (utcOffset : Option ℤ)
  | intEnum (value : ℤ)
  | strEnum (value : String)
  | uuid (text : String)
  | path (text : String)
  deriving DecidableEq, Repr

/-- The sequences an operand may be. -/
inductive SequenceType
  | list
  | tuple
  | set
  deriving DecidableEq, Repr

/-- **A Python value**, as a filter may hold it. -/
inductive PyValue where
  | none
  | scalar (s : PyScalar)
  | sequence (type : SequenceType) (items : List PyValue)
  | dict (entries : List (String × PyValue))

namespace Scalar

/-- The column that holds the scalar. -/
def kind : Scalar → ColumnType
  | bool _ => .boolean
  | int _ => .bigInteger
  | float _ => .float
  | text _ => .string
  | datetime _ => .dateTime

/-- The order of the scalars of one kind: text is ordered by code point. -/
def lt : Scalar → Scalar → Bool
  | bool a, bool b => !a && b
  | int a, int b => a < b
  | float a, float b => a < b
  | text a, text b => a < b
  | datetime a, datetime b => a < b
  | _, _ => false

end Scalar

/-- The scalar that MongoDB compares: an enum's value, the text of a UUID or a path, and the instant
of a datetime, a naive one's in UTC. -/
def PyScalar.toScalar : PyScalar → Scalar
  | bool b => .bool b
  | int i | intEnum i => .int i
  | float q => .float q
  | str s | strEnum s | uuid s | path s => .text s
  | datetime wall utcOffset => .datetime (wall - utcOffset.getD 0)

/-- The column that holds the scalar. -/
def PyScalar.kind (s : PyScalar) : ColumnType := s.toScalar.kind

namespace PyValue

/-- Whether it is `None`. -/
def isNone : PyValue → Bool
  | none => true
  | _ => false

/-- The items of a sequence. -/
def items : PyValue → List PyValue
  | sequence _ is => is
  | _ => []

mutual

/-- The value of a document that equals the operand. -/
def toValue : PyValue → Value Scalar
  | none => .null
  | scalar s => .scalar s.toScalar
  | sequence _ is => .list (toValues is)
  | dict es => .document (toFields es)

/-- The values of a list's items. -/
def toValues : List PyValue → List (Value Scalar)
  | [] => []
  | v :: vs => toValue v :: toValues vs

/-- The values of a document's fields. -/
def toFields : List (String × PyValue) → List (String × Value Scalar)
  | [] => []
  | (name, v) :: es => (name, toValue v) :: toFields es

end

end PyValue

/-! ## Filters -/

/-- The operators that join filters. -/
inductive LogicalOperator
  | and
  | or
  deriving DecidableEq, Repr

/-- **An entry of a filter**: a list of filters under `$and` or `$or`, or a condition under any
other key. -/
inductive Entry where
  | logical (operator : LogicalOperator) (filters : List (List Entry))
  | field (name : String) (condition : PyValue)

/-- **A filter**: its entries. -/
abbrev Filter := List Entry

/-- The filter of a key. -/
def filterOfKey (schema : Schema) (key : PyValue) : Filter := [.field schema.storage.key key]

/-- The operators a field takes. -/
inductive FieldOperator
  | eq
  | ne
  | in
  | nin
  | gt
  | gte
  | lt
  | lte
  | regex
  | options
  deriving DecidableEq, Repr

/-- The operator of a name. -/
def FieldOperator.ofName (name : String) : Option FieldOperator :=
  [("$eq", eq), ("$ne", ne), ("$in", .in), ("$nin", nin), ("$gt", gt), ("$gte", gte), ("$lt", lt),
    ("$lte", lte), ("$regex", regex), ("$options", options)].lookup name

/-- The operator that matches one element of a list. -/
def elementMatch : String := "$elemMatch"

/-- Whether the name is that of an operator. -/
def isOperatorName (name : String) : Bool := name.toList.head? == some '$'

/-- Whether the condition is a map of field operators rather than a value to equal. -/
def isOperatorMap : PyValue → Bool
  | .dict entries => entries.any fun entry => isOperatorName entry.1
  | _ => false

/-- The operators of a condition: its own, or that of a value to equal. -/
def operatorsOf (condition : PyValue) : List (String × PyValue) :=
  match condition with
  | .dict entries => if isOperatorMap condition then entries else [("$eq", condition)]
  | _ => [("$eq", condition)]

/-- Whether an operator map has the key. -/
def hasKey (key : String) : PyValue → Bool
  | .dict entries => entries.any fun entry => entry.1 == key
  | _ => false

/-! ## Checking a filter -/

/-- The letters that `re.escape` escapes. -/
def specialLetters : List Char :=
  "()[]\x7b\x7d?*+-|^$\\.&~# \t\n\r\x0b\x0c".toList

/-- Escape the letters special in a pattern. -/
def reEscape (text : List Char) : List Char :=
  text.flatMap fun c => if specialLetters.contains c then ['\\', c] else [c]

/-- Drop the backslash before each escaped letter. -/
def unescape : List Char → List Char
  | [] => []
  | [c] => [c]
  | c :: d :: cs => if c = '\\' then d :: unescape cs else c :: unescape (d :: cs)

/-- The text a `$regex` searches for, from its escaped form. -/
def getSearchedText (escapedText : String) : List Char := unescape escapedText.toList

/-- Whether the operand is this text. -/
def PyValue.isText (text : String) : PyValue → Bool
  | .scalar (.str s) => s == text
  | _ => false

/-- Whether the operand is a text as `re.escape` escapes it. -/
def PyValue.isEscapedText : PyValue → Bool
  | .scalar (.str p) => reEscape (getSearchedText p) == p.toList
  | _ => false

/-- Check a `$regex`: escaped text, case-insensitive, beside no other operator. -/
def checkTextSearch (field : String) (entries : List (String × PyValue)) :
    Except StorageError Unit :=
  let keys := entries.map Prod.fst
  if (keys ≠ ["$regex", "$options"] ∧ keys ≠ ["$options", "$regex"]) ∨
      !(entries.lookup "$options").any (PyValue.isText "i") then
    .error (.query ("$regex on '" ++ field ++ "' takes only $options 'i'"))
  else if !(entries.lookup "$regex").any PyValue.isEscapedText then
    .error (.query ("$regex on '" ++ field ++ "' takes escaped text, not a pattern"))
  else .ok ()

/-- Check one operator of a condition. -/
def checkOperator (field : String) (entry : String × PyValue) : Except StorageError Unit :=
  match FieldOperator.ofName entry.1, entry.2 with
  | none, _ => .error (.query ("unknown operator '" ++ entry.1 ++ "' on '" ++ field ++ "'"))
  | some .in, .sequence _ _ | some .nin, .sequence _ _ => .ok ()
  | some .in, _ | some .nin, _ => .error (.query (entry.1 ++ " on '" ++ field ++ "' takes a list"))
  | some _, _ => .ok ()

/-- Check the operators of a condition. -/
def checkCondition (field : String) (condition : PyValue) : Except StorageError Unit :=
  match condition with
  | .dict entries =>
    if isOperatorMap condition then do
      if hasKey "$regex" condition || hasKey "$options" condition then
        checkTextSearch field entries
      entries.forM (checkOperator field)
    else .ok ()
  | _ => .ok ()

/-- Check the conditions of an `$elemMatch` on the fields of a list's elements. -/
def checkElementFilter (schema : Schema) (field : String) (elementFilter : PyValue) :
    Except StorageError Unit :=
  match elementFilter with
  | .dict (entry :: entries) =>
    (entry :: entries).forM fun entry => do
      let _ ← resolveField schema (field ++ "." ++ entry.1)
      checkCondition (field ++ "." ++ entry.1) entry.2
  | _ => .error (.query ("$elemMatch on '" ++ field ++ "' takes a non-empty filter"))

/-- Check an `$elemMatch`: alone on a list of models. -/
def checkElementMatch (schema : Schema) (field : String) (condition : PyValue) :
    Except StorageError Unit :=
  match condition with
  | .dict [(_, elementFilter)] => do
    let fieldInfo ← resolveField schema field
    if isModelList fieldInfo then checkElementFilter schema field elementFilter
    else
      throw (.query ("$elemMatch needs a list of models, which '" ++ field ++ "' is not"))
  | _ => .error (.query ("$elemMatch on '" ++ field ++ "' takes no other operators"))

/-- Check a condition under a key. -/
def checkField (schema : Schema) (field : String) (condition : PyValue) :
    Except StorageError Unit := do
  if isOperatorName field then
    throw (.query ("unknown operator '" ++ field ++ "'"))
  else if isOperatorMap condition && hasKey elementMatch condition then
    checkElementMatch schema field condition
  else if isModelList (← resolveField schema field) then
    throw (.query ("list of models '" ++ field ++ "' is matched with $elemMatch"))
  else
    checkCondition field condition

/-- The name of a logical operator. -/
def LogicalOperator.name : LogicalOperator → String
  | and => "$and"
  | or => "$or"

mutual

/-- Check one entry of a filter. -/
def checkEntry (schema : Schema) : Entry → Except StorageError Unit
  | .logical operator filters =>
    if filters.isEmpty then
      .error (.query (operator.name ++ " takes a non-empty list of filters"))
    else checkFilters schema filters
  | .field name condition => checkField schema name condition

/-- **Check that the filter names only the schema's fields and the dialect's operators.** -/
def checkFilter (schema : Schema) : List Entry → Except StorageError Unit
  | [] => .ok ()
  | entry :: entries => do
    checkEntry schema entry
    checkFilter schema entries

/-- Check each filter of a list. -/
def checkFilters (schema : Schema) : List (List Entry) → Except StorageError Unit
  | [] => .ok ()
  | filter :: filters => do
    checkFilter schema filter
    checkFilters schema filters

end

/-! ## What a filter means -/

section

variable (same : Char → Char → Bool)

/-- Some scalar of the operand's kind compares with it. -/
def Compares (compare : Scalar → Scalar → Bool) (values : List (Value Scalar)) (operand : PyValue) :
    Prop :=
  ∃ a s, .scalar a ∈ values ∧ operand = .scalar s ∧ a.kind = s.kind ∧ compare a s.toScalar = true

/-- Some value is a text that holds the text searched for. -/
def HoldsSearched (values : List (Value Scalar)) (operand : PyValue) : Prop :=
  ∃ a p, .scalar (.text a) ∈ values ∧ operand = .scalar (.str p) ∧
    Holds same (getSearchedText p) a.toList

/-- **An operator on the values a path reaches.** None equals a null field, and a value or `$in`
matches a list that holds it; `$ne` and `$nin` match what `$eq` and `$in` do not. -/
def OperatorMatches (values : List (Value Scalar)) (operator : String) (operand : PyValue) : Prop :=
  match FieldOperator.ofName operator with
  | some .eq => operand.toValue ∈ values
  | some .ne => operand.toValue ∉ values
  | some .in => ∃ item ∈ operand.items, item.toValue ∈ values
  | some .nin => ∀ item ∈ operand.items, item.toValue ∉ values
  | some .gt => Compares (fun a b => b.lt a) values operand
  | some .gte => Compares (fun a b => !a.lt b) values operand
  | some .lt => Compares (fun a b => a.lt b) values operand
  | some .lte => Compares (fun a b => !b.lt a) values operand
  | some .regex => HoldsSearched same values operand
  | some .options => True
  | none => False

/-- Every operator of a condition. -/
def ConditionMatches (values : List (Value Scalar)) (condition : PyValue) : Prop :=
  ∀ entry ∈ operatorsOf condition, OperatorMatches same values entry.1 entry.2

/-- The element is a document whose fields meet every condition. -/
def ElementMatches (element : Value Scalar) (elementFilter : List (String × PyValue)) : Prop :=
  (∃ fields, element = .document fields) ∧
    ∀ entry ∈ elementFilter, ConditionMatches same (element.candidates (pathParts entry.1)) entry.2

/-- The filter of an `$elemMatch`; none of another condition. -/
def elementFilterOf : PyValue → Option (List (String × PyValue))
  | .dict [(key, .dict entries)] => if key = elementMatch then some entries else none
  | _ => none

/-- **A condition on a field of a record.** `$elemMatch` needs one element of the list to meet every
condition. -/
def FieldMatches (record : Value Scalar) (name : String) (condition : PyValue) : Prop :=
  match elementFilterOf condition with
  | some elementFilter =>
    ∃ list ∈ record.reached (pathParts name), ∃ element ∈ list.items,
      ElementMatches same element elementFilter
  | none => ConditionMatches same (record.candidates (pathParts name)) condition

mutual

/-- An entry of a filter. -/
def Entry.Matches (record : Value Scalar) : Entry → Prop
  | .logical .and filters => Filter.AllMatch record filters
  | .logical .or filters => Filter.AnyMatches record filters
  | .field name condition => FieldMatches same record name condition

/-- **The record matches the filter**: it meets every entry. -/
def Filter.Matches (record : Value Scalar) : List Entry → Prop
  | [] => True
  | entry :: entries => entry.Matches record ∧ Filter.Matches record entries

/-- The record matches every filter. -/
def Filter.AllMatch (record : Value Scalar) : List (List Entry) → Prop
  | [] => True
  | filter :: filters => Filter.Matches record filter ∧ Filter.AllMatch record filters

/-- The record matches one of the filters. -/
def Filter.AnyMatches (record : Value Scalar) : List (List Entry) → Prop
  | [] => False
  | filter :: filters => Filter.Matches record filter ∨ Filter.AnyMatches record filters

end

end

end Mss
