import Mss.Storage.Finds

/-!
# Updates

An update is a document of MongoDB's update operators: `$set`, `$setOnInsert`, `$inc`, `$addToSet`
and `$pull`, each with the fields it changes. In SQL it becomes column values and writes to child
tables.

* `PyValue.equals`: Python's equality.
* **`checkUpdate`**, **`checkKeyKept`**: the updates that every store takes.
* `Changes`, **`translateUpdate`**: an update as SQL runs it.
-/

namespace Mss

open Storage

/-! ## Equality -/

/-- The number a scalar is. -/
def PyScalar.number : PyScalar → Option ℚ
  | bool b => some (if b then 1 else 0)
  | int i | intEnum i => some i
  | float q => some q
  | _ => none

/-- Whether two scalars are equal in Python: numbers by value, texts by their letters, and aware
datetimes by their instant. -/
def PyScalar.equals (a b : PyScalar) : Bool :=
  match a, b with
  | str s, str t | str s, strEnum t | strEnum s, str t | strEnum s, strEnum t => s == t
  | uuid s, uuid t | path s, path t => s == t
  | datetime w none, datetime w' none => w == w'
  | datetime w (some o), datetime w' (some o') => w - o == w' - o'
  | a, b => a.number.isSome && a.number == b.number

namespace PyValue

mutual

/-- **Whether two values are equal in Python**; the entries of two dicts stand in one order. -/
def equals : PyValue → PyValue → Bool
  | none, none => true
  | scalar a, scalar b => a.equals b
  | sequence t is, sequence t' js => t == t' && equalItems is js
  | dict es, dict fs => equalEntries es fs
  | _, _ => false

/-- Whether the items of two sequences are equal. -/
def equalItems : List PyValue → List PyValue → Bool
  | [], [] => true
  | v :: vs, w :: ws => equals v w && equalItems vs ws
  | _, _ => false

/-- Whether the entries of two dicts are equal. -/
def equalEntries : List (String × PyValue) → List (String × PyValue) → Bool
  | [], [] => true
  | (n, v) :: es, (m, w) :: fs => n == m && equals v w && equalEntries es fs
  | _, _ => false

end

/-- Whether it is a number to Python, as a bool is. -/
def isNumber : PyValue → Bool
  | scalar s => s.number.isSome
  | _ => false

end PyValue

/-! ## Checking an update -/

/-- The operators of an update. -/
inductive UpdateOperator
  | set
  | setOnInsert
  | inc
  | addToSet
  | pull
  deriving DecidableEq, Repr

/-- The operator of a name. -/
def UpdateOperator.ofName (name : String) : Option UpdateOperator :=
  [("$set", set), ("$setOnInsert", setOnInsert), ("$inc", inc), ("$addToSet", addToSet),
    ("$pull", pull)].lookup name

/-- The changes of an operator: a value for each field. -/
abbrev FieldChanges := List (String × PyValue)

/-- **An update**: the changes of each operator. -/
abbrev Update := List (String × FieldChanges)

/-- Check one change of an operator. -/
def checkChange (schema : Schema) (operatorName : String) (operator : UpdateOperator)
    (change : String × PyValue) : Except StorageError Unit := do
  let fieldInfo ← resolveField schema change.1
  if (operator = .addToSet ∨ operator = .pull) ∧ isModelList fieldInfo then
    throw (.query (operatorName ++ " cannot change '" ++ change.1 ++ "', a list of models"))
  else if operator = .inc ∧ ! change.2.isNumber then
    throw (.query ("$inc on '" ++ change.1 ++ "' takes a number"))
  else if operator = .pull ∧ isOperatorMap change.2 then
    throw (.query ("$pull on '" ++ change.1 ++ "' takes a value, not operators"))
  else return ()

/-- Check the changes of an operator. -/
def checkChanges (schema : Schema) (entry : String × FieldChanges) : Except StorageError Unit :=
  match UpdateOperator.ofName entry.1 with
  | none => .error (.query ("unknown update operator '" ++ entry.1 ++ "'"))
  | some operator => entry.2.forM (checkChange schema entry.1 operator)

/-- **Check that the update uses only the dialect's operators on the schema's fields.** -/
def checkUpdate (schema : Schema) (update : Update) : Except StorageError Unit :=
  if update.all fun entry => entry.2.isEmpty then
    .error (.query "an update needs at least one change")
  else update.forM (checkChanges schema)

/-- The condition that a filter has on a field, at its top. -/
def conditionOn (field : String) : Filter → PyValue
  | [] => .none
  | .field name condition :: entries => if name = field then condition else conditionOn field entries
  | _ :: entries => conditionOn field entries

/-- The value that a condition asks for. -/
def equalValue (condition : PyValue) : PyValue :=
  match condition with
  | .dict entries =>
    if isOperatorMap condition then (entries.lookup "$eq").getD .none else condition
  | _ => condition

/-- Check that one operator keeps the key: only `$set` names it, with the value matched. -/
def checkKeyOf (schema : Schema) (filter : Filter) (entry : String × FieldChanges) :
    Except StorageError Unit :=
  let key := schema.storage.key
  match entry.2.lookup key with
  | none => .ok ()
  | some value =>
    if entry.1 = "$setOnInsert" then .ok ()
    else if entry.1 ≠ "$set" then
      .error (.query (entry.1 ++ " cannot change " ++ schema.name ++ "." ++ key))
    else if (equalValue (conditionOn key filter)).isNone ∨
        ! value.equals (equalValue (conditionOn key filter)) then
      .error (.query ("an update cannot change " ++ schema.name ++ "." ++ key))
    else .ok ()

/-- **Check that an update sets a record's key only to the key the filter matches.** -/
def checkKeyKept (schema : Schema) (filter : Filter) (update : Update) : Except StorageError Unit :=
  update.forM (checkKeyOf schema filter)

/-! ## Changes -/

/-- A value written to a column: of Python, of JSON, or the column's own increased by a number. -/
inductive ColumnChange
  | value (v : PyValue)
  | json (v : Value Scalar)
  | increment (by_ : PyValue)

namespace SqlStore

/-- **An update as SQL runs it**: column values, then the child-table writes. -/
structure Changes where
  values : List (String × ColumnChange) := []
  valuesOnInsert : List (String × ColumnChange) := []
  listReplacements : List (String × List PyValue) := []
  listAdditions : List (String × PyValue) := []
  listRemovals : List (String × PyValue) := []

end SqlStore

/-- Assign a value to a name, as a dict does. -/
def assign {A : Type} (name : String) (a : A) (entries : List (String × A)) : List (String × A) :=
  if (entries.lookup name).isSome then
    entries.map fun entry => if entry.1 = name then (name, a) else entry
  else entries ++ [(name, a)]

theorem lookup_map_assigned {A : Type} (name other : String) (a : A) (entries : List (String × A)) :
    (entries.map fun entry => if entry.1 = name then (name, a) else entry).lookup other =
      if other = name then (entries.lookup name).map fun _ => a else entries.lookup other := by
  induction entries with
  | nil => simp
  | cons entry entries ih =>
    obtain ⟨n, b⟩ := entry
    rw [List.map_cons]
    by_cases hn : n = name
    · subst hn
      by_cases hother : other = n
      · subst hother
        simp
      · rw [if_pos rfl, List.lookup_cons, beq_false_of_ne hother, if_neg hother, List.lookup_cons,
          beq_false_of_ne hother]
        exact ih.trans (if_neg hother)
    · rw [if_neg hn, List.lookup_cons]
      by_cases hother : other = n
      · subst hother
        simp [hn]
      · rw [beq_false_of_ne hother, List.lookup_cons, List.lookup_cons, beq_false_of_ne hother,
          beq_false_of_ne (Ne.symm hn)]
        exact ih

/-- **What is assigned to a name is found under it**, and the others are as they were. -/
theorem lookup_assign {A : Type} (name other : String) (a : A) (entries : List (String × A)) :
    (assign name a entries).lookup other =
      if other = name then some a else entries.lookup other := by
  unfold assign
  split_ifs with hsome hother hother
  · obtain ⟨b, hb⟩ := Option.isSome_iff_exists.mp hsome
    rw [lookup_map_assigned, if_pos hother, hb]
    rfl
  · rw [lookup_map_assigned, if_neg hother]
  · subst hother
    rw [List.lookup_append, Option.not_isSome_iff_eq_none.mp hsome]
    simp
  · rw [List.lookup_append]
    simp [List.lookup_cons, beq_false_of_ne hother]

section

variable (isoformat : ℤ → Option ℤ → String)

mutual

/-- A value as JSON has it: a datetime is its text. -/
def toJsonable : PyValue → Value Scalar
  | .none => .null
  | .scalar (.datetime wall utcOffset) => .scalar (.text (isoformat wall utcOffset))
  | .scalar s => .scalar s.toScalar
  | .sequence _ items => .list (toJsonables items)
  | .dict entries => .document (toJsonEntries entries)

/-- The items of a list as JSON has them. -/
def toJsonables : List PyValue → List (Value Scalar)
  | [] => []
  | v :: vs => toJsonable v :: toJsonables vs

/-- The entries of a dict as JSON has them. -/
def toJsonEntries : List (String × PyValue) → List (String × Value Scalar)
  | [] => []
  | (name, v) :: es => (name, toJsonable v) :: toJsonEntries es

end

/-- Convert a value set whole into its column's: JSON for a JSON field. -/
def convertToWrittenValue (tables : SchemaTables) (fieldName : String) (value : PyValue) :
    Except PyError ColumnChange :=
  if tables.jsonFields.contains fieldName then .ok (.json (toJsonable isoformat value))
  else do
    let _ ← getColumn tables fieldName
    return .value (convertToColumnValue value)

/-- The child table of a list whose elements are added and removed one at a time. -/
def getScalarListTable (tables : SchemaTables) (fieldName : String) : Except PyError ListTable :=
  match tables.listTables.lookup fieldName with
  | none => .error (.queryError ("'" ++ fieldName ++ "' is not a list kept in its own table"))
  | some listTable =>
    if listTable.elementModel.isSome then
      .error (.queryError ("'" ++ fieldName ++ "' is a list of models, which is set whole"))
    else .ok listTable

namespace SqlStore

/-- Translate one change of an operator. -/
def translateChange (tables : SchemaTables) (operator : UpdateOperator) (changes : Changes)
    (change : String × PyValue) : Except PyError Changes :=
  let (fieldName, value) := change
  match operator with
  | .set =>
    if (tables.listTables.lookup fieldName).isSome then do
      let items ← iterate value
      return { changes with
        listReplacements :=
          assign fieldName (items.map convertToColumnValue) changes.listReplacements }
    else do
      let written ← convertToWrittenValue isoformat tables fieldName value
      return { changes with values := assign fieldName written changes.values }
  | .setOnInsert => do
    let written ← convertToWrittenValue isoformat tables fieldName value
    return { changes with valuesOnInsert := assign fieldName written changes.valuesOnInsert }
  | .inc => do
    let column ← getColumn tables fieldName
    return { changes with values := assign column (.increment value) changes.values }
  | .addToSet => do
    let _ ← getScalarListTable tables fieldName
    return { changes with
      listAdditions := changes.listAdditions ++ [(fieldName, convertToColumnValue value)] }
  | .pull => do
    let _ ← getScalarListTable tables fieldName
    return { changes with
      listRemovals := changes.listRemovals ++ [(fieldName, convertToColumnValue value)] }

/-- Translate the changes of an operator; one of another name changes nothing. -/
def translateChanges (tables : SchemaTables) (changes : Changes) (entry : String × FieldChanges) :
    Except PyError Changes :=
  match UpdateOperator.ofName entry.1 with
  | none => .ok changes
  | some operator => entry.2.foldlM (translateChange isoformat tables operator) changes

/-- **Translate an update** into column values and child-table writes. -/
def translateUpdate (tables : SchemaTables) (update : Update) : Except PyError Changes :=
  update.foldlM (translateChanges isoformat tables) {}

end SqlStore

end

end Mss
