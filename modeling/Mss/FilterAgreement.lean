import Mss.ColumnConditions

/-!
# SQL agrees with MongoDB's dialect

A filter is translated into a WHERE clause; what it means is MongoDB's. The two agree where the clause
is true of a row exactly if the record of the row matches the filter and has not expired.

* `isOwnCondition`: the filters in question, whose operands are scalars of the named fields.
* `isKeptCondition`: a condition that SQL takes as it is. An `$elemMatch` has to name scalar columns of
  the list's child table, which its translation does not check.
* `yields_translateField`, `yields_translateFilter`: the clause of a condition, and of a filter.
* `kept_of_field`: what a condition that is translated has named.
* **`agrees_where_kept`**: a filter that is not refused agrees where its conditions are kept.
-/

namespace Mss

open Storage

/-! ## The filters in question -/

/-- The scalars a field takes: a list's are those of its elements. -/
def ownType (a : FieldType) : ColumnType :=
  if a.isListField then ((getElementField a).map getColumnType).getD .json else getColumnType a

/-- The scalars that the field of a path takes. -/
def typeAt (schema : Schema) (path : String) : ColumnType :=
  match resolveField schema path with
  | .ok (some a) => ownType a
  | _ => .json

/-- Whether the field is compared with case, and the operands are None or scalars of its own type. -/
def isOwnCondition (schema : Schema) (name : String) (condition : PyValue) : Bool :=
  !schema.storage.caseInsensitive.contains name &&
    match elementFilterOf condition with
    | some entries => entries.all fun entry =>
      hasOwnOperands (typeAt schema (name ++ "." ++ entry.1)) entry.2
    | none => hasOwnOperands (typeAt schema name) condition

/-- Whether a field of an element is a scalar column of the list's child table. -/
def isElementColumn (tables : SchemaTables) (name field : String) : Bool :=
  match (tables.listTables.lookup name).bind ListTable.elementModel with
  | some fields =>
    !field.toList.contains '.' && (fields.lookup field).any fun a => getColumnType a != .json
  | none => true

/-- Whether SQL takes a condition as it is. -/
def isKeptCondition (dialect : SqlDialect) (tables : SchemaTables) (name : String)
    (condition : PyValue) : Bool :=
  (name != rowId || (tables.listTables.lookup name).isSome) &&
    match elementFilterOf condition with
    | some entries => entries.all fun entry =>
      isElementColumn tables name entry.1 && hasKeptOperands dialect entry.2
    | none => hasKeptOperands dialect condition

mutual

/-- Whether every condition of the entry is so. -/
def Entry.all (p : String → PyValue → Bool) : Entry → Bool
  | .logical _ filters => Filter.eachAll p filters
  | .field name condition => p name condition

/-- Whether every condition of the filter is so, however deep it stands. -/
def Filter.all (p : String → PyValue → Bool) : List Entry → Bool
  | [] => true
  | entry :: entries => Entry.all p entry && Filter.all p entries

/-- Whether every condition of every filter is so. -/
def Filter.eachAll (p : String → PyValue → Bool) : List (List Entry) → Bool
  | [] => true
  | filter :: filters => Filter.all p filter && Filter.eachAll p filters

end

/-- **The record has not expired.** -/
def Unexpired (schema : Schema) (now : ℤ) (record : Value Scalar) : Prop :=
  ∀ field ∈ schema.storage.expires, ∀ v ∈ record.reached (pathParts field),
    v = .null ∨ ∃ t, v = .scalar (.datetime t) ∧ now < t

/-- **The SQL filter agrees with the dialect**: it is translated, and whatever rows are stored, its
clause is true of a row exactly if the record of the row matches the filter and has not expired. -/
def Agrees (lower : String → String) (database : SqlDatabase) (tables : SchemaTables) (now : ℤ)
    (filter : Filter) : Prop :=
  ∃ clause, translateFilter lower tables now filter = .ok clause ∧
    ∀ (stored : StoredRows tables), ∀ row ∈ stored.rows,
      clause.eval database stored row = .yes ↔
        Filter.Matches database.same (stored.recordOf row) filter ∧
          Unexpired tables.schema now (stored.recordOf row)

/-- A refusal to translate. -/
def PyError.IsRefusal : PyError → Prop
  | queryError _ => True
  | _ => False

/-! ## Columns -/

section

variable {lower : String → String} {database : SqlDatabase} {tables : SchemaTables}
  {childFields : List String} {name : String}

/-- **The clause means the property** of the rows stored. -/
def Means (database : SqlDatabase) (tables : SchemaTables)
    (holds : StoredRows tables → Row → Prop) (clause : Clause) : Prop :=
  ∀ (stored : StoredRows tables), ∀ row ∈ stored.rows,
    clause.eval database stored row = .yes ↔ holds stored row

theorem yields_getColumn (tables : SchemaTables) (name : String) :
    Yields PyError.IsRefusal (getColumn tables name) fun column =>
      column = name ∧ '.' ∉ name.toList ∧ name ∉ tables.jsonFields ∧
        (tables.columns.lookup name).isSome = true := by
  unfold getColumn
  split
  · trivial
  · split
    · trivial
    · rename_i hplain
      split
      · trivial
      · rename_i hcolumn
        simp only [Bool.or_eq_true, List.contains_iff_mem, not_or] at hplain
        exact .ok ⟨rfl, hplain.1, hplain.2, by simpa using hcolumn⟩

theorem declared_of_column (hof : tables.Of tables.schema childFields) (hid : name ≠ rowId)
    (hjson : name ∉ tables.jsonFields) (hcolumn : (tables.columns.lookup name).isSome = true) :
    ∃ a, tables.schema.declared name = some a ∧ a.isListField = false ∧
      getColumnType a ≠ .json ∧ (name, getColumnType a) ∈ tables.columns := by
  have hlookup := hof.lookup_columns hid
  have hkept := tables.schema.lookup_kept childFields name
  split at hlookup
  · rw [hlookup] at hcolumn
    cases hcolumn
  · rename_i hchild
    rw [if_neg hchild] at hkept
    rw [hlookup, Option.isSome_map] at hcolumn
    obtain ⟨a, ha⟩ := Option.isSome_iff_exists.mp hcolumn
    have hne : getColumnType a ≠ .json := fun h => hjson (hof.json name a (hkept.trans ha) h)
    refine ⟨a, ha, ?_, hne, mem_of_lookup (hlookup.trans (by rw [ha]; rfl))⟩
    exact Bool.not_eq_true _ ▸ fun hlist => hne (getColumnType_of_isListField hlist)

theorem typeAt_declared {schema : Schema} {a : FieldType} (h : schema.declared name = some a)
    (hlist : a.isListField = false) : typeAt schema name = getColumnType a := by
  simp [typeAt, resolveField_declared h, ownType, hlist]

theorem yields_translateColumnCondition (hof : tables.Of tables.schema childFields)
    (hlist : tables.listTables.lookup name = none) (hid : name ≠ rowId) {condition : PyValue}
    (hchecked : ∀ entry ∈ operatorsOf condition, isChecked entry)
    (hcase : tables.schema.storage.caseInsensitive.contains name = false)
    (hown : hasOwnOperands (typeAt tables.schema name) condition = true)
    (hkept : hasKeptOperands database.dialect condition = true) :
    Yields PyError.IsRefusal (translateColumnCondition lower tables name condition)
      (Means database tables fun stored row =>
        ConditionMatches database.same ((stored.recordOf row).candidates (pathParts name))
          condition) := by
  refine (yields_getColumn tables name).bind fun column hcolumn => ?_
  obtain ⟨rfl, hdot, hjson, hcolumn⟩ := hcolumn
  obtain ⟨a, ha, hlistField, hne, hmem⟩ := declared_of_column hof hid hjson hcolumn
  rw [typeAt_declared ha hlistField] at hown
  simp only [hcase]
  refine (yields_getComparisonClause tables lower hne hchecked hown hkept _).mono
    fun clause hclause stored row hrow => ?_
  have hx : Fits (getColumnType a) (row column) := stored.typed row hrow _ hmem
  have hreached := stored.reached_column row hid hlist hcolumn hdot
  have hcandidates : (stored.recordOf row).candidates (pathParts column) = [row column] := by
    unfold Value.candidates
    rw [hreached, List.flatMap_singleton, hx.items hne]
  show clause.eval database stored row = .yes ↔
    ConditionMatches database.same ((stored.recordOf row).candidates (pathParts column)) condition
  rw [hcandidates]
  have hmeans := hclause stored row hx
  rwa [List.forall_mem_singleton] at hmeans

/-! ## Lists of scalars -/

theorem isNone_of_isOwn_json {v : PyValue} (h : isOwn .json v = true) : v.isNone = true := by
  cases v with
  | none => rfl
  | scalar s =>
    have hkind : s.kind = .json := beq_iff_eq.mp h
    cases s <;> cases hkind
  | sequence | dict => cases h

variable {listTable : ListTable} {value : String} {type : ColumnType}
  {stored : StoredRows tables} {row : Row} {items : List PyValue}

/-- **A list holds one of the values** where one of its elements equals one, which is not None. -/
theorem eval_getListMembershipClause (hvalue : listTable.valueColumn = some value)
    (hmodel : listTable.elementModel = none)
    (hchild : ∀ child ∈ stored.childRows name, Fits type (child value) ∧ child value ≠ .null)
    (hown : ∀ v ∈ items, isOwn type v = true)
    (hkept : ∀ v ∈ items, isKept database.dialect v = true) :
    (getListMembershipClause tables name listTable items).eval database stored row = .yes ↔
      ∃ v ∈ items, v.toValue ∈ stored.elementsOf row name listTable := by
  have hknown : (items.filter fun v => !v.isNone).map convertToColumnValue =
      (items.map convertToColumnValue).filter fun v => !v.isNone := by
    rw [List.filter_map]
    simp only [Function.comp_def, isNone_convert]
  have helement : ∀ child : Row, getElement listTable child = child value := by
    intro child
    simp [getElement, hmodel, hvalue]
  have hnull : ∀ v ∈ items, ∀ child ∈ stored.childRows name, v.toValue = child value →
      v.isNone = false := by
    intro v hv child hmem heq
    refine Bool.not_eq_true _ ▸ fun hn => (hchild child hmem).2 ?_
    rw [← heq]
    exact (toValue_eq_null (hown v hv)).mpr hn
  simp only [stored.mem_elementsOf, helement]
  unfold getListMembershipClause
  simp only [hknown]
  by_cases hempty :
      ((items.map convertToColumnValue).filter fun v => !v.isNone).isEmpty = true
  · rw [if_pos hempty]
    refine iff_of_false (by simp [Clause.eval]) ?_
    rintro ⟨v, hv, child, hmem, _, heq⟩
    have hin := mem_known.mpr ⟨v, hv, hnull v hv child hmem heq.symm, rfl⟩
    rw [List.isEmpty_iff.mp hempty] at hin
    cases hin
  · -- a value that is not None has a type, so that the elements have it too
    have ht : type ≠ .json := by
      rintro rfl
      refine hempty (List.isEmpty_iff.mpr (List.eq_nil_iff_forall_not_mem.mpr fun w hw => ?_))
      obtain ⟨v, hv, hn, rfl⟩ := mem_known.mp hw
      rw [isNone_of_isOwn_json (hown v hv)] at hn
      cases hn
    rw [if_neg hempty, existsElement, eval_existsIn]
    simp only [List.forall_mem_singleton, Clause.eval, hvalue, Option.getD_some, read_column]
    constructor
    · rintro ⟨child, hmem, hof, heval⟩
      obtain ⟨v, hv, _, heq⟩ := (isAmong_eq_yes (hchild child hmem).1 ht hown hkept).mp heval
      exact ⟨v, hv, child, hmem, hof, heq.symm⟩
    · rintro ⟨v, hv, child, hmem, hof, heq⟩
      refine ⟨child, hmem, hof, (isAmong_eq_yes (hchild child hmem).1 ht hown hkept).mpr ?_⟩
      exact ⟨v, hv, hnull v hv child hmem heq.symm, heq.symm⟩

theorem eval_not_getListMembershipClause :
    (Clause.not (getListMembershipClause tables name listTable items)).eval database stored row =
        .yes ↔
      (getListMembershipClause tables name listTable items).eval database stored row ≠ .yes := by
  simp only [getListMembershipClause, existsElement]
  split
  · simp [Clause.eval]
  · simp only [Clause.eval, Truth.not_eq_yes, Truth.ofBool_eq_no, ne_eq, Truth.ofBool_eq_yes,
      Bool.not_eq_true]

theorem not_isList {v : PyValue} (hown : isOwn type v = true) : ¬ v.isList = true := by
  cases v with
  | none | scalar => simp [PyValue.isList]
  | sequence | dict => cases hown

theorem toValue_mem_list {v : PyValue} (hown : isOwn type v = true) {elements : List (Value Scalar)} :
    v.toValue ∈ .list elements :: elements ↔ v.toValue ∈ elements := by
  cases v with
  | none | scalar => simp [PyValue.toValue]
  | sequence | dict => cases hown

theorem yields_getListOperatorClause (hvalue : listTable.valueColumn = some value)
    (hmodel : listTable.elementModel = none)
    (hchild : ∀ (stored : StoredRows tables), ∀ child ∈ stored.childRows name,
      Fits type (child value) ∧ child value ≠ .null)
    {operator : String} {operand : PyValue} (hchecked : isChecked (operator, operand))
    (hown : hasOwnOperand type (operator, operand) = true)
    (hkept : hasKeptOperand database.dialect (operator, operand) = true) :
    Yields PyError.IsRefusal (getListOperatorClause tables name listTable operator operand)
      (Means database tables fun stored row =>
        OperatorMatches database.same
          (.list (stored.elementsOf row name listTable) ::
            stored.elementsOf row name listTable) operator operand) := by
  unfold getListOperatorClause OperatorMatches
  unfold isChecked at hchecked
  unfold hasOwnOperand at hown
  unfold hasKeptOperand at hkept
  cases hop : FieldOperator.ofName operator with
  | none => simp [hop] at hchecked
  | some op =>
    simp only [hop] at hchecked hown hkept ⊢
    cases op with
    | eq =>
      -- an operator on a list asks whether a child row of the parent holds the value
      have hown : isOwn type operand = true := hown
      dsimp only
      rw [if_neg (not_isList hown)]
      refine .ok fun stored row hrow => ?_
      rw [eval_getListMembershipClause hvalue hmodel (hchild stored)
        (List.forall_mem_singleton.mpr hown) (List.forall_mem_singleton.mpr hkept)]
      simp only [List.mem_singleton, exists_eq_left]
      exact (toValue_mem_list hown).symm
    | ne =>
      have hown : isOwn type operand = true := hown
      dsimp only
      rw [if_neg (not_isList hown)]
      refine .ok fun stored row hrow => ?_
      rw [eval_not_getListMembershipClause, ne_eq,
        eval_getListMembershipClause hvalue hmodel (hchild stored)
        (List.forall_mem_singleton.mpr hown) (List.forall_mem_singleton.mpr hkept)]
      simp only [List.mem_singleton, exists_eq_left]
      exact not_congr (toValue_mem_list hown).symm
    | «in» =>
      obtain ⟨sequenceType, items, rfl⟩ := hchecked
      have hown : ∀ v ∈ items, isOwn type v = true := List.all_eq_true.mp hown
      have hkept : ∀ v ∈ items, isKept database.dialect v = true := List.all_eq_true.mp hkept
      refine .ok fun stored row hrow => ?_
      rw [eval_getListMembershipClause hvalue hmodel (hchild stored) hown hkept]
      exact exists_congr fun v => and_congr_right fun hv => (toValue_mem_list (hown v hv)).symm
    | nin =>
      obtain ⟨sequenceType, items, rfl⟩ := hchecked
      have hown : ∀ v ∈ items, isOwn type v = true := List.all_eq_true.mp hown
      have hkept : ∀ v ∈ items, isKept database.dialect v = true := List.all_eq_true.mp hkept
      refine .ok fun stored row hrow => ?_
      rw [eval_not_getListMembershipClause, ne_eq,
        eval_getListMembershipClause hvalue hmodel (hchild stored) hown hkept, not_exists]
      simp only [not_and]
      exact forall_congr' fun v => forall_congr' fun hv =>
        not_congr (toValue_mem_list (hown v hv)).symm
    | gt | gte | lt | lte | regex | options => trivial

/-- **The clause of a condition on a list of scalars means the condition.** -/
theorem yields_translateScalarList (hof : tables.Of tables.schema childFields)
    (hlist : tables.listTables.lookup name = some listTable)
    (hmodel : listTable.elementModel = none) {condition : PyValue}
    (hchecked : ∀ entry ∈ operatorsOf condition, isChecked entry)
    (hown : hasOwnOperands (typeAt tables.schema name) condition = true)
    (hkept : hasKeptOperands database.dialect condition = true) :
    Yields PyError.IsRefusal (translateListCondition lower tables name listTable condition)
      (Means database tables fun stored row =>
        ConditionMatches database.same ((stored.recordOf row).candidates (pathParts name))
          condition) := by
  obtain ⟨a, element, ha, hlistField, helement, htable⟩ :=
    getListTable_spec (hof.lookup_listTables hlist).2
  obtain ⟨_, _, _, hmodel', _⟩ | ⟨_, _, value, hvalue, hcolumn⟩ := htable
  · rw [hmodel] at hmodel'
    cases hmodel'
  · have htype : typeAt tables.schema name = getColumnType element := by
      simp [typeAt, resolveField_declared ha, ownType, hlistField, helement]
    rw [htype] at hown
    have hown := List.all_eq_true.mp hown
    have hkept := List.all_eq_true.mp hkept
    have hmem := mem_of_lookup hlist
    have hchild : ∀ (stored : StoredRows tables), ∀ child ∈ stored.childRows name,
        Fits (getColumnType element) (child value) ∧ child value ≠ .null := fun stored child hrow =>
      ⟨stored.childTyped _ hmem child hrow _ hcolumn, stored.childKey _ hmem child hrow _ hvalue⟩
    simp only [translateListCondition, hmodel, Option.isSome_none, Bool.false_eq_true, if_false]
    refine (Yields.mapM fun entry hentry => yields_getListOperatorClause hvalue hmodel hchild
      (hchecked entry hentry) (hown entry hentry) (hkept entry hentry)).bind
      fun clauses hclauses => .ok fun stored row hrow => ?_
    have hcandidates : (stored.recordOf row).candidates (pathParts name) =
        .list (stored.elementsOf row name listTable) :: stored.elementsOf row name listTable := by
      unfold Value.candidates
      rw [stored.reached_list row hof hlist (tables.schema.notMem_dot ha), List.flatMap_singleton]
      rfl
    show (Clause.and clauses).eval database stored row = .yes ↔
      ConditionMatches database.same ((stored.recordOf row).candidates (pathParts name)) condition
    rw [eval_and, hcandidates]
    exact (forall_iff_of_forall₂ hclauses fun entry _ clause hmeans =>
      (hmeans stored row hrow).symm).symm

/-! ## Lists of models -/

theorem elementMatches_getElement {fields : Fields} (hmodel : listTable.elementModel = some fields)
    {child : Row} {entries : List (String × PyValue)}
    (h : ∀ entry ∈ entries, (fields.lookup entry.1).isSome = true ∧ '.' ∉ entry.1.toList ∧
      (child entry.1).items = []) :
    ElementMatches database.same (getElement listTable child) entries ↔
      ∀ entry ∈ entries, ConditionMatches database.same [child entry.1] entry.2 := by
  have helement : getElement listTable child =
      .document (fields.map fun field => (field.1, child field.1)) := by
    simp [getElement, hmodel]
  rw [helement, ElementMatches]
  refine (and_iff_right ⟨_, rfl⟩).trans (forall_congr' fun entry => forall_congr' fun hentry => ?_)
  obtain ⟨hfield, hdot, hitems⟩ := h entry hentry
  obtain ⟨b, hb⟩ := Option.isSome_iff_exists.mp hfield
  have hget : Value.get entry.1 (fields.map fun field => (field.1, child field.1)) =
      child entry.1 := by
    rw [Value.get, lookup_map (fun name _ => child name), hb]
    rfl
  rw [pathParts_name hdot, Value.candidates_field, hget, hitems]

theorem elementColumn_spec (hof : tables.Of tables.schema childFields)
    (hlist : tables.listTables.lookup name = some listTable) {fields : Fields}
    (hmodel : listTable.elementModel = some fields) {field : String}
    (h : isElementColumn tables name field = true) :
    (fields.lookup field).isSome = true ∧ '.' ∉ field.toList ∧
      typeAt tables.schema (name ++ "." ++ field) ≠ .json ∧
      (field, typeAt tables.schema (name ++ "." ++ field)) ∈ listTable.columns := by
  obtain ⟨a, element, ha, hlistField, helement, htable⟩ :=
    getListTable_spec (hof.lookup_listTables hlist).2
  obtain ⟨allowsExtra, fields', hnested, hfields, hcolumns⟩ | ⟨_, hnone, _⟩ := htable
  · obtain rfl : fields' = fields := Option.some.inj (hfields.symm.trans hmodel)
    simp only [isElementColumn, hlist, Option.bind_some, hmodel, Bool.and_eq_true,
      Bool.not_eq_true', Option.any_eq_true] at h
    obtain ⟨hdot, b, hb, hne⟩ := h
    have hne : getColumnType b ≠ .json := by simpa using hne
    have hdot : '.' ∉ field.toList := by simpa using hdot
    have hplain : b.isListField = false :=
      Bool.not_eq_true _ ▸ fun hlist => hne (getColumnType_of_isListField hlist)
    have htype : typeAt tables.schema (name ++ "." ++ field) = getColumnType b := by
      have hresolve := resolveField_nested ha
        (findNestedModel_of_getElementField helement hnested) hb hdot
      simp [typeAt, hresolve, ownType, hplain]
    rw [htype, hb]
    exact ⟨rfl, hdot, hne, hcolumns _ (mem_of_lookup hb)⟩
  · rw [hmodel] at hnone
    cases hnone

/-- **The clause of an `$elemMatch` means it**, where it names scalar columns. -/
theorem yields_getElementMatchClause (hof : tables.Of tables.schema childFields)
    (hlist : tables.listTables.lookup name = some listTable) {fields : Fields}
    (hmodel : listTable.elementModel = some fields) {entries : List (String × PyValue)}
    (hchecked : ∀ entry ∈ entries, ∀ operator ∈ operatorsOf entry.2, isChecked operator)
    (hown : ∀ entry ∈ entries,
      hasOwnOperands (typeAt tables.schema (name ++ "." ++ entry.1)) entry.2 = true)
    (hkept : ∀ entry ∈ entries, isElementColumn tables name entry.1 = true ∧
      hasKeptOperands database.dialect entry.2 = true) :
    Yields PyError.IsRefusal (getElementMatchClause lower tables name listTable (.dict entries))
      (Means database tables fun stored row =>
        ∃ list ∈ (stored.recordOf row).reached (pathParts name), ∃ element ∈ list.items,
          ElementMatches database.same element entries) := by
  have hcolumn := fun entry hentry =>
    elementColumn_spec hof hlist hmodel (hkept entry hentry).1
  obtain ⟨a, _, ha, _⟩ := getListTable_spec (hof.lookup_listTables hlist).2
  have hmem := mem_of_lookup hlist
  have hclause : ∀ entry ∈ entries, Yields PyError.IsRefusal
      (getElementFieldClause lower listTable entry) fun clause =>
        MeanAt database tables entry.1 (typeAt tables.schema (name ++ "." ++ entry.1))
          (fun x => ConditionMatches database.same [x] entry.2) [clause] := by
    intro entry hentry
    obtain ⟨_, _, ht, hin⟩ := hcolumn entry hentry
    have hsome : (listTable.columns.lookup entry.1).isSome = true :=
      List.lookup_isSome_iff.mpr ⟨_, hin, beq_self_eq_true _⟩
    rw [getElementFieldClause, if_neg (by simpa using hsome)]
    exact yields_getComparisonClause tables lower ht (hchecked entry hentry) (hown entry hentry)
      (hkept entry hentry).2 _
  refine (Yields.mapM hclause).bind fun conditions hconditions => .ok fun stored row hrow => ?_
  rw [existsElement, eval_existsIn]
  -- the conditions, at a child row, are those of its element
  have helement : ∀ child ∈ stored.childRows name,
      ((∀ clause ∈ conditions, clause.eval database stored child = .yes) ↔
        ElementMatches database.same (getElement listTable child) entries) := by
    intro child hchild
    have hfits : ∀ entry ∈ entries,
        Fits (typeAt tables.schema (name ++ "." ++ entry.1)) (child entry.1) :=
      fun entry hentry => stored.childTyped _ hmem child hchild _ (hcolumn entry hentry).2.2.2
    rw [elementMatches_getElement hmodel fun entry hentry =>
      ⟨(hcolumn entry hentry).1, (hcolumn entry hentry).2.1,
        (hfits entry hentry).items (hcolumn entry hentry).2.2.1⟩]
    refine (forall_iff_of_forall₂ hconditions fun entry hentry clause hmean => ?_).symm
    have hmean := hmean stored child (hfits entry hentry)
    rw [List.forall_mem_singleton] at hmean
    exact hmean.symm
  simp only [stored.reached_list row hof hlist (tables.schema.notMem_dot ha), List.mem_singleton,
    exists_eq_left, Value.items, stored.mem_elementsOf]
  constructor
  · rintro ⟨child, hchild, hparent, hconds⟩
    exact ⟨_, ⟨child, hchild, hparent, rfl⟩, (helement child hchild).mp hconds⟩
  · rintro ⟨_, ⟨child, hchild, hparent, rfl⟩, hmatches⟩
    exact ⟨child, hchild, hparent, (helement child hchild).mpr hmatches⟩

/-! ## Fields -/

theorem yields_elementMatch_column (hof : tables.Of tables.schema childFields) (hid : name ≠ rowId)
    {fieldInfo : Option FieldType} (hresolve : resolveField tables.schema name = .ok fieldInfo)
    (hmodels : isModelList fieldInfo = true) (condition : PyValue) (p : Clause → Prop) :
    Yields PyError.IsRefusal (translateColumnCondition lower tables name condition) p := by
  refine (yields_getColumn tables name).bind fun column hcolumn => ?_
  obtain ⟨_, _, hjson, hcolumn⟩ := hcolumn
  obtain ⟨a, ha, hlist, _⟩ := declared_of_column hof hid hjson hcolumn
  rw [resolveField_declared ha] at hresolve
  obtain rfl := Except.ok.inj hresolve
  rw [isModelList, hlist] at hmodels
  cases hmodels

theorem yields_elementMatch_scalars (hmodel : listTable.elementModel = none)
    (elementFilter : PyValue) (p : Clause → Prop) :
    Yields PyError.IsRefusal (translateListCondition lower tables name listTable
      (.dict [(elementMatch, elementFilter)])) p := by
  simp only [translateListCondition, hmodel, operatorsOf_elementMatch, Option.isSome_none,
    Bool.false_eq_true, if_false, List.mapM_cons]
  rw [getListOperatorClause, ofName_elementMatch]
  trivial

theorem yields_operators_models {fields : Fields} (hmodel : listTable.elementModel = some fields)
    {condition : PyValue} (hchecked : ∀ entry ∈ operatorsOf condition, isChecked entry)
    (p : Clause → Prop) :
    Yields PyError.IsRefusal (translateListCondition lower tables name listTable condition) p := by
  simp only [translateListCondition, hmodel, Option.isSome_some, if_true]
  split
  · rename_i key elementFilter hoperators
    split
    · rename_i hkey
      have hop := hchecked (key, elementFilter) (hoperators ▸ List.mem_cons_self)
      rw [hkey] at hop
      simp [isChecked, ofName_elementMatch] at hop
    · trivial
  · trivial

/-- **The clause of a condition on a field means the condition.** -/
theorem yields_translateField (hof : tables.Of tables.schema childFields) {condition : PyValue}
    (hcheck : checkField tables.schema name condition = .ok ⟨⟩)
    (hown : isOwnCondition tables.schema name condition = true)
    (hkept : isKeptCondition database.dialect tables name condition = true) :
    Yields PyError.IsRefusal (translateField lower tables name condition)
      (Means database tables fun stored row =>
        FieldMatches database.same (stored.recordOf row) name condition) := by
  obtain ⟨hcase, hown⟩ := Bool.and_eq_true_iff.mp hown
  obtain ⟨hid, hkept⟩ := Bool.and_eq_true_iff.mp hkept
  unfold translateField FieldMatches
  cases hlist : tables.listTables.lookup name with
  | none =>
    have hid : name ≠ rowId := by simpa [hlist] using hid
    obtain ⟨entries, fieldInfo, hfilter, hresolve, hmodels, _⟩ | ⟨hfilter, hchecked⟩ :=
      checkField_spec hcheck
    · exact yields_elementMatch_column hof hid hresolve hmodels _ _
    · simp only [hfilter] at hown hkept ⊢
      exact yields_translateColumnCondition hof hlist hid hchecked (by simpa using hcase) hown hkept
  | some listTable =>
    obtain ⟨entries, fieldInfo, hfilter, _, _, hchecked⟩ | ⟨hfilter, hchecked⟩ :=
      checkField_spec hcheck
    · cases hmodel : listTable.elementModel with
      | none =>
        rw [eq_of_elementFilterOf hfilter]
        exact yields_elementMatch_scalars hmodel _ _
      | some fields =>
        simp only [hfilter] at hown hkept ⊢
        have hown := List.all_eq_true.mp hown
        have hkept := fun entry hentry =>
          Bool.and_eq_true_iff.mp (List.all_eq_true.mp hkept entry hentry)
        have htranslate : translateListCondition lower tables name listTable condition =
            getElementMatchClause lower tables name listTable (.dict entries) := by
          rw [eq_of_elementFilterOf hfilter]
          simp [translateListCondition, hmodel, operatorsOf_elementMatch]
        simp only [htranslate]
        exact yields_getElementMatchClause hof hlist hmodel hchecked hown hkept
    · cases hmodel : listTable.elementModel with
      | none =>
        simp only [hfilter] at hown hkept ⊢
        exact yields_translateScalarList hof hlist hmodel hchecked hown hkept
      | some fields => exact yields_operators_models hmodel hchecked _

/-! ## Filters -/

/-- The clauses of a filter's entries mean the filter. -/
def MeanFilter (database : SqlDatabase) (tables : SchemaTables) (filter : List Entry)
    (clauses : List Clause) : Prop :=
  ∀ (stored : StoredRows tables), ∀ row ∈ stored.rows,
    ((∀ clause ∈ clauses, clause.eval database stored row = .yes) ↔
      Filter.Matches database.same (stored.recordOf row) filter)

/-- The clauses of filters mean the filters, all together and any of them. -/
def MeanFilters (database : SqlDatabase) (tables : SchemaTables) (filters : List (List Entry))
    (clauses : List Clause) : Prop :=
  ∀ (stored : StoredRows tables), ∀ row ∈ stored.rows,
    ((∀ clause ∈ clauses, clause.eval database stored row = .yes) ↔
      Filter.AllMatch database.same (stored.recordOf row) filters) ∧
    ((∃ clause ∈ clauses, clause.eval database stored row = .yes) ↔
      Filter.AnyMatches database.same (stored.recordOf row) filters)

theorem MeanFilter.cons {entry : Entry} {entries : List Entry} {clause : Clause}
    {clauses : List Clause}
    (h : Means database tables (fun stored row =>
      entry.Matches database.same (stored.recordOf row)) clause)
    (hs : MeanFilter database tables entries clauses) :
    MeanFilter database tables (entry :: entries) (clause :: clauses) := by
  intro stored row hrow
  rw [List.forall_mem_cons, Filter.Matches]
  exact and_congr (h stored row hrow) (hs stored row hrow)

theorem eval_conditions {clauses : List Clause} :
    (Clause.and (.always :: clauses)).eval database stored row = .yes ↔
      ∀ clause ∈ clauses, clause.eval database stored row = .yes := by
  rw [eval_and, List.forall_mem_cons]
  exact and_iff_right rfl

theorem MeanFilters.cons {filter : List Entry} {filters : List (List Entry)}
    {clauses items : List Clause} (h : MeanFilter database tables filter clauses)
    (hs : MeanFilters database tables filters items) :
    MeanFilters database tables (filter :: filters) (.and (.always :: clauses) :: items) := by
  intro stored row hrow
  obtain ⟨hall, hany⟩ := hs stored row hrow
  have hfilter : (Clause.and (.always :: clauses)).eval database stored row = .yes ↔
      Filter.Matches database.same (stored.recordOf row) filter :=
    eval_conditions.trans (h stored row hrow)
  constructor
  · rw [List.forall_mem_cons, Filter.AllMatch]
    exact and_congr hfilter hall
  · rw [List.exists_mem_cons_iff, Filter.AnyMatches]
    exact or_congr hfilter hany

theorem checkFilters_of_logical {schema : Schema} {operator : LogicalOperator}
    {filters : List (List Entry)} (h : checkEntry schema (.logical operator filters) = .ok ⟨⟩) :
    checkFilters schema filters = .ok ⟨⟩ := by
  rw [checkEntry] at h
  split at h
  · cases h
  · exact h

mutual

theorem yields_translateEntry (hof : tables.Of tables.schema childFields) : ∀ entry : Entry,
    checkEntry tables.schema entry = .ok ⟨⟩ →
    Entry.all (isOwnCondition tables.schema) entry = true →
    Entry.all (isKeptCondition database.dialect tables) entry = true →
    Yields PyError.IsRefusal (translateEntry lower tables entry)
      (Means database tables fun stored row =>
        entry.Matches database.same (stored.recordOf row))
  | .field name condition, hcheck, hown, hkept =>
    yields_translateField hof hcheck hown hkept
  | .logical operator filters, hcheck, hown, hkept => by
    have hcheck : checkFilters tables.schema filters = .ok ⟨⟩ := checkFilters_of_logical hcheck
    have hitems := yields_translateItems hof filters hcheck hown hkept
    cases operator with
    | and =>
      refine hitems.map fun clauses hclauses stored row hrow => ?_
      show (Clause.and clauses).eval database stored row = .yes ↔
        Entry.Matches database.same (stored.recordOf row) (.logical .and filters)
      rw [eval_and, Entry.Matches]
      exact (hclauses stored row hrow).1
    | or =>
      refine hitems.map fun clauses hclauses stored row hrow => ?_
      show (Clause.or clauses).eval database stored row = .yes ↔
        Entry.Matches database.same (stored.recordOf row) (.logical .or filters)
      rw [eval_or, Entry.Matches]
      exact (hclauses stored row hrow).2

theorem yields_translateEntries (hof : tables.Of tables.schema childFields) :
    ∀ filter : List Entry, checkFilter tables.schema filter = .ok ⟨⟩ →
    Filter.all (isOwnCondition tables.schema) filter = true →
    Filter.all (isKeptCondition database.dialect tables) filter = true →
    Yields PyError.IsRefusal (translateEntries lower tables filter)
      (MeanFilter database tables filter)
  | [], _, _, _ => .ok fun stored row hrow => by simp [Filter.Matches]
  | entry :: entries, hcheck, hown, hkept => by
    obtain ⟨hown, howns⟩ := Bool.and_eq_true_iff.mp hown
    obtain ⟨hkept, hkepts⟩ := Bool.and_eq_true_iff.mp hkept
    obtain ⟨_, hentry, hcheck⟩ := bind_ok hcheck
    rw [translateEntries]
    exact (yields_translateEntry hof entry hentry hown hkept).bind fun clause hclause =>
      (yields_translateEntries hof entries hcheck howns hkepts).bind fun clauses hclauses =>
        .ok (MeanFilter.cons hclause hclauses)

theorem yields_translateItems (hof : tables.Of tables.schema childFields) :
    ∀ filters : List (List Entry), checkFilters tables.schema filters = .ok ⟨⟩ →
    Filter.eachAll (isOwnCondition tables.schema) filters = true →
    Filter.eachAll (isKeptCondition database.dialect tables) filters = true →
    Yields PyError.IsRefusal (translateItems lower tables filters)
      (MeanFilters database tables filters)
  | [], _, _, _ => .ok fun stored row hrow => by simp [Filter.AllMatch, Filter.AnyMatches]
  | filter :: filters, hcheck, hown, hkept => by
    obtain ⟨hown, howns⟩ := Bool.and_eq_true_iff.mp hown
    obtain ⟨hkept, hkepts⟩ := Bool.and_eq_true_iff.mp hkept
    obtain ⟨_, hfilter, hcheck⟩ := bind_ok hcheck
    rw [translateItems]
    exact (yields_translateEntries hof filter hfilter hown hkept).bind fun clauses hclauses =>
      (yields_translateItems hof filters hcheck howns hkepts).bind fun items hitems =>
        .ok (MeanFilters.cons hclauses hitems)

end

/-! ## Expiry -/

theorem expires_column (hof : tables.Of tables.schema childFields) {field : String}
    (hfield : tables.schema.storage.expires = some field) :
    field ≠ rowId ∧ tables.listTables.lookup field = none ∧
      (tables.columns.lookup field).isSome = true ∧ '.' ∉ field.toList ∧
      (field, .dateTime) ∈ tables.columns := by
  obtain ⟨a, ha, htype⟩ := Option.map_eq_some_iff.mp (tables.schema.expiresAt field hfield)
  have hlist : tables.listTables.lookup field = none := by
    by_contra hne
    obtain ⟨listTable, hlist⟩ := Option.ne_none_iff_exists'.mp hne
    obtain ⟨b, _, hb, hlistField, _⟩ := getListTable_spec (hof.lookup_listTables hlist).2
    obtain rfl : a = b := Option.some.inj (ha.symm.trans hb)
    rw [getColumnType_of_isListField hlistField] at htype
    cases htype
  have hkept : (tables.schema.kept childFields).lookup field = some a := by
    rw [tables.schema.lookup_kept, if_neg (hof.notMem_childFields hlist), ha]
  have hmem : (field, ColumnType.dateTime) ∈ (tables.schema.kept childFields).map columnOf :=
    List.mem_map.mpr ⟨_, mem_of_lookup hkept, by rw [columnOf, htype]⟩
  refine ⟨?_, hlist, hof.expires field hfield, tables.schema.notMem_dot ha, ?_⟩
  · -- a second column of that name would make no table
    rintro rfl
    have hnodup := hof.nodup
    rw [hof.columns_eq, List.map_cons, List.nodup_cons] at hnodup
    exact hnodup.1 (List.mem_map.mpr ⟨_, hmem, rfl⟩)
  · rw [hof.columns_eq]
    exact List.mem_cons_of_mem _ hmem

/-- **The clause of expiry** is true of the rows whose records have not expired. -/
theorem eval_expires (hof : tables.Of tables.schema childFields) {field : String}
    (hfield : tables.schema.storage.expires = some field) {now : ℤ} (hrow : row ∈ stored.rows) :
    (Clause.or [.isNull ⟨field, false⟩,
        .compare .gt ⟨field, false⟩ (.scalar (.datetime now (some 0)))]).eval database stored row =
        .yes ↔ Unexpired tables.schema now (stored.recordOf row) := by
  obtain ⟨hid, hlist, hcolumn, hdot, hmem⟩ := expires_column hof hfield
  have hx : Fits .dateTime (row field) := stored.typed row hrow _ hmem
  have hlater : database.compare .gt (row field) (.scalar (.datetime now (some 0))) = .yes ↔
      ∃ t, row field = .scalar (.datetime t) ∧ now < t := by
    obtain hnull | ⟨a, ha, hkind⟩ := hx.cases (by decide)
    · simp [hnull, compare_null]
    · cases a with
      | datetime t =>
        have hnow : isKept database.dialect (.scalar (.datetime now (some 0))) = true := by
          simp [isKept]
        have hcompare : database.compare .gt (.scalar (.datetime t))
            (.scalar (.datetime now (some 0))) =
            .ofBool (Comparison.gt.test (.datetime t) (.datetime (now - 0))) :=
          compare_scalar .gt (a := .datetime t) rfl hnow
        rw [ha, hcompare]
        simp [Comparison.test, Scalar.lt]
      | bool | int | float | text => cases hkind
  rw [eval_or]
  simp only [List.mem_cons, List.not_mem_nil, or_false, exists_eq_or_imp, exists_eq_left,
    eval_isNull, eval_compare, hlater]
  unfold Unexpired
  rw [hfield]
  simp only [Option.mem_def, Option.some.injEq, forall_eq', stored.reached_column row hid hlist
    hcolumn hdot, List.mem_singleton, forall_eq]

/-- **The WHERE clause means the filter**, on the records that have not expired. -/
theorem yields_translateFilter (hof : tables.Of tables.schema childFields) (now : ℤ)
    {filter : Filter} (hcheck : checkFilter tables.schema filter = .ok ⟨⟩)
    (hown : Filter.all (isOwnCondition tables.schema) filter = true)
    (hkept : Filter.all (isKeptCondition database.dialect tables) filter = true) :
    Yields PyError.IsRefusal (translateFilter lower tables now filter)
      (Means database tables fun stored row =>
        Filter.Matches database.same (stored.recordOf row) filter ∧
          Unexpired tables.schema now (stored.recordOf row)) := by
  have hconditions : Yields PyError.IsRefusal (translateConditions lower tables filter)
      (Means database tables fun stored row =>
        Filter.Matches database.same (stored.recordOf row) filter) :=
    (yields_translateEntries hof filter hcheck hown hkept).bind fun clauses hclauses =>
      .ok fun stored row hrow => eval_conditions.trans (hclauses stored row hrow)
  refine hconditions.bind fun clause hclause => ?_
  cases hfield : tables.schema.storage.expires with
  | none =>
    refine .ok fun stored row hrow => ?_
    rw [eval_and, List.forall_mem_singleton, hclause stored row hrow]
    exact (and_iff_left fun field hmem => by simp [hfield] at hmem).symm
  | some field =>
    have hcolumn : ¬ (tables.columns.lookup field).isNone = true := by
      have hsome := hof.expires field hfield
      simpa using Option.isSome_iff_ne_none.mp hsome
    dsimp only
    rw [if_neg hcolumn]
    refine .ok fun stored row hrow => ?_
    rw [eval_and, List.forall_mem_cons, List.forall_mem_singleton, hclause stored row hrow,
      eval_expires hof hfield hrow]

end

/-! ## What a translation has named -/

/-- Whether the operator orders no Boolean. -/
def isOrdered (entry : String × PyValue) : Bool :=
  match FieldOperator.ofName entry.1 with
  | some .gt | some .gte | some .lt | some .lte => !entry.2.isBool
  | _ => true

/-- Whether a database of the dialect gets an operator's operands as they are, if it gets them. -/
def isSentOperand (dialect : SqlDialect) (entry : String × PyValue) : Bool :=
  match FieldOperator.ofName entry.1 with
  | some .in | some .nin => entry.2.items.all (isKept dialect)
  | _ => isKept dialect entry.2

/-- Whether a database of the dialect gets a condition's operands as they are, if it gets them. -/
def hasSentOperands (dialect : SqlDialect) (condition : PyValue) : Bool :=
  (operatorsOf condition).all (isSentOperand dialect)

/-- Whether the list's child table has a column of the name. -/
def isChildColumn (tables : SchemaTables) (name field : String) : Bool :=
  (tables.listTables.lookup name).any fun listTable => (listTable.columns.lookup field).isSome

/-- Whether SQL takes a condition as it is, or its translation raises. -/
def isQuietCondition (dialect : SqlDialect) (tables : SchemaTables) (name : String)
    (condition : PyValue) : Bool :=
  (name != rowId || (tables.listTables.lookup name).isSome) &&
    match elementFilterOf condition with
    | some entries => entries.all fun entry =>
      (isElementColumn tables name entry.1 || !isChildColumn tables name entry.1) &&
        hasSentOperands dialect entry.2
    | none => hasSentOperands dialect condition

section

variable {lower : String → String} {database : SqlDatabase} {tables : SchemaTables}
  {childFields : List String} {name : String}

theorem hasKeptOperands_of_sent {dialect : SqlDialect} {condition : PyValue}
    (hsent : hasSentOperands dialect condition = true)
    (hordered : (operatorsOf condition).all isOrdered = true) :
    hasKeptOperands dialect condition = true := by
  refine List.all_eq_true.mpr fun entry hentry => ?_
  have hsent := List.all_eq_true.mp hsent entry hentry
  have hordered := List.all_eq_true.mp hordered entry hentry
  unfold isSentOperand at hsent
  unfold isOrdered at hordered
  unfold hasKeptOperand
  cases hop : FieldOperator.ofName entry.1 with
  | none => simpa [hop] using hsent
  | some op =>
    simp only [hop] at hsent hordered ⊢
    cases op with
    | gt | gte | lt | lte => exact Bool.and_eq_true_iff.mpr ⟨hsent, hordered⟩
    | eq | ne | «in» | nin | regex | options => exact hsent

theorem isOrdered_of_ok {column : Column} {isCaseInsensitive : Bool} {entry : String × PyValue}
    {clauses : List Clause}
    (h : getOperatorClauses lower column isCaseInsensitive entry.1 entry.2 = .ok clauses) :
    isOrdered entry = true := by
  have horder : ∀ comparison, getOrderClause comparison column
      (convertOperand lower isCaseInsensitive entry.2) = .ok clauses →
      (!entry.2.isBool) = true := by
    intro comparison h
    cases hv : entry.2 with
    | scalar s =>
      cases s with
      | bool =>
        rw [hv] at h
        cases h
      | int | float | str | datetime | intEnum | strEnum | uuid | path => rfl
    | none | sequence | dict => rfl
  unfold getOperatorClauses at h
  unfold isOrdered
  cases hop : FieldOperator.ofName entry.1 with
  | none => rfl
  | some op =>
    simp only [hop] at h
    cases op with
    | gt => exact horder _ h
    | gte => exact horder _ h
    | lt => exact horder _ h
    | lte => exact horder _ h
    | eq | ne | «in» | nin | regex | options => rfl

theorem ordered_of_comparison {column : Column} {isCaseInsensitive : Bool} {condition : PyValue}
    {clause : Clause}
    (h : getComparisonClause lower column condition isCaseInsensitive = .ok clause) :
    (operatorsOf condition).all isOrdered = true := by
  obtain ⟨_, hclauses, _⟩ := bind_ok h
  refine List.all_eq_true.mpr fun entry hentry => ?_
  obtain ⟨_, hentry⟩ := mapM_ok hclauses entry hentry
  exact isOrdered_of_ok hentry

theorem kept_of_elementField {listTable : ListTable} {dialect : SqlDialect}
    (hlist : tables.listTables.lookup name = some listTable) {entry : String × PyValue}
    {clause : Clause} (h : getElementFieldClause lower listTable entry = .ok clause)
    (hquiet : ((isElementColumn tables name entry.1 || !isChildColumn tables name entry.1) &&
      hasSentOperands dialect entry.2) = true) :
    (isElementColumn tables name entry.1 && hasKeptOperands dialect entry.2) = true := by
  obtain ⟨hcolumn, hsent⟩ := Bool.and_eq_true_iff.mp hquiet
  rw [getElementFieldClause] at h
  split at h
  · cases h
  · rename_i hsome
    have hchild : isChildColumn tables name entry.1 = true := by
      rw [isChildColumn, hlist, Option.any_some]
      simpa using hsome
    rw [hchild, Bool.not_true, Bool.or_false] at hcolumn
    exact Bool.and_eq_true_iff.mpr
      ⟨hcolumn, hasKeptOperands_of_sent hsent (ordered_of_comparison h)⟩

theorem ordered_of_listOperator {listTable : ListTable} {entry : String × PyValue} {clause : Clause}
    (h : getListOperatorClause tables name listTable entry.1 entry.2 = .ok clause) :
    isOrdered entry = true := by
  unfold getListOperatorClause at h
  unfold isOrdered
  cases hop : FieldOperator.ofName entry.1 with
  | none => rfl
  | some op =>
    simp only [hop] at h
    cases op with
    | gt | gte | lt | lte => cases h
    | eq | ne | «in» | nin | regex | options => rfl

theorem ordered_of_list {listTable : ListTable} {condition : PyValue} {clause : Clause}
    (h : translateListCondition lower tables name listTable condition = .ok clause) :
    (operatorsOf condition).all isOrdered = true := by
  simp only [translateListCondition] at h
  split at h
  · split at h
    · rename_i key elementFilter hoperators
      split at h
      · rename_i hkey
        rw [hoperators, List.all_eq_true, List.forall_mem_singleton, isOrdered, hkey,
          ofName_elementMatch]
      · cases h
    · cases h
  · obtain ⟨_, hclauses, _⟩ := bind_ok h
    refine List.all_eq_true.mpr fun entry hentry => ?_
    obtain ⟨_, hentry⟩ := mapM_ok hclauses entry hentry
    exact ordered_of_listOperator hentry

/-- **A quiet condition that is translated** is one that SQL takes as it is. -/
theorem kept_of_field (hof : tables.Of tables.schema childFields) {dialect : SqlDialect}
    {condition : PyValue} (hcheck : checkField tables.schema name condition = .ok ⟨⟩)
    (hquiet : isQuietCondition dialect tables name condition = true) {clause : Clause}
    (h : translateField lower tables name condition = .ok clause) :
    isKeptCondition dialect tables name condition = true := by
  obtain ⟨hid, hquiet⟩ := Bool.and_eq_true_iff.mp hquiet
  refine Bool.and_eq_true_iff.mpr ⟨hid, ?_⟩
  unfold translateField at h
  cases hlist : tables.listTables.lookup name with
  | none =>
    simp only [hlist] at h
    have hid : name ≠ rowId := by simpa [hlist] using hid
    obtain ⟨entries, fieldInfo, _, hresolve, hmodels, _⟩ | ⟨hfilter, _⟩ := checkField_spec hcheck
    · have hrefused : Yields PyError.IsRefusal
          (translateColumnCondition lower tables name condition) fun _ => False :=
        yields_elementMatch_column hof hid hresolve hmodels condition _
      rw [h] at hrefused
      exact hrefused.elim
    · simp only [hfilter] at hquiet ⊢
      obtain ⟨_, _, h⟩ := bind_ok h
      exact hasKeptOperands_of_sent hquiet (ordered_of_comparison h)
  | some listTable =>
    simp only [hlist] at h
    cases hfilter : elementFilterOf condition with
    | none =>
      simp only [hfilter] at hquiet ⊢
      exact hasKeptOperands_of_sent hquiet (ordered_of_list h)
    | some entries =>
      simp only [hfilter] at hquiet ⊢
      rw [eq_of_elementFilterOf hfilter] at h
      cases hmodel : listTable.elementModel with
      | none =>
        have hrefused : Yields PyError.IsRefusal (translateListCondition lower tables name listTable
            (.dict [(elementMatch, .dict entries)])) fun _ => False :=
          yields_elementMatch_scalars hmodel _ _
        rw [h] at hrefused
        exact hrefused.elim
      | some fields =>
        simp only [translateListCondition, hmodel, Option.isSome_some, if_true,
          operatorsOf_elementMatch, getElementMatchClause] at h
        obtain ⟨_, hconditions, _⟩ := bind_ok h
        refine List.all_eq_true.mpr fun entry hentry => ?_
        obtain ⟨_, hclause⟩ := mapM_ok hconditions entry hentry
        exact kept_of_elementField hlist hclause (List.all_eq_true.mp hquiet entry hentry)

mutual

theorem kept_of_entry (hof : tables.Of tables.schema childFields) {dialect : SqlDialect} :
    ∀ (entry : Entry) (clause : Clause), checkEntry tables.schema entry = .ok ⟨⟩ →
    Entry.all (isQuietCondition dialect tables) entry = true →
    translateEntry lower tables entry = .ok clause →
    Entry.all (isKeptCondition dialect tables) entry = true
  | .field _ _, _, hcheck, hquiet, h => kept_of_field hof hcheck hquiet h
  | .logical operator filters, _, hcheck, hquiet, h => by
    have hcheck : checkFilters tables.schema filters = .ok ⟨⟩ := checkFilters_of_logical hcheck
    have hitems : ∃ items, translateItems lower tables filters = .ok items := by
      cases operator with
      | and => exact map_ok h
      | or => exact map_ok h
    obtain ⟨items, hitems⟩ := hitems
    exact kept_of_items hof filters items hcheck hquiet hitems

theorem kept_of_entries (hof : tables.Of tables.schema childFields) {dialect : SqlDialect} :
    ∀ (filter : List Entry) (clauses : List Clause), checkFilter tables.schema filter = .ok ⟨⟩ →
    Filter.all (isQuietCondition dialect tables) filter = true →
    translateEntries lower tables filter = .ok clauses →
    Filter.all (isKeptCondition dialect tables) filter = true
  | [], _, _, _, _ => rfl
  | entry :: entries, _, hcheck, hquiet, h => by
    obtain ⟨hquiet, hquiets⟩ := Bool.and_eq_true_iff.mp hquiet
    obtain ⟨_, hentryCheck, hcheck⟩ := bind_ok hcheck
    rw [translateEntries] at h
    obtain ⟨clause, hentry, h⟩ := bind_ok h
    obtain ⟨clauses, hentries, _⟩ := bind_ok h
    exact Bool.and_eq_true_iff.mpr ⟨kept_of_entry hof entry clause hentryCheck hquiet hentry,
      kept_of_entries hof entries clauses hcheck hquiets hentries⟩

theorem kept_of_items (hof : tables.Of tables.schema childFields) {dialect : SqlDialect} :
    ∀ (filters : List (List Entry)) (items : List Clause),
    checkFilters tables.schema filters = .ok ⟨⟩ →
    Filter.eachAll (isQuietCondition dialect tables) filters = true →
    translateItems lower tables filters = .ok items →
    Filter.eachAll (isKeptCondition dialect tables) filters = true
  | [], _, _, _, _ => rfl
  | filter :: filters, _, hcheck, hquiet, h => by
    obtain ⟨hquiet, hquiets⟩ := Bool.and_eq_true_iff.mp hquiet
    obtain ⟨_, hfilterCheck, hcheck⟩ := bind_ok hcheck
    rw [translateItems] at h
    obtain ⟨clauses, hfilter, h⟩ := bind_ok h
    obtain ⟨items, hitems, _⟩ := bind_ok h
    exact Bool.and_eq_true_iff.mpr ⟨kept_of_entries hof filter clauses hfilterCheck hquiet hfilter,
      kept_of_items hof filters items hcheck hquiets hitems⟩

end

end

/-! ## Agreement -/

/-- **A filter of kept conditions agrees**, unless its translation refuses it. -/
theorem agrees_of_kept {lower : String → String} {database : SqlDatabase} {schema : Schema}
    {tables : SchemaTables} {now : ℤ} {filter : Filter} (htables : getTablesOf schema = some tables)
    (hcheck : checkFilter schema filter = .ok ⟨⟩)
    (hown : Filter.all (isOwnCondition schema) filter = true)
    (hrefused : ∀ message, translateFilter lower tables now filter ≠ .error (.queryError message))
    (hkept : Filter.all (isKeptCondition database.dialect tables) filter = true) :
    Agrees lower database tables now filter := by
  obtain ⟨childFields, hof⟩ := getTablesOf_spec htables
  obtain rfl := hof.schema_eq
  refine (yields_translateFilter hof now hcheck hown hkept).exists_ok fun e he => ?_
  cases e with
  | queryError message => exact hrefused message
  | keyError | argumentError | typeError | attributeError => cases he

/-- **The SQL filter agrees where its conditions are kept**, and where they are quiet, only there. -/
theorem agrees_where_kept {lower : String → String} {database : SqlDatabase} {schema : Schema}
    {tables : SchemaTables} {now : ℤ} {filter : Filter} (htables : getTablesOf schema = some tables)
    (hcheck : checkFilter schema filter = .ok ⟨⟩)
    (hown : Filter.all (isOwnCondition schema) filter = true)
    (hrefused : ∀ message,
      translateFilter lower tables now filter ≠ .error (.queryError message)) :
    (Filter.all (isKeptCondition database.dialect tables) filter = true →
      Agrees lower database tables now filter) ∧
    (Filter.all (isQuietCondition database.dialect tables) filter = true →
      Agrees lower database tables now filter →
      Filter.all (isKeptCondition database.dialect tables) filter = true) := by
  refine ⟨agrees_of_kept htables hcheck hown hrefused, fun hquiet hagrees => ?_⟩
  obtain ⟨childFields, hof⟩ := getTablesOf_spec htables
  obtain rfl := hof.schema_eq
  obtain ⟨clause, hclause, _⟩ := hagrees
  obtain ⟨_, hconditions, _⟩ := bind_ok hclause
  obtain ⟨clauses, hentries, _⟩ := bind_ok hconditions
  exact kept_of_entries hof filter clauses hcheck hquiet hentries

/-- A schema whose records hold accounts, each with a profile. -/
def memberSchema : Schema where
  name := "_Member"
  fields := [("id", .scalar .id), ("accounts", .generic .list [.model false [
    ("id", .scalar .id), ("provider", .scalar .str), ("account_id", .scalar .str),
    ("expires_at", .generic .union [.scalar .int, .noneType]),
    ("profile", .model false [("login", .scalar .str)])]])]
  allowsExtra := false
  storage := { table := "members", key := "id", indexedLists := ["accounts"] }
  undotted := by decide
  expiresAt := by decide

/-- The tables of the members. -/
def memberTables : SchemaTables := (getTablesOf memberSchema).get (by decide +kernel)

/-- SQLite, in which a column of another type is not compared. -/
def sqlite : SqlDatabase where
  dialect := .sqlite
  lower := String.toLower
  same := fun a b => a.toLower == b.toLower
  foreign := fun _ _ _ => .unknown
  foreignLike := fun _ _ => .unknown

/-- The members with an account that never expires, and is not at one provider, or of an id. -/
def accountFilter : Filter :=
  [.logical .or [
    [.field "accounts" (.dict [("$elemMatch", .dict [
      ("provider", .dict [("$ne", .scalar (.str "github"))]), ("expires_at", .none)])])],
    [.field "id" (.dict [("$in", .sequence .list [.scalar (.str "1"), .none])])]]]

/-- The members with an account whose profile has a login. -/
def loginFilter : Filter :=
  [.field "accounts" (.dict [("$elemMatch", .dict [("profile.login", .scalar (.str "ann"))])])]

theorem agrees_where_kept_accounts :
    Agrees String.toLower sqlite memberTables 0 accountFilter := by
  have htables : getTablesOf memberSchema = some memberTables := (Option.some_get _).symm
  have hok : (translateFilter String.toLower memberTables 0 accountFilter).toOption.isSome = true := by
    decide +kernel
  refine (agrees_where_kept htables (by decide +kernel) (by decide +kernel)
    fun message herror => ?_).1 (by decide +kernel)
  rw [herror] at hok
  cases hok

/-- A filter on a field inside a JSON column of an element is accepted, and raises a `KeyError`. -/
theorem login_not_agrees :
    getTablesOf memberSchema = some memberTables ∧ checkFilter memberSchema loginFilter = .ok ⟨⟩ ∧
      Filter.all (isOwnCondition memberSchema) loginFilter = true ∧
      translateFilter String.toLower memberTables 0 loginFilter = .error (.keyError "profile.login") ∧
      ¬ Agrees String.toLower sqlite memberTables 0 loginFilter := by
  have herror : (translateFilter String.toLower memberTables 0 loginFilter) =
      .error (.keyError "profile.login") := by
    rfl
  refine ⟨(Option.some_get _).symm, by decide +kernel, by decide +kernel, herror, ?_⟩
  rintro ⟨clause, hclause, _⟩
  rw [herror] at hclause
  cases hclause

end Mss
