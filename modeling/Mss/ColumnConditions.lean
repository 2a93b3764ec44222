import Mss.Lib.Refusals
import Mss.StoredRecords

/-!
# Conditions on a column

A condition whose operands are scalars of the column's own type, or None, becomes a clause that is
true of a row exactly where the value that the column holds meets the condition.

* `hasOwnOperands`: the operands are None or of a type; none is None under `$gt` and its kin.
* `hasKeptOperands`: the operands reach the database as they are: no order is asked of a Boolean, and
  a database without timezones gets only datetimes in UTC.
* `isChecked`, `checkCondition_spec`: what a checked condition is made of.
* **`yields_getComparisonClause`**: the clause of a condition, on any row.
-/

namespace Mss

open Storage

/-! ## Operands -/

/-- Whether the operand is None or a scalar of the type. -/
def isOwn (type : ColumnType) : PyValue → Bool
  | .none => true
  | .scalar s => s.kind == type
  | _ => false

/-- Whether an operator's operands are None or of the type; an order and a text search take no
None. -/
def hasOwnOperand (type : ColumnType) (entry : String × PyValue) : Bool :=
  match FieldOperator.ofName entry.1 with
  | some .in | some .nin => entry.2.items.all (isOwn type)
  | some .gt | some .gte | some .lt | some .lte | some .regex =>
    isOwn type entry.2 && !entry.2.isNone
  | some .options => true
  | some .eq | some .ne | none => isOwn type entry.2

/-- Whether a condition's operands are None or of the type. -/
def hasOwnOperands (type : ColumnType) (condition : PyValue) : Bool :=
  (operatorsOf condition).all (hasOwnOperand type)

/-- Whether a database of the dialect gets the operand as it is: SQLite's datetimes have no timezone,
so that theirs has to be UTC. -/
def isKept (dialect : SqlDialect) : PyValue → Bool
  | .scalar (.datetime _ (some utcOffset)) => dialect == .postgresql || utcOffset == 0
  | _ => true

/-- Whether the operand is True or False. -/
def PyValue.isBool : PyValue → Bool
  | scalar (.bool _) => true
  | _ => false

/-- Whether a database of the dialect gets an operator's operands as they are. -/
def hasKeptOperand (dialect : SqlDialect) (entry : String × PyValue) : Bool :=
  match FieldOperator.ofName entry.1 with
  | some .in | some .nin => entry.2.items.all (isKept dialect)
  | some .gt | some .gte | some .lt | some .lte => isKept dialect entry.2 && !entry.2.isBool
  | _ => isKept dialect entry.2

/-- Whether a database of the dialect gets a condition's operands as they are. -/
def hasKeptOperands (dialect : SqlDialect) (condition : PyValue) : Bool :=
  (operatorsOf condition).all (hasKeptOperand dialect)

/-! ## Checked conditions -/

/-- **What a checked operator is**: one of the dialect's, over a sequence or an escaped text where it
takes one. -/
def isChecked (entry : String × PyValue) : Prop :=
  match FieldOperator.ofName entry.1 with
  | none => False
  | some .in | some .nin => ∃ type items, entry.2 = .sequence type items
  | some .regex => ∃ p, entry.2 = .scalar (.str p)
  | some _ => True

theorem ofName_eq_regex {name : String} (h : FieldOperator.ofName name = some .regex) :
    name = "$regex" := by
  have hmem := mem_of_lookup h
  simpa using hmem

theorem lookup_regex {entries : List (String × PyValue)}
    (hkeys : entries.map Prod.fst = ["$regex", "$options"] ∨
      entries.map Prod.fst = ["$options", "$regex"]) {operand : PyValue}
    (hmem : ("$regex", operand) ∈ entries) : entries.lookup "$regex" = some operand := by
  rcases entries with _ | ⟨⟨n, v⟩, _ | ⟨⟨m, w⟩, _ | ⟨e, es⟩⟩⟩
  · simp at hkeys
  · simp at hkeys
  · simp only [List.map_cons, List.map_nil, List.cons.injEq, and_true] at hkeys
    rcases hkeys with ⟨rfl, rfl⟩ | ⟨rfl, rfl⟩ <;>
      simpa [List.lookup_cons, eq_comm] using hmem
  · simp at hkeys

theorem checkTextSearch_spec {field : String} {entries : List (String × PyValue)}
    (h : checkTextSearch field entries = .ok ⟨⟩) {operand : PyValue}
    (hmem : ("$regex", operand) ∈ entries) : ∃ p, operand = .scalar (.str p) := by
  simp only [checkTextSearch] at h
  split at h
  · cases h
  · rename_i hkeys
    split at h
    · cases h
    · rename_i htext
      rw [not_or, not_and_or, not_not, not_not] at hkeys
      rw [lookup_regex hkeys.1 hmem] at htext
      unfold PyValue.isEscapedText at htext
      simp only [Option.any_some] at htext
      split at htext
      · rename_i p
        exact ⟨p, rfl⟩
      · simp at htext

theorem checkOperator_spec {field : String} {entry : String × PyValue}
    (h : checkOperator field entry = .ok ⟨⟩)
    (hregex : entry.1 = "$regex" → ∃ p, entry.2 = .scalar (.str p)) : isChecked entry := by
  unfold checkOperator at h
  unfold isChecked
  cases hop : FieldOperator.ofName entry.1 with
  | none =>
    rw [hop] at h
    cases h
  | some operator =>
    rw [hop] at h
    cases operator with
    | «in» | nin =>
      cases hv : entry.2 with
      | sequence type items => exact ⟨type, items, rfl⟩
      | none | scalar | dict =>
        rw [hv] at h
        cases h
    | regex => exact hregex (ofName_eq_regex hop)
    | eq | ne | gt | gte | lt | lte | options => trivial

/-- **A checked condition is made of checked operators.** -/
theorem checkCondition_spec {field : String} {condition : PyValue}
    (h : checkCondition field condition = .ok ⟨⟩) :
    ∀ entry ∈ operatorsOf condition, isChecked entry := by
  have hvalue : ∀ v : PyValue, ∀ entry ∈ [("$eq", v)], isChecked entry := by
    intro v entry hentry
    obtain rfl := List.mem_singleton.mp hentry
    trivial
  cases condition with
  | none | scalar | sequence => exact hvalue _
  | dict entries =>
    by_cases hmap : isOperatorMap (.dict entries) = true
    · simp only [operatorsOf, hmap, if_true]
      simp only [checkCondition, hmap, if_true] at h
      intro entry hentry
      by_cases hkey : (hasKey "$regex" (.dict entries) || hasKey "$options" (.dict entries)) = true
      · rw [if_pos hkey] at h
        obtain ⟨_, htext, h⟩ := bind_ok h
        refine checkOperator_spec (forM_eq_ok h entry hentry) fun hregex => ?_
        exact checkTextSearch_spec htext (hregex ▸ hentry)
      · rw [if_neg hkey] at h
        refine checkOperator_spec (forM_eq_ok h entry hentry) fun hregex => absurd ?_ hkey
        rw [Bool.or_eq_true]
        exact .inl (List.any_eq_true.mpr ⟨entry, hentry, by simp [hregex]⟩)
    · simpa only [operatorsOf, if_neg hmap] using hvalue _

theorem eq_of_elementFilterOf {condition : PyValue} {entries : List (String × PyValue)}
    (h : elementFilterOf condition = some entries) :
    condition = .dict [(elementMatch, .dict entries)] := by
  unfold elementFilterOf at h
  split at h
  · split at h
    · rename_i hkey
      cases h
      rw [hkey]
    · cases h
  · cases h

theorem isOperatorName_elementMatch : isOperatorName elementMatch = true := by decide

theorem isOperatorMap_elementMatch (elementFilter : PyValue) :
    isOperatorMap (.dict [(elementMatch, elementFilter)]) = true := by
  simp [isOperatorMap, isOperatorName_elementMatch]

theorem operatorsOf_elementMatch (elementFilter : PyValue) :
    operatorsOf (.dict [(elementMatch, elementFilter)]) = [(elementMatch, elementFilter)] := by
  simp [operatorsOf, isOperatorMap_elementMatch]

theorem ofName_elementMatch : FieldOperator.ofName elementMatch = none := by decide

theorem checkElementMatch_spec {schema : Schema} {field : String} {condition : PyValue}
    (hkey : hasKey elementMatch condition = true)
    (h : checkElementMatch schema field condition = .ok ⟨⟩) :
    ∃ entries fieldInfo, elementFilterOf condition = some entries ∧
      resolveField schema field = .ok fieldInfo ∧ isModelList fieldInfo = true ∧
      ∀ entry ∈ entries, ∀ operator ∈ operatorsOf entry.2, isChecked operator := by
  unfold checkElementMatch at h
  split at h
  · rename_i key elementFilter
    obtain ⟨fieldInfo, hresolve, h⟩ := bind_ok h
    split at h
    · rename_i hmodels
      unfold checkElementFilter at h
      split at h
      · rename_i entry entries _
        have hkey : key = elementMatch := by simpa [hasKey] using hkey
        subst hkey
        refine ⟨entry :: entries, fieldInfo, by simp [elementFilterOf], hresolve, hmodels,
          fun e he => ?_⟩
        obtain ⟨_, _, hcheck⟩ := bind_ok (forM_eq_ok h e he)
        exact checkCondition_spec hcheck
      · cases h
    · cases h
  · cases h

/-- **A checked condition is an `$elemMatch` on a list of models, or made of operators.** -/
theorem checkField_spec {schema : Schema} {field : String} {condition : PyValue}
    (h : checkField schema field condition = .ok ⟨⟩) :
    (∃ entries fieldInfo, elementFilterOf condition = some entries ∧
      resolveField schema field = .ok fieldInfo ∧ isModelList fieldInfo = true ∧
      ∀ entry ∈ entries, ∀ operator ∈ operatorsOf entry.2, isChecked operator) ∨
    (elementFilterOf condition = none ∧
      ∀ operator ∈ operatorsOf condition, isChecked operator) := by
  unfold checkField at h
  split at h
  · cases h
  · split at h
    · rename_i hmap
      exact .inl (checkElementMatch_spec (Bool.and_eq_true_iff.mp hmap).2 h)
    · rename_i hmap
      obtain ⟨_, _, h⟩ := bind_ok h
      split at h
      · cases h
      · refine .inr ⟨?_, checkCondition_spec h⟩
        by_contra hne
        obtain ⟨entries, hentries⟩ := Option.ne_none_iff_exists'.mp hne
        refine hmap ?_
        rw [eq_of_elementFilterOf hentries, isOperatorMap_elementMatch]
        simp [hasKey]

/-! ## Values and columns -/

theorem toValue_eq_null {type : ColumnType} {v : PyValue} (hown : isOwn type v = true) :
    v.toValue = .null ↔ v.isNone = true := by
  cases v with
  | none => simp [PyValue.toValue, PyValue.isNone]
  | scalar s => simp [PyValue.toValue, PyValue.isNone]
  | sequence | dict => cases hown

@[simp] theorem isNone_convert (v : PyValue) : (convertToColumnValue v).isNone = v.isNone := by
  cases v <;> rfl

theorem convertOperand_eq (lower : String → String) (v : PyValue) :
    convertOperand lower false v = convertToColumnValue v := by
  unfold convertOperand
  split <;> simp_all

theorem convertOperand_lower_false (lower : String → String) :
    convertOperand lower false = convertToColumnValue :=
  funext (convertOperand_eq lower)

/-- **The parameter that the database gets** is the scalar that MongoDB compares. -/
theorem bind_convert {dialect : SqlDialect} {s : PyScalar}
    (hkept : isKept dialect (.scalar s) = true) : dialect.bind s.convert = s.toScalar := by
  cases s with
  | datetime wall utcOffset =>
    cases utcOffset with
    | none => cases dialect <;> simp [SqlDialect.bind, PyScalar.convert, processBindParam,
        PyScalar.toScalar]
    | some offset =>
      simp only [isKept, Bool.or_eq_true, beq_iff_eq] at hkept
      rcases hkept with rfl | rfl
      · rfl
      · cases dialect <;> simp [SqlDialect.bind, PyScalar.convert, processBindParam,
          PyScalar.toScalar]
  | bool | int | float | str | intEnum | strEnum | uuid | path => cases dialect <;> rfl

theorem Fits.cases {type : ColumnType} {x : Value Scalar} (h : Fits type x) (ht : type ≠ .json) :
    x = .null ∨ ∃ a, x = .scalar a ∧ a.kind = type :=
  h.resolve_left ht

theorem Fits.items {type : ColumnType} {x : Value Scalar} (h : Fits type x) (ht : type ≠ .json) :
    x.items = [] := by
  obtain rfl | ⟨a, rfl, _⟩ := h.cases ht <;> rfl

section

variable {database : SqlDatabase} {type : ColumnType} {x : Value Scalar}

theorem compare_null (comparison : Comparison) (v : PyValue) :
    database.compare comparison .null v = .unknown := by
  cases v <;> rfl

theorem compare_none (comparison : Comparison) (x : Value Scalar) :
    database.compare comparison x .none = .unknown := by
  cases x <;> rfl

theorem compare_scalar (comparison : Comparison) {a : Scalar} {s : PyScalar}
    (hkind : s.kind = a.kind) (hkept : isKept database.dialect (.scalar s) = true) :
    database.compare comparison (.scalar a) (convertToColumnValue (.scalar s)) =
      .ofBool (comparison.test a s.toScalar) := by
  simp only [convertToColumnValue, SqlDatabase.compare, bind_convert hkept]
  exact if_pos hkind.symm

/-- **A comparison is true** where two scalars compare so. -/
theorem compare_eq_yes (comparison : Comparison) {v : PyValue} (hx : Fits type x)
    (ht : type ≠ .json) (hown : isOwn type v = true) (hkept : isKept database.dialect v = true) :
    database.compare comparison x (convertToColumnValue v) = .yes ↔
      ∃ a s, x = .scalar a ∧ v = .scalar s ∧ a.kind = s.kind ∧
        comparison.test a s.toScalar = true := by
  obtain rfl | ⟨a, rfl, ha⟩ := hx.cases ht
  · simp [compare_null]
  · cases v with
    | none => simp [convertToColumnValue, compare_none]
    | scalar s =>
      have hs : s.kind = a.kind := by
        rw [ha]
        exact beq_iff_eq.mp hown
      simp [compare_scalar comparison hs hkept, hs]
    | sequence | dict => cases hown

/-- **An equality is true** where the value is the operand's, which is not None. -/
theorem compare_eq_iff {v : PyValue} (hx : Fits type x) (ht : type ≠ .json)
    (hown : isOwn type v = true) (hkept : isKept database.dialect v = true) :
    database.compare .eq x (convertToColumnValue v) = .yes ↔
      v.isNone = false ∧ v.toValue = x := by
  rw [compare_eq_yes .eq hx ht hown hkept]
  cases v with
  | none => simp [PyValue.isNone]
  | scalar s =>
    simp only [Comparison.test, PyValue.scalar.injEq, decide_eq_true_eq, PyValue.isNone,
      PyValue.toValue, true_and]
    constructor
    · rintro ⟨a, _, rfl, rfl, _, rfl⟩
      rfl
    · rintro rfl
      exact ⟨_, s, rfl, rfl, rfl, rfl⟩
  | sequence | dict => cases hown

theorem compare_eq_no {v : PyValue} (hx : Fits type x) (ht : type ≠ .json) (hnull : x ≠ .null)
    (hown : isOwn type v = true) (hkept : isKept database.dialect v = true)
    (hnone : v.isNone = false) :
    database.compare .eq x (convertToColumnValue v) = .no ↔ v.toValue ≠ x := by
  obtain rfl | ⟨a, rfl, ha⟩ := hx.cases ht
  · exact absurd rfl hnull
  · cases v with
    | none => cases hnone
    | scalar s =>
      have hs : s.kind = a.kind := by
        rw [ha]
        exact beq_iff_eq.mp hown
      rw [compare_scalar .eq hs hkept, Truth.ofBool_eq_no]
      simp [Comparison.test, PyValue.toValue, eq_comm]
    | sequence | dict => cases hown

end

/-! ## Clauses -/

section

variable {database : SqlDatabase} {tables : SchemaTables} {stored : StoredRows tables} {row : Row}

theorem evalEach_eq (clauses : List Clause) :
    Clause.evalEach database stored clauses row =
      clauses.map fun clause => clause.eval database stored row := by
  induction clauses with
  | nil => rfl
  | cons clause clauses ih => rw [Clause.evalEach, ih, List.map_cons]

theorem eval_and {clauses : List Clause} : (Clause.and clauses).eval database stored row = .yes ↔
    ∀ clause ∈ clauses, clause.eval database stored row = .yes := by
  simp [Clause.eval, evalEach_eq]

theorem eval_or {clauses : List Clause} : (Clause.or clauses).eval database stored row = .yes ↔
    ∃ clause ∈ clauses, clause.eval database stored row = .yes := by
  simp [Clause.eval, evalEach_eq]

theorem eval_existsIn {listField parentColumn key : String} {conditions : List Clause} :
    (Clause.existsIn listField parentColumn key conditions).eval database stored row = .yes ↔
      ∃ child ∈ stored.childRows listField, isChildOf (row key) (child parentColumn) = true ∧
        ∀ clause ∈ conditions, clause.eval database stored child = .yes := by
  simp [Clause.eval, evalEach_eq, Bool.and_eq_true]

variable {name : String} {type : ColumnType} {x : Value Scalar}

@[simp] theorem read_column : database.read ⟨name, false⟩ row = row name := by
  simp [SqlDatabase.read]

theorem eval_isNull :
    (Clause.isNull ⟨name, false⟩).eval database stored row = .yes ↔ row name = .null := by
  simp [Clause.eval, isNullValue_iff]

theorem eval_isNotNull :
    (Clause.isNotNull ⟨name, false⟩).eval database stored row = .yes ↔ row name ≠ .null := by
  rw [Clause.eval, read_column, Truth.ofBool_eq_yes, Bool.not_eq_true', ← Bool.not_eq_true,
    isNullValue_iff]

theorem eval_compare {comparison : Comparison} {v : PyValue} :
    (Clause.compare comparison ⟨name, false⟩ v).eval database stored row =
      database.compare comparison (row name) v := by
  rw [Clause.eval, read_column]

theorem eval_getEqualityClause (hx : Fits type (row name)) (ht : type ≠ .json) {v : PyValue}
    (hown : isOwn type v = true) (hkept : isKept database.dialect v = true) :
    (getEqualityClause ⟨name, false⟩ (convertToColumnValue v)).eval database stored row = .yes ↔
      v.toValue = row name := by
  unfold getEqualityClause
  rw [isNone_convert]
  by_cases hnone : v.isNone = true
  · rw [if_pos hnone, eval_isNull, (toValue_eq_null hown).mpr hnone, eq_comm]
  · rw [if_neg hnone, eval_compare, compare_eq_iff hx ht hown hkept]
    exact and_iff_right (Bool.not_eq_true _ ▸ hnone)

/-- **Inequality**: null differs from any value but None. -/
theorem eval_getInequalityClause (hx : Fits type (row name)) (ht : type ≠ .json) {v : PyValue}
    (hown : isOwn type v = true) (hkept : isKept database.dialect v = true) :
    (getInequalityClause ⟨name, false⟩ (convertToColumnValue v)).eval database stored row = .yes ↔
      v.toValue ≠ row name := by
  unfold getInequalityClause
  rw [isNone_convert]
  by_cases hnone : v.isNone = true
  · rw [if_pos hnone, eval_isNotNull, (toValue_eq_null hown).mpr hnone, ne_comm]
  · rw [if_neg hnone, eval_or]
    simp only [List.mem_cons, List.not_mem_nil, or_false, exists_eq_or_imp, exists_eq_left,
      eval_isNull, eval_compare]
    have hvalue : v.toValue ≠ .null := mt (toValue_eq_null hown).mp hnone
    obtain hnull | ⟨a, ha, hkind⟩ := hx.cases ht
    · rw [hnull]
      exact iff_of_true (.inr rfl) hvalue
    · rw [compare_eq_yes .ne hx ht hown hkept]
      cases v with
      | none => exact absurd rfl hnone
      | scalar s =>
        have hs : a.kind = s.kind := hkind.trans (beq_iff_eq.mp hown).symm
        rw [ha]
        constructor
        · rintro (⟨b, t, hb, ht, _, htest⟩ | h)
          · cases hb
            cases ht
            intro heq
            cases heq
            simp [Comparison.test] at htest
          · cases h
        · intro hne
          refine .inl ⟨a, s, rfl, rfl, hs, decide_eq_true fun h => hne ?_⟩
          rw [PyValue.toValue, h]
      | sequence | dict => cases hown

theorem mem_known {items : List PyValue} {w : PyValue} :
    w ∈ (items.map convertToColumnValue).filter (fun value => !value.isNone) ↔
      ∃ v ∈ items, v.isNone = false ∧ convertToColumnValue v = w := by
  simp only [List.mem_filter, List.mem_map, Bool.not_eq_true']
  constructor
  · rintro ⟨⟨v, hv, rfl⟩, hnone⟩
    exact ⟨v, hv, by rwa [isNone_convert] at hnone, rfl⟩
  · rintro ⟨v, hv, hnone, rfl⟩
    exact ⟨⟨v, hv, rfl⟩, by rwa [isNone_convert]⟩

theorem length_known_lt (items : List PyValue) :
    ((items.map convertToColumnValue).filter fun value => !value.isNone).length <
        (items.map convertToColumnValue).length ↔ ∃ v ∈ items, v.isNone = true := by
  rw [List.length_filter_lt_length_iff_exists]
  simp

theorem isAmong_eq_yes {items : List PyValue} (hx : Fits type x) (ht : type ≠ .json)
    (hown : ∀ v ∈ items, isOwn type v = true)
    (hkept : ∀ v ∈ items, isKept database.dialect v = true) :
    database.isAmong x ((items.map convertToColumnValue).filter fun value => !value.isNone) =
        .yes ↔ ∃ v ∈ items, v.isNone = false ∧ v.toValue = x := by
  rw [SqlDatabase.isAmong, Truth.any_eq_yes, List.mem_map]
  constructor
  · rintro ⟨w, hw, heq⟩
    obtain ⟨v, hv, _, rfl⟩ := mem_known.mp hw
    exact ⟨v, hv, (compare_eq_iff hx ht (hown v hv) (hkept v hv)).mp heq⟩
  · rintro ⟨v, hv, hnone, heq⟩
    exact ⟨_, mem_known.mpr ⟨v, hv, hnone, rfl⟩,
      (compare_eq_iff hx ht (hown v hv) (hkept v hv)).mpr ⟨hnone, heq⟩⟩

theorem isAmong_eq_no {items : List PyValue} (hx : Fits type x) (ht : type ≠ .json)
    (hnull : x ≠ .null) (hown : ∀ v ∈ items, isOwn type v = true)
    (hkept : ∀ v ∈ items, isKept database.dialect v = true) :
    database.isAmong x ((items.map convertToColumnValue).filter fun value => !value.isNone) =
        .no ↔ ∀ v ∈ items, v.isNone = false → v.toValue ≠ x := by
  rw [SqlDatabase.isAmong, Truth.any_eq_no, List.forall_mem_map]
  constructor
  · intro h v hv hnone
    exact (compare_eq_no hx ht hnull (hown v hv) (hkept v hv) hnone).mp
      (h _ (mem_known.mpr ⟨v, hv, hnone, rfl⟩))
  · intro h w hw
    obtain ⟨v, hv, hnone, rfl⟩ := mem_known.mp hw
    exact (compare_eq_no hx ht hnull (hown v hv) (hkept v hv) hnone).mpr (h v hv hnone)

theorem eval_getAnyOfClause {items : List PyValue} (hx : Fits type (row name)) (ht : type ≠ .json)
    (hown : ∀ v ∈ items, isOwn type v = true)
    (hkept : ∀ v ∈ items, isKept database.dialect v = true) :
    (getAnyOfClause ⟨name, false⟩ (items.map convertToColumnValue)).eval database stored row =
        .yes ↔ ∃ v ∈ items, v.toValue = row name := by
  unfold getAnyOfClause
  generalize hknown : ((items.map convertToColumnValue).filter fun v => !v.isNone) = known
  have hclause : (if known.isEmpty then Clause.never else .isIn ⟨name, false⟩ known).eval
      database stored row = .yes ↔ ∃ v ∈ items, v.isNone = false ∧ v.toValue = row name := by
    rw [← isAmong_eq_yes hx ht hown hkept, hknown]
    by_cases hempty : known.isEmpty = true
    · rw [if_pos hempty, List.isEmpty_iff.mp hempty]
      simp [Clause.eval, SqlDatabase.isAmong, Truth.any]
    · rw [if_neg hempty, Clause.eval, read_column]
  have hlength := length_known_lt items
  rw [hknown] at hlength
  simp only [hlength]
  by_cases hnone : ∃ v ∈ items, v.isNone = true
  · rw [if_pos hnone, eval_or]
    simp only [List.mem_cons, List.not_mem_nil, or_false, exists_eq_or_imp, exists_eq_left,
      eval_isNull, hclause]
    constructor
    · rintro (⟨v, hv, _, heq⟩ | hnull)
      · exact ⟨v, hv, heq⟩
      · obtain ⟨v, hv, hn⟩ := hnone
        exact ⟨v, hv, hnull ▸ (toValue_eq_null (hown v hv)).mpr hn⟩
    · rintro ⟨v, hv, heq⟩
      by_cases hn : v.isNone = true
      · exact .inr (heq ▸ (toValue_eq_null (hown v hv)).mpr hn)
      · exact .inl ⟨v, hv, Bool.not_eq_true _ ▸ hn, heq⟩
  · rw [if_neg hnone, hclause]
    constructor
    · rintro ⟨v, hv, _, heq⟩
      exact ⟨v, hv, heq⟩
    · rintro ⟨v, hv, heq⟩
      exact ⟨v, hv, Bool.not_eq_true _ ▸ fun hn => hnone ⟨v, hv, hn⟩, heq⟩

/-- **`$nin`**: null is none of the values, unless one is None. -/
theorem eval_getNoneOfClause {items : List PyValue} (hx : Fits type (row name)) (ht : type ≠ .json)
    (hown : ∀ v ∈ items, isOwn type v = true)
    (hkept : ∀ v ∈ items, isKept database.dialect v = true) :
    (getNoneOfClause ⟨name, false⟩ (items.map convertToColumnValue)).eval database stored row =
        .yes ↔ ∀ v ∈ items, v.toValue ≠ row name := by
  unfold getNoneOfClause
  generalize hknown : ((items.map convertToColumnValue).filter fun v => !v.isNone) = known
  -- at a scalar the first clause is right about the values that are not None
  have hclause (hnull : row name ≠ .null) :
      (if known.isEmpty then Clause.always else .isNotIn ⟨name, false⟩ known).eval
        database stored row = .yes ↔
      ∀ v ∈ items, v.isNone = false → v.toValue ≠ row name := by
    rw [← isAmong_eq_no hx ht hnull hown hkept, hknown]
    by_cases hempty : known.isEmpty = true
    · rw [if_pos hempty, List.isEmpty_iff.mp hempty]
      simp [Clause.eval, SqlDatabase.isAmong, Truth.any]
    · rw [if_neg hempty, Clause.eval, read_column, Truth.not_eq_yes]
  have hlength := length_known_lt items
  rw [hknown] at hlength
  simp only [hlength]
  by_cases hnone : ∃ v ∈ items, v.isNone = true
  · rw [if_pos hnone, eval_and]
    simp only [List.forall_mem_cons, List.not_mem_nil, false_imp_iff, implies_true, and_true,
      eval_isNotNull]
    constructor
    · rintro ⟨heval, hnull⟩ v hv heq
      by_cases hn : v.isNone = true
      · exact hnull (heq ▸ (toValue_eq_null (hown v hv)).mpr hn)
      · exact (hclause hnull).mp heval v hv (Bool.not_eq_true _ ▸ hn) heq
    · intro h
      have hnull : row name ≠ .null := by
        obtain ⟨v, hv, hn⟩ := hnone
        exact fun hnull => h v hv (hnull ▸ (toValue_eq_null (hown v hv)).mpr hn)
      exact ⟨(hclause hnull).mpr fun v hv _ => h v hv, hnull⟩
  · rw [if_neg hnone, eval_or]
    simp only [List.mem_cons, List.not_mem_nil, or_false, exists_eq_or_imp, exists_eq_left,
      eval_isNull]
    have hvalue : ∀ v ∈ items, v.toValue ≠ .null := fun v hv h =>
      hnone ⟨v, hv, (toValue_eq_null (hown v hv)).mp h⟩
    by_cases hnull : row name = .null
    · exact iff_of_true (.inr hnull) (hnull ▸ hvalue)
    · rw [hclause hnull, or_iff_left hnull]
      exact ⟨fun h v hv => h v hv (Bool.not_eq_true _ ▸ fun hn => hnone ⟨v, hv, hn⟩),
        fun h v hv _ => h v hv⟩

/-- **The clauses mean the condition**: they are all true of a row exactly where the value of its
column meets it. -/
def MeanAt (database : SqlDatabase) (tables : SchemaTables) (name : String) (type : ColumnType)
    (meets : Value Scalar → Prop) (clauses : List Clause) : Prop :=
  ∀ (stored : StoredRows tables) (row : Row), Fits type (row name) →
    ((∀ clause ∈ clauses, clause.eval database stored row = .yes) ↔ meets (row name))

theorem meanAt_singleton {meets : Value Scalar → Prop} {clause : Clause}
    (h : ∀ (stored : StoredRows tables) (row : Row), Fits type (row name) →
      (clause.eval database stored row = .yes ↔ meets (row name))) :
    MeanAt database tables name type meets [clause] := by
  intro stored row hx
  rw [List.forall_mem_singleton]
  exact h stored row hx

/-- **An order** is true of a scalar that compares so. -/
theorem yields_getOrderClause {comparison : Comparison} {v : PyValue} (ht : type ≠ .json)
    (hown : isOwn type v = true) (hkept : isKept database.dialect v = true)
    (hnone : v.isNone = false) (hbool : v.isBool = false) (refusal : PyError → Prop) :
    Yields refusal (getOrderClause comparison ⟨name, false⟩ (convertToColumnValue v))
      (MeanAt database tables name type fun x =>
        Compares (fun a b => comparison.test a b) [x] v) := by
  have hok : getOrderClause comparison ⟨name, false⟩ (convertToColumnValue v) =
      .ok [.compare comparison ⟨name, false⟩ (convertToColumnValue v)] := by
    cases v with
    | none => cases hnone
    | scalar s =>
      cases s with
      | bool => cases hbool
      | int | float | str | datetime | intEnum | strEnum | uuid | path => rfl
    | sequence | dict => rfl
  rw [hok]
  refine .ok (meanAt_singleton fun stored row hx => ?_)
  rw [eval_compare, compare_eq_yes comparison hx ht hown hkept]
  simp only [Compares, List.mem_singleton, eq_comm (b := row name)]

/-- **A text search** is true of a text that holds the text searched for. -/
theorem eval_getSubstringClause (hx : Fits type (row name)) {p : String} (ht : type = .string) :
    (getSubstringClause ⟨name, false⟩ (getSearchedText p)).eval database stored row = .yes ↔
      HoldsSearched database.same [row name] (.scalar (.str p)) := by
  rw [getSubstringClause, Clause.eval, read_column]
  obtain hnull | ⟨a, ha, hkind⟩ := hx.cases (ht ▸ by decide)
  · simp [hnull, SqlDatabase.ilike, HoldsSearched]
  · rw [ht] at hkind
    cases a with
    | text s =>
      rw [ha, SqlDatabase.ilike, Truth.ofBool_eq_yes, likeMatches_escapeLike]
      simp [HoldsSearched]
    | bool | int | float | datetime => cases hkind

variable (tables) (lower : String → String)

/-- **The clauses of an operator mean the operator.** -/
theorem yields_getOperatorClauses {operator : String} {operand : PyValue} (ht : type ≠ .json)
    (hchecked : isChecked (operator, operand))
    (hown : hasOwnOperand type (operator, operand) = true)
    (hkept : hasKeptOperand database.dialect (operator, operand) = true)
    (refusal : PyError → Prop) :
    Yields refusal (getOperatorClauses lower ⟨name, false⟩ false operator operand)
      (MeanAt database tables name type fun x =>
        OperatorMatches database.same [x] operator operand) := by
  unfold getOperatorClauses OperatorMatches
  simp only [convertOperand_eq]
  unfold isChecked at hchecked
  unfold hasOwnOperand at hown
  unfold hasKeptOperand at hkept
  cases hop : FieldOperator.ofName operator with
  | none => simp [hop] at hchecked
  | some op =>
    simp only [hop] at hchecked hown hkept ⊢
    cases op with
    | eq =>
      refine .ok (meanAt_singleton fun stored row hx => ?_)
      rw [eval_getEqualityClause hx ht hown hkept, List.mem_singleton]
    | ne =>
      refine .ok (meanAt_singleton fun stored row hx => ?_)
      rw [eval_getInequalityClause hx ht hown hkept, List.mem_singleton]
    | «in» =>
      obtain ⟨sequenceType, items, rfl⟩ := hchecked
      have hown : ∀ v ∈ items, isOwn type v = true := List.all_eq_true.mp hown
      have hkept : ∀ v ∈ items, isKept database.dialect v = true := List.all_eq_true.mp hkept
      refine .ok (meanAt_singleton fun stored row hx => ?_)
      rw [convertOperand_lower_false, eval_getAnyOfClause hx ht hown hkept]
      simp only [PyValue.items, List.mem_singleton]
    | nin =>
      obtain ⟨sequenceType, items, rfl⟩ := hchecked
      have hown : ∀ v ∈ items, isOwn type v = true := List.all_eq_true.mp hown
      have hkept : ∀ v ∈ items, isKept database.dialect v = true := List.all_eq_true.mp hkept
      refine .ok (meanAt_singleton fun stored row hx => ?_)
      rw [convertOperand_lower_false, eval_getNoneOfClause hx ht hown hkept]
      simp only [PyValue.items, List.mem_singleton]
    | gt | gte | lt | lte =>
      obtain ⟨hown, hnone⟩ := Bool.and_eq_true_iff.mp hown
      obtain ⟨hkept, hbool⟩ := Bool.and_eq_true_iff.mp hkept
      exact yields_getOrderClause ht hown hkept (by simpa using hnone) (by simpa using hbool) _
    | regex =>
      obtain ⟨p, rfl⟩ := hchecked
      refine .ok (meanAt_singleton fun stored row hx => ?_)
      have htype : type = .string := by
        simp only [isOwn, Bool.and_eq_true, beq_iff_eq] at hown
        exact hown.1.symm
      exact eval_getSubstringClause hx htype
    | options =>
      exact .ok fun stored row hx => by simp

/-- **The clause of a condition means the condition.** -/
theorem yields_getComparisonClause {condition : PyValue} (ht : type ≠ .json)
    (hchecked : ∀ entry ∈ operatorsOf condition, isChecked entry)
    (hown : hasOwnOperands type condition = true)
    (hkept : hasKeptOperands database.dialect condition = true) (refusal : PyError → Prop) :
    Yields refusal (getComparisonClause lower ⟨name, false⟩ condition false) fun clause =>
      MeanAt database tables name type (fun x => ConditionMatches database.same [x] condition)
        [clause] := by
  have hown := List.all_eq_true.mp hown
  have hkept := List.all_eq_true.mp hkept
  refine (Yields.mapM fun entry hentry => yields_getOperatorClauses tables lower ht
    (hchecked entry hentry) (hown entry hentry) (hkept entry hentry) refusal).bind
    fun clauses hclauses => .ok (meanAt_singleton fun stored row hx => ?_)
  rw [eval_and, ConditionMatches]
  rw [forall_iff_of_forall₂ hclauses fun entry _ clauses hmean => (hmean stored row hx).symm]
  simp only [List.mem_flatten, forall_exists_index, and_imp]
  exact ⟨fun h cs hcs clause hclause => h clause cs hcs hclause,
    fun h clause cs hcs hclause => h cs hcs clause hclause⟩

end

end Mss
