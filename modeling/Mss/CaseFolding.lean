import Mss.Storage.Collations
import Mss.Pages

/-!
# Case-insensitive fields

A filter on text fields is read by each store its own way, and is to be read without case in the
case-insensitive ones alone.

* `Filter.holds_congr`, **`Filter.meetsText_congr`**: readings that take a filter's texts alike.
* `eval_getEqualityClause_text` and its like: the clauses on a column of text.
* **`translateFilter_sql`**: a filter on text in SQL, each field read as SQL reads it.
* **`Mongo.translateUnexpiredFilter_text`**: the same filter in MongoDB, every field read one way.
* **`caseless_fields`**: where both are what a filter on case-insensitive fields is to mean.
-/

namespace Mss

open Storage

/-! ## Filters by their conditions -/

mutual

/-- Conditions that hold alike make entries that do. -/
theorem Entry.holds_congr {p q : String → PyValue → Prop} : ∀ entry : Entry,
    (∀ c ∈ entry.conditions, p c.1 c.2 ↔ q c.1 c.2) → (entry.Holds p ↔ entry.Holds q)
  | .field name condition, h => h (name, condition) List.mem_cons_self
  | .logical .and filters, h => (Filter.eachHolds_congr filters h).1
  | .logical .or filters, h => (Filter.eachHolds_congr filters h).2

/-- **Conditions that hold alike make filters that do.** -/
theorem Filter.holds_congr {p q : String → PyValue → Prop} : ∀ filter : List Entry,
    (∀ c ∈ Filter.conditions filter, p c.1 c.2 ↔ q c.1 c.2) →
      (Filter.Holds p filter ↔ Filter.Holds q filter)
  | [], _ => Iff.rfl
  | entry :: entries, h => by
    obtain ⟨hentry, hentries⟩ := List.forall_mem_append.mp h
    rw [Filter.Holds, Filter.Holds]
    exact and_congr (Entry.holds_congr entry hentry) (Filter.holds_congr entries hentries)

theorem Filter.eachHolds_congr {p q : String → PyValue → Prop} : ∀ filters : List (List Entry),
    (∀ c ∈ Filter.eachConditions filters, p c.1 c.2 ↔ q c.1 c.2) →
      (Filter.AllHold p filters ↔ Filter.AllHold q filters) ∧
        (Filter.AnyHolds p filters ↔ Filter.AnyHolds q filters)
  | [], _ => ⟨Iff.rfl, Iff.rfl⟩
  | filter :: filters, h => by
    obtain ⟨hfilter, hfilters⟩ := List.forall_mem_append.mp h
    have hfirst := Filter.holds_congr filter hfilter
    obtain ⟨hall, hany⟩ := Filter.eachHolds_congr filters hfilters
    exact ⟨and_congr hfirst hall, or_congr hfirst hany⟩

end

namespace TextReading

variable {same : Char → Char → Bool} {r r' : TextReading} {x : Option String}

theorem both_congr {p q : String → String → Prop} {y : Option String}
    (h : ∀ a ∈ x, ∀ b ∈ y, p a b ↔ q a b) : Both p x y ↔ Both q x y := by
  constructor
  · rintro ⟨a, b, ha, hb, hab⟩
    exact ⟨a, b, ha, hb, (h a ha b hb).mp hab⟩
  · rintro ⟨a, b, ha, hb, hab⟩
    exact ⟨a, b, ha, hb, (h a ha b hb).mpr hab⟩

theorem map_eq_map_iff {y : Option String}
    (h : ∀ a ∈ x, ∀ b ∈ y, r.stored a = r.asked b ↔ r'.stored a = r'.asked b) :
    x.map r.stored = y.map r.asked ↔ x.map r'.stored = y.map r'.asked := by
  cases x <;> cases y <;> simp
  exact h _ rfl _ rfl

/-- **Readings that take the texts alike** ask alike. -/
theorem meets_congr {entry : String × PyValue}
    (h : ∀ a ∈ x, ∀ b ∈ askedBy entry, r.Alike same r' a b) :
    r.Meets same x entry ↔ r'.Meets same x entry := by
  have hvalue : ∀ a ∈ x, ∀ b ∈ textOf entry.2, r.Alike same r' a b := fun a ha b hb =>
    h a ha b (List.mem_append_left _ (Option.mem_toList.mpr hb))
  have hitem : ∀ item ∈ entry.2.items,
      (x.map r.stored = (textOf item).map r.asked ↔ x.map r'.stored = (textOf item).map r'.asked) :=
    fun item hin => map_eq_map_iff fun a ha b hb =>
      (h a ha b (List.mem_append_right _ (List.mem_filterMap.mpr ⟨item, hin, hb⟩))).eq
  unfold Meets
  cases FieldOperator.ofName entry.1 with
  | none => exact Iff.rfl
  | some op =>
    cases op with
    | eq => exact map_eq_map_iff fun a ha b hb => (hvalue a ha b hb).eq
    | ne => exact not_congr (map_eq_map_iff fun a ha b hb => (hvalue a ha b hb).eq)
    | «in» => exact exists_congr fun item => and_congr_right (hitem item)
    | nin => exact forall_congr' fun item => forall_congr' fun hin => not_congr (hitem item hin)
    | gt => exact both_congr fun a ha b hb => (hvalue a ha b hb).gt
    | gte => exact both_congr fun a ha b hb => not_congr (hvalue a ha b hb).lt
    | lt => exact both_congr fun a ha b hb => (hvalue a ha b hb).lt
    | lte => exact both_congr fun a ha b hb => not_congr (hvalue a ha b hb).gt
    | regex => exact both_congr fun a ha b hb => (hvalue a ha b hb).search
    | options => exact Iff.rfl

end TextReading

/-- The texts that a condition asks for. -/
def askedIn (condition : PyValue) : List String :=
  (operatorsOf condition).flatMap TextReading.askedBy

/-- **Readings that take a filter's texts alike** ask alike. -/
theorem Filter.meetsText_congr {same : Char → Char → Bool} {reading reading' : String → TextReading}
    {texts : String → Option String} {filter : Filter}
    (h : ∀ c ∈ Filter.conditions filter, ∀ a ∈ texts c.1, ∀ b ∈ askedIn c.2,
      (reading c.1).Alike same (reading' c.1) a b) :
    filter.MeetsText same reading texts ↔ filter.MeetsText same reading' texts :=
  Filter.holds_congr filter fun c hc => forall_congr' fun entry => forall_congr' fun hentry =>
    TextReading.meets_congr fun a ha b hb =>
      h c hc a ha b (List.mem_flatMap.mpr ⟨entry, hentry, hb⟩)

/-! ## Text in SQL -/

/-- The value of a text, or None. -/
def asValue : Option String → PyValue
  | none => .none
  | some t => .scalar (.str t)

/-- What a column of text holds. -/
def textValue : Option String → Value Scalar
  | none => .null
  | some t => .scalar (.text t)

@[simp] theorem toValue_asValue (x : Option String) : (asValue x).toValue = textValue x := by
  cases x <;> rfl

@[simp] theorem convert_asValue (x : Option String) :
    convertToColumnValue (asValue x) = asValue x := by
  cases x <;> rfl

@[simp] theorem textAt_textValue (x : Option String) : textAt (textValue x) = x := by
  cases x <;> rfl

@[simp] theorem textValue_inj {x y : Option String} : textValue x = textValue y ↔ x = y := by
  refine ⟨fun h => ?_, congrArg _⟩
  rw [← textAt_textValue x, h, textAt_textValue]

theorem isOwn_asValue (x : Option String) : isOwn .string (asValue x) = true := by
  cases x <;> rfl

theorem isKept_asValue (dialect : SqlDialect) (x : Option String) :
    isKept dialect (asValue x) = true := by
  cases x <;> rfl

theorem fits_textValue (x : Option String) : Fits .string (textValue x) := by
  cases x with
  | none => exact .inr (.inl rfl)
  | some t => exact .inr (.inr ⟨_, rfl, rfl⟩)

section

variable {lower : String → String} {database : SqlDatabase} {tables : SchemaTables}
  {stored : StoredRows tables} {row : Row} {column : Column} {y z : Option String}

/-- How a column is read, in lower case or not. -/
def readColumn (database : SqlDatabase) (lower : String → String) (isLowered : Bool) : TextReading :=
  if isLowered then .lowered database lower else .exact

variable (database lower) in
theorem convertOperand_text {v : PyValue} (hown : isOwn .string v = true) (isLowered : Bool) :
    convertOperand lower isLowered v =
      asValue ((textOf v).map (readColumn database lower isLowered).asked) := by
  cases v with
  | none => rfl
  | scalar s =>
    cases s with
    | str | strEnum | uuid | path => cases isLowered <;> rfl
    | bool | int | float | intEnum | datetime => cases hown
  | sequence | dict => cases hown

variable (database lower) in
theorem map_convertOperand_text {items : List PyValue} (hown : ∀ v ∈ items, isOwn .string v = true)
    (isLowered : Bool) :
    items.map (convertOperand lower isLowered) =
      (items.map fun v => (textOf v).map (readColumn database lower isLowered).asked).map asValue := by
  rw [List.map_map]
  exact List.map_congr_left fun v hv => convertOperand_text lower database (hown v hv) isLowered

theorem exists_text {v : PyValue} (h : (isOwn .string v && !v.isNone) = true) :
    ∃ t, textOf v = some t := by
  obtain ⟨hown, hnone⟩ := Bool.and_eq_true_iff.mp h
  cases v with
  | none => cases hnone
  | scalar s =>
    cases s with
    | str | strEnum | uuid | path => exact ⟨_, rfl⟩
    | bool | int | float | intEnum | datetime => cases hown
  | sequence | dict => cases hown

variable (lower) in
theorem read_text {name : String} (hx : Fits .string (row name)) (isLowered : Bool) :
    database.read ⟨name, isLowered⟩ row =
      textValue ((textAt (row name)).map (readColumn database lower isLowered).stored) := by
  obtain hnull | ⟨a, ha, hkind⟩ := hx.cases (by decide)
  · cases isLowered <;> simp [SqlDatabase.read, hnull, textAt, textValue]
  · cases a with
    | text t =>
      cases isLowered <;> simp [SqlDatabase.read, ha, textAt, textValue, Scalar.asText, readColumn,
        TextReading.lowered, TextReading.exact]
    | bool | int | float | datetime => cases hkind

/-- The row whose every column reads a text. -/
def textRow (y : Option String) : Row := fun _ => textValue y

variable (hread : database.read column row = textValue y)

include hread

theorem eval_getEqualityClause_text :
    (getEqualityClause column (asValue z)).eval database stored row = .yes ↔ y = z := by
  have hplain : (getEqualityClause column (asValue z)).eval database stored row =
      (getEqualityClause ⟨"", false⟩ (convertToColumnValue (asValue z))).eval database stored
        (textRow y) := by
    rw [convert_asValue]
    unfold getEqualityClause
    split_ifs <;> simp [Clause.eval, hread, textRow]
  rw [hplain, eval_getEqualityClause (fits_textValue y) (by decide) (isOwn_asValue z)
    (isKept_asValue _ z), toValue_asValue]
  exact textValue_inj.trans eq_comm

theorem eval_getInequalityClause_text :
    (getInequalityClause column (asValue z)).eval database stored row = .yes ↔ y ≠ z := by
  have hplain : (getInequalityClause column (asValue z)).eval database stored row =
      (getInequalityClause ⟨"", false⟩ (convertToColumnValue (asValue z))).eval database stored
        (textRow y) := by
    rw [convert_asValue]
    unfold getInequalityClause
    split_ifs <;> simp [Clause.eval, Clause.evalEach, hread, textRow]
  rw [hplain, eval_getInequalityClause (fits_textValue y) (by decide) (isOwn_asValue z)
    (isKept_asValue _ z), toValue_asValue]
  exact not_congr (textValue_inj.trans eq_comm)

theorem eval_getAnyOfClause_text {zs : List (Option String)} :
    (getAnyOfClause column (zs.map asValue)).eval database stored row = .yes ↔ y ∈ zs := by
  have hconvert : (zs.map asValue).map convertToColumnValue = zs.map asValue := by
    simp [Function.comp_def]
  have hplain : (getAnyOfClause column (zs.map asValue)).eval database stored row =
      (getAnyOfClause ⟨"", false⟩ ((zs.map asValue).map convertToColumnValue)).eval database stored
        (textRow y) := by
    rw [hconvert]
    unfold getAnyOfClause
    dsimp only
    split_ifs <;> simp [Clause.eval, Clause.evalEach, hread, textRow]
  rw [hplain, eval_getAnyOfClause (fits_textValue y) (by decide)]
  · simp [textRow]
  · simp [isOwn_asValue]
  · simp [isKept_asValue]

theorem eval_getNoneOfClause_text {zs : List (Option String)} :
    (getNoneOfClause column (zs.map asValue)).eval database stored row = .yes ↔ y ∉ zs := by
  have hconvert : (zs.map asValue).map convertToColumnValue = zs.map asValue := by
    simp [Function.comp_def]
  have hplain : (getNoneOfClause column (zs.map asValue)).eval database stored row =
      (getNoneOfClause ⟨"", false⟩ ((zs.map asValue).map convertToColumnValue)).eval database stored
        (textRow y) := by
    rw [hconvert]
    unfold getNoneOfClause
    dsimp only
    split_ifs <;> simp [Clause.eval, Clause.evalEach, hread, textRow]
  rw [hplain, eval_getNoneOfClause (fits_textValue y) (by decide)]
  · simp only [textRow, List.mem_map, forall_exists_index, and_imp, forall_apply_eq_imp_iff₂,
      toValue_asValue, ne_eq, textValue_inj]
    exact ⟨fun h hy => h y hy rfl, fun h a ha hay => h (hay ▸ ha)⟩
  · simp [isOwn_asValue]
  · simp [isKept_asValue]

theorem eval_compare_text (comparison : Comparison) {t : String} :
    (Clause.compare comparison column (.scalar (.str t))).eval database stored row = .yes ↔
      ∃ a, y = some a ∧ comparison.test (.text a) (.text t) = true := by
  rw [Clause.eval, hread]
  cases y with
  | none => simp [textValue, SqlDatabase.compare]
  | some a =>
    have hcompare : database.compare comparison (.scalar (.text a)) (.scalar (.str t)) =
        .ofBool (comparison.test (.text a) (.text t)) :=
      compare_scalar (s := .str t) comparison rfl rfl
    rw [textValue, hcompare, Truth.ofBool_eq_yes]
    simp

theorem eval_getSubstringClause_text {p : String} :
    (getSubstringClause column (getSearchedText p)).eval database stored row = .yes ↔
      ∃ a, y = some a ∧ Holds database.same (getSearchedText p) a.toList := by
  have hplain : (getSubstringClause column (getSearchedText p)).eval database stored row =
      (getSubstringClause ⟨"", false⟩ (getSearchedText p)).eval database stored (textRow y) := by
    simp [getSubstringClause, Clause.eval, hread, textRow]
  rw [hplain, eval_getSubstringClause (fits_textValue y) rfl, HoldsSearched, textRow]
  cases y with
  | none => simp [textValue]
  | some a => simp [textValue]

omit hread

variable (lower database tables) in
/-- **The clauses of an operator ask of a column of text what the operator does**, each as SQL reads
the column. -/
theorem yields_getOperatorClauses_text {refusal : PyError → Prop} {name : String} (isLowered : Bool)
    {entry : String × PyValue} (hchecked : isChecked entry)
    (hown : hasOwnOperand .string entry = true) :
    Yields refusal (getOperatorClauses lower ⟨name, isLowered⟩ isLowered entry.1 entry.2)
      fun clauses => ∀ (stored : StoredRows tables) (row : Row), Fits .string (row name) →
        ((∀ clause ∈ clauses, clause.eval database stored row = .yes) ↔
          (readColumn database lower isLowered).Meets database.same (textAt (row name)) entry) := by
  unfold getOperatorClauses TextReading.Meets
  unfold isChecked at hchecked
  unfold hasOwnOperand at hown
  cases hop : FieldOperator.ofName entry.1 with
  | none => simp [hop] at hchecked
  | some op =>
    simp only [hop] at hchecked hown ⊢
    cases op with
    | eq =>
      refine .ok fun stored row hx => ?_
      rw [List.forall_mem_singleton, convertOperand_text lower database hown]
      exact eval_getEqualityClause_text (read_text lower hx isLowered)
    | ne =>
      refine .ok fun stored row hx => ?_
      rw [List.forall_mem_singleton, convertOperand_text lower database hown]
      exact eval_getInequalityClause_text (read_text lower hx isLowered)
    | «in» =>
      obtain ⟨sequenceType, items, hitems⟩ := hchecked
      rw [hitems] at hown ⊢
      have hown : ∀ v ∈ items, isOwn .string v = true := List.all_eq_true.mp hown
      refine .ok fun stored row hx => ?_
      rw [List.forall_mem_singleton, map_convertOperand_text lower database hown,
        eval_getAnyOfClause_text (read_text lower hx isLowered)]
      simp only [List.mem_map, PyValue.items]
      exact exists_congr fun v => and_congr_right fun _ => eq_comm
    | nin =>
      obtain ⟨sequenceType, items, hitems⟩ := hchecked
      rw [hitems] at hown ⊢
      have hown : ∀ v ∈ items, isOwn .string v = true := List.all_eq_true.mp hown
      refine .ok fun stored row hx => ?_
      rw [List.forall_mem_singleton, map_convertOperand_text lower database hown,
        eval_getNoneOfClause_text (read_text lower hx isLowered)]
      simp only [List.mem_map, PyValue.items, not_exists, not_and]
      exact forall_congr' fun v => forall_congr' fun _ => not_congr eq_comm
    | gt | gte | lt | lte =>
      obtain ⟨t, ht⟩ := exists_text hown
      rw [convertOperand_text lower database (Bool.and_eq_true_iff.mp hown).1, ht]
      refine .ok fun stored row hx => ?_
      rw [List.forall_mem_singleton]
      refine (eval_compare_text (read_text lower hx isLowered) _).trans ?_
      simp [TextReading.Both, Comparison.test, Scalar.lt]
    | regex =>
      obtain ⟨p, hp⟩ := hchecked
      rw [hp]
      refine .ok fun stored row hx => ?_
      rw [List.forall_mem_singleton]
      refine (eval_getSubstringClause_text (read_text lower hx isLowered)).trans ?_
      cases isLowered <;> simp [TextReading.Both, readColumn, TextReading.lowered,
        TextReading.exact, textOf, PyScalar.toScalar, Scalar.asText]
    | options => exact .ok fun stored row hx => by simp

/-! ## Filters on text in SQL -/

variable {schema : Schema} {childFields : List String} {name : String}

theorem isTextField_spec (h : isTextField schema name = true) :
    ∃ a, schema.declared name = some a ∧ a.isListField = false ∧ a.isIdField = false ∧
      a.findNestedModel = none ∧ getColumnType a = .string := by
  unfold isTextField at h
  cases ha : schema.declared name with
  | none =>
    rw [ha] at h
    cases h
  | some a =>
    rw [ha] at h
    simp only [Option.any_some, Bool.and_eq_true, Bool.not_eq_true', beq_iff_eq,
      Option.isNone_iff_eq_none] at h
    obtain ⟨⟨⟨hlist, hid⟩, hmodel⟩, htype⟩ := h
    exact ⟨a, rfl, hlist, hid, hmodel, htype⟩

/-- **The column of a text field.** -/
theorem textField_column (hof : tables.Of schema childFields)
    (htext : isTextField schema name = true) :
    tables.listTables.lookup name = none ∧ getColumn tables name = .ok name ∧
      (name, .string) ∈ tables.columns := by
  obtain ⟨a, ha, hlist, -, -, htype⟩ := isTextField_spec htext
  have hchild : name ∉ childFields := by
    intro hchild
    obtain ⟨listTable, hmem⟩ := hof.childTable name hchild
    obtain ⟨b, _, hb, hlistField, _⟩ := getListTable_spec (hof.isChild _ hmem).2
    obtain rfl : a = b := Option.some.inj (ha.symm.trans hb)
    rw [hlist] at hlistField
    cases hlistField
  have hnone : tables.listTables.lookup name = none := by
    by_contra hne
    obtain ⟨listTable, hlookup⟩ := Option.ne_none_iff_exists'.mp hne
    exact hchild (hof.lookup_listTables hlookup).1
  have hkept : (schema.kept childFields).lookup name = some a := by
    rw [schema.lookup_kept, if_neg hchild]
    exact ha
  have hmem : (name, ColumnType.string) ∈ (schema.kept childFields).map columnOf :=
    List.mem_map.mpr ⟨_, mem_of_lookup hkept, by rw [columnOf, htype]⟩
  have hid : name ≠ rowId := by
    rintro rfl
    have hnodup := hof.nodup
    rw [hof.columns_eq, List.map_cons, List.nodup_cons] at hnodup
    exact hnodup.1 (List.mem_map.mpr ⟨_, hmem, rfl⟩)
  have hlookup : tables.columns.lookup name = some .string := by
    rw [hof.lookup_columns hid, if_neg hchild]
    exact (congrArg (Option.map getColumnType) ha).trans (congrArg some htype)
  have hjson : name ∉ tables.jsonFields := by
    intro hcontains
    have hcolumn := hof.jsonColumn name hcontains
    rw [hlookup] at hcolumn
    cases hcolumn
  refine ⟨hnone, ?_, ?_⟩
  · simpa [getColumn, hnone, hlookup] using ⟨schema.notMem_dot ha, hjson⟩
  · rw [hof.columns_eq]
    exact List.mem_cons_of_mem _ hmem

/-- The texts that a row holds. -/
def textsOf (row : Row) (name : String) : Option String := textAt (row name)

/-- **The clause of a condition on a text field**, read as SQL reads the field. -/
theorem yields_translateField_text (hof : tables.Of tables.schema childFields) {condition : PyValue}
    (hcheck : checkField tables.schema name condition = .ok ⟨⟩)
    (htext : isTextCondition tables.schema name condition = true) :
    Yields (fun _ => False) (translateField lower tables name condition)
      (Means database tables fun _ row =>
        (readInSql tables.schema database lower name).MeetsAll database.same (textsOf row name)
          condition) := by
  simp only [isTextCondition, Bool.and_eq_true, Option.isNone_iff_eq_none] at htext
  obtain ⟨⟨hfield, helement⟩, hown⟩ := htext
  obtain ⟨hnone, hcolumn, hmem⟩ := textField_column hof hfield
  have hchecked : ∀ entry ∈ operatorsOf condition, isChecked entry := by
    obtain ⟨entries, _, hfilter, _⟩ | ⟨_, hchecked⟩ := checkField_spec hcheck
    · rw [helement] at hfilter
      cases hfilter
    · exact hchecked
  have hreading : readInSql tables.schema database lower name =
      readColumn database lower (tables.schema.isCaseInsensitive name) := rfl
  unfold translateField translateColumnCondition
  rw [hnone, hcolumn, hreading]
  change Yields _ (getComparisonClause lower ⟨name, tables.schema.isCaseInsensitive name⟩ condition
    (tables.schema.isCaseInsensitive name)) _
  refine (Yields.mapM fun entry hentry => yields_getOperatorClauses_text lower database tables _
    (hchecked entry hentry) (List.all_eq_true.mp hown entry hentry)).bind fun clauses hclauses =>
      .ok fun stored row hrow => ?_
  have hx : Fits .string (row name) := stored.typed row hrow _ hmem
  show (Clause.and clauses.flatten).eval database stored row = .yes ↔
    ∀ entry ∈ operatorsOf condition, (readColumn database lower
      (tables.schema.isCaseInsensitive name)).Meets database.same (textAt (row name)) entry
  rw [eval_and, forall_iff_of_forall₂ hclauses fun entry _ clauses hmean =>
    (hmean stored row hx).symm]
  simp only [List.mem_flatten, forall_exists_index, and_imp]
  exact ⟨fun h cs hcs clause hclause => h clause cs hcs hclause,
    fun h clause cs hcs hclause => h cs hcs clause hclause⟩

/-- The clauses of a filter's entries mean what it asks. -/
def MeanText (database : SqlDatabase) (tables : SchemaTables) (reading : String → TextReading)
    (filter : List Entry) (clauses : List Clause) : Prop :=
  ∀ (stored : StoredRows tables), ∀ row ∈ stored.rows,
    ((∀ clause ∈ clauses, clause.eval database stored row = .yes) ↔
      Filter.MeetsText database.same reading (textsOf row) filter)

/-- The clauses of filters mean what they ask, all together and any of them. -/
def MeanTexts (database : SqlDatabase) (tables : SchemaTables) (reading : String → TextReading)
    (filters : List (List Entry)) (clauses : List Clause) : Prop :=
  ∀ (stored : StoredRows tables), ∀ row ∈ stored.rows,
    ((∀ clause ∈ clauses, clause.eval database stored row = .yes) ↔
      Filter.AllHold (fun name condition =>
        (reading name).MeetsAll database.same (textsOf row name) condition) filters) ∧
    ((∃ clause ∈ clauses, clause.eval database stored row = .yes) ↔
      Filter.AnyHolds (fun name condition =>
        (reading name).MeetsAll database.same (textsOf row name) condition) filters)

mutual

theorem yields_translateEntry_text (hof : tables.Of tables.schema childFields) : ∀ entry : Entry,
    checkEntry tables.schema entry = .ok ⟨⟩ →
    Entry.all (isTextCondition tables.schema) entry = true →
    Yields (fun _ => False) (translateEntry lower tables entry)
      (Means database tables fun _ row => entry.Holds fun name condition =>
        (readInSql tables.schema database lower name).MeetsAll database.same (textsOf row name)
          condition)
  | .field name condition, hcheck, htext => yields_translateField_text hof hcheck htext
  | .logical operator filters, hcheck, htext => by
    have hcheck : checkFilters tables.schema filters = .ok ⟨⟩ := checkFilters_of_logical hcheck
    have hitems := yields_translateItems_text hof filters hcheck htext
    cases operator with
    | and =>
      refine hitems.map fun clauses hclauses stored row hrow => ?_
      exact eval_and.trans (hclauses stored row hrow).1
    | or =>
      refine hitems.map fun clauses hclauses stored row hrow => ?_
      exact eval_or.trans (hclauses stored row hrow).2

theorem yields_translateEntries_text (hof : tables.Of tables.schema childFields) :
    ∀ filter : List Entry, checkFilter tables.schema filter = .ok ⟨⟩ →
    Filter.all (isTextCondition tables.schema) filter = true →
    Yields (fun _ => False) (translateEntries lower tables filter)
      (MeanText database tables (readInSql tables.schema database lower) filter)
  | [], _, _ => .ok fun stored row hrow => by simp [Filter.MeetsText, Filter.Holds]
  | entry :: entries, hcheck, htext => by
    obtain ⟨htext, htexts⟩ := Bool.and_eq_true_iff.mp htext
    obtain ⟨_, hentry, hcheck⟩ := bind_ok hcheck
    rw [translateEntries]
    refine (yields_translateEntry_text hof entry hentry htext).bind fun clause hclause => ?_
    refine (yields_translateEntries_text hof entries hcheck htexts).bind fun clauses hclauses => ?_
    refine .ok fun stored row hrow => ?_
    rw [List.forall_mem_cons, Filter.MeetsText, Filter.Holds]
    exact and_congr (hclause stored row hrow) (hclauses stored row hrow)

theorem yields_translateItems_text (hof : tables.Of tables.schema childFields) :
    ∀ filters : List (List Entry), checkFilters tables.schema filters = .ok ⟨⟩ →
    Filter.eachAll (isTextCondition tables.schema) filters = true →
    Yields (fun _ => False) (translateItems lower tables filters)
      (MeanTexts database tables (readInSql tables.schema database lower) filters)
  | [], _, _ => .ok fun stored row hrow => by simp [Filter.AllHold, Filter.AnyHolds]
  | filter :: filters, hcheck, htext => by
    obtain ⟨htext, htexts⟩ := Bool.and_eq_true_iff.mp htext
    obtain ⟨_, hfilter, hcheck⟩ := bind_ok hcheck
    rw [translateItems]
    refine (yields_translateEntries_text hof filter hfilter htext).bind fun clauses hclauses => ?_
    refine (yields_translateItems_text hof filters hcheck htexts).bind fun items hitems => ?_
    refine .ok fun stored row hrow => ?_
    obtain ⟨hall, hany⟩ := hitems stored row hrow
    have hfirst := eval_conditions.trans (hclauses stored row hrow)
    rw [List.forall_mem_cons, List.exists_mem_cons_iff, Filter.AllHold, Filter.AnyHolds]
    exact ⟨and_congr hfirst hall, or_congr hfirst hany⟩

end

/-- **The WHERE clause of a filter on text** is true of the rows that meet it, each field read as SQL
reads it, and that have not expired. -/
theorem translateFilter_sql (hof : tables.Of tables.schema childFields) (lower : String → String)
    (database : SqlDatabase) (now : ℤ) {filter : Filter}
    (hcheck : checkFilter tables.schema filter = .ok ⟨⟩)
    (htext : Filter.all (isTextCondition tables.schema) filter = true) :
    ∃ clause, translateFilter lower tables now filter = .ok clause ∧
      ∀ (stored : StoredRows tables), ∀ row ∈ stored.rows,
        clause.eval database stored row = .yes ↔
          filter.MeetsText database.same (readInSql tables.schema database lower) (textsOf row) ∧
            Unexpired tables.schema now (stored.recordOf row) := by
  have hconditions : Yields (fun _ => False) (translateConditions lower tables filter)
      (Means database tables fun _ row =>
        Filter.MeetsText database.same (readInSql tables.schema database lower) (textsOf row)
          filter) :=
    (yields_translateEntries_text hof filter hcheck htext).bind fun clauses hclauses =>
      .ok fun stored row hrow => eval_conditions.trans (hclauses stored row hrow)
  refine (hconditions.bind fun clause hclause => ?_).exists_ok fun _ h => h.elim
  cases hfield : tables.schema.storage.expires with
  | none =>
    refine .ok fun stored row hrow => ?_
    rw [eval_and, List.forall_mem_singleton, hclause stored row hrow]
    exact (and_iff_left fun field hmem => by simp [hfield] at hmem).symm
  | some field =>
    have hcolumn : ¬ (tables.columns.lookup field).isNone = true := by
      have hsome := hof.expires field hfield
      simpa using Option.isSome_iff_ne_none.mp hsome
    dsimp only
    rw [if_neg hcolumn]
    refine .ok fun stored row hrow => ?_
    rw [eval_and, List.forall_mem_cons, List.forall_mem_singleton, hclause stored row hrow,
      eval_expires hof hfield hrow]

end

/-! ## Filters on text in MongoDB -/

namespace Mongo

/-- What a document holds of a text. -/
def textBson : Option String → Bson
  | none => .null
  | some t => .scalar (.value (.text t))

/-- The text that a stored value is. -/
def textIn : Bson → Option String
  | .scalar (.value s) => s.asText
  | _ => none

/-- The texts that a document holds. -/
def textsIn (document : Document) (name : String) : Option String :=
  textIn (Value.get (getDocumentField name) document)

@[simp] theorem textIn_textBson (x : Option String) : textIn (textBson x) = x := by
  cases x <;> rfl

@[simp] theorem textBson_inj {x y : Option String} : textBson x = textBson y ↔ x = y := by
  refine ⟨fun h => ?_, congrArg _⟩
  rw [← textIn_textBson x, h, textIn_textBson]

@[simp] theorem readText_textBson (read : String → String) (x : Option String) :
    readText read (textBson x) = textBson (x.map read) := by
  cases x <;> rfl

/-- A document of a schema: its text fields hold texts, and it expires at a datetime, if it does. -/
structure IsOf (document : Document) (schema : Schema) : Prop where
  texts : ∀ name, isTextField schema name = true →
    ∃ x, Value.get (getDocumentField name) document = textBson x
  expires : ∀ field ∈ schema.storage.expires, Value.get field document = .null ∨
    ∃ t, Value.get field document = .scalar (.value (.datetime t))

theorem convertToBson_text {v : PyValue} (hown : isOwn .string v = true) {b : Bson}
    (h : convertToBson v = .ok b) : b = textBson (textOf v) := by
  cases v with
  | none =>
    cases h
    rfl
  | scalar s =>
    cases s with
    | str | strEnum | uuid | path =>
      cases h
      rfl
    | bool | int | float | intEnum | datetime => cases hown
  | sequence | dict => cases hown

theorem convertItems_text {items : List PyValue} (hown : ∀ v ∈ items, isOwn .string v = true)
    {bs : List Bson} (h : convertItems items = .ok bs) :
    bs = items.map fun v => textBson (textOf v) := by
  induction items generalizing bs with
  | nil =>
    cases h
    rfl
  | cons v items ih =>
    obtain ⟨b, hb, h⟩ := bind_ok h
    obtain ⟨bs', hbs, h⟩ := bind_ok h
    cases h
    obtain ⟨hv, hitems⟩ := List.forall_mem_cons.mp hown
    rw [convertToBson_text hv hb, ih hitems hbs, List.map_cons]

section

variable {same : Char → Char → Bool} {r : TextReading} {x : Option String}

/-- **An operator asks of a document's text what it does of a text**, where a search needs no
reading. -/
theorem operatorMatches_text (hsearch : r.searched = id) {operator : String} {v : PyValue}
    (hchecked : isChecked (operator, v)) (hown : hasOwnOperand .string (operator, v) = true) {b : Bson}
    (hb : convertToBson v = .ok b) :
    OperatorMatches same r [textBson x] (operator, b) ↔ r.Meets same x (operator, v) := by
  unfold OperatorMatches TextReading.Meets
  unfold isChecked at hchecked
  unfold hasOwnOperand at hown
  have hcompare (test : Scalar → Scalar → Bool) {t : String} (ht : b = textBson (some t)) :
      Compares r test [textBson x] b ↔
        ∃ a, x = some a ∧ test (.text (r.stored a)) (.text (r.asked t)) = true := by
    subst ht
    unfold Compares
    cases x with
    | none => simp [textBson, readText]
    | some a => simp [textBson, readText, Scalar.kind]
  cases hop : FieldOperator.ofName operator with
  | none => simp [hop] at hchecked
  | some op =>
    simp only [hop] at hchecked hown ⊢
    cases op with
    | eq =>
      rw [convertToBson_text hown hb]
      simp [eq_comm]
    | ne =>
      rw [convertToBson_text hown hb]
      simp [eq_comm]
    | «in» =>
      obtain ⟨sequenceType, items, rfl⟩ := hchecked
      have hown : ∀ v ∈ items, isOwn .string v = true := List.all_eq_true.mp hown
      obtain ⟨bs, hbs, hb⟩ := bind_ok hb
      cases hb
      rw [convertItems_text hown hbs]
      simp [Value.items, PyValue.items, eq_comm]
    | nin =>
      obtain ⟨sequenceType, items, rfl⟩ := hchecked
      have hown : ∀ v ∈ items, isOwn .string v = true := List.all_eq_true.mp hown
      obtain ⟨bs, hbs, hb⟩ := bind_ok hb
      cases hb
      rw [convertItems_text hown hbs]
      simp only [Value.items, PyValue.items, List.mem_map, forall_exists_index, and_imp,
        forall_apply_eq_imp_iff₂, List.map_cons, List.map_nil, readText_textBson,
        List.mem_singleton, textBson_inj]
      exact forall_congr' fun v => forall_congr' fun _ => not_congr eq_comm
    | gt | gte | lt | lte =>
      obtain ⟨t, ht⟩ := exists_text hown
      have hbt := convertToBson_text (Bool.and_eq_true_iff.mp hown).1 hb
      rw [ht] at hbt ⊢
      refine (hcompare _ hbt).trans ?_
      simp [TextReading.Both, Scalar.lt]
    | regex =>
      obtain ⟨p, rfl⟩ := hchecked
      cases hb
      cases x <;> simp [TextReading.Both, textOf, PyScalar.toScalar, Scalar.asText, hsearch, textBson]
    | options => simp

variable {schema : Schema} {document : Document} {name : String}

theorem convertToBsonValue_text (htext : isTextField schema name = true) (v : PyValue) :
    convertToBsonValue schema name v = convertToBson v := by
  obtain ⟨a, ha, -, hid, hmodel, -⟩ := isTextField_spec htext
  rw [convertToBsonValue, resolveField_declared ha]
  simp [Except.mapError, bind, Except.bind, hid, hmodel]

theorem candidates_text (hname : '.' ∉ (getDocumentField name).toList)
    (hx : Value.get (getDocumentField name) document = textBson x) :
    (Value.document document).candidates (pathParts (getDocumentField name)) = [textBson x] := by
  rw [pathParts_name hname, Value.candidates_field, hx]
  cases x <;> rfl

theorem isOperatorName_of_isChecked {entry : String × PyValue} (h : isChecked entry) :
    isOperatorName entry.1 = true := by
  unfold isChecked at h
  cases hop : FieldOperator.ofName entry.1 with
  | none => simp [hop] at h
  | some operator =>
    have hmem := mem_of_lookup hop
    simp only [List.mem_cons, Prod.mk.injEq, List.not_mem_nil, or_false] at hmem
    obtain ⟨hname, -⟩ | ⟨hname, -⟩ | ⟨hname, -⟩ | ⟨hname, -⟩ | ⟨hname, -⟩ | ⟨hname, -⟩ | ⟨hname, -⟩ |
      ⟨hname, -⟩ | ⟨hname, -⟩ | ⟨hname, -⟩ := hmem <;> rw [hname] <;> decide

theorem not_elementMatch {condition : PyValue}
    (hchecked : ∀ entry ∈ Mss.operatorsOf condition, isChecked entry) :
    (isOperatorMap condition && hasKey elementMatch condition) = false := by
  rw [Bool.eq_false_iff]
  intro h
  obtain ⟨hmap, hkey⟩ := Bool.and_eq_true_iff.mp h
  cases condition with
  | dict entries =>
    obtain ⟨entry, hentry, hname⟩ := List.any_eq_true.mp hkey
    have hin : entry ∈ Mss.operatorsOf (.dict entries) := by
      rw [Mss.operatorsOf, if_pos hmap]
      exact hentry
    have hop := hchecked entry hin
    rw [isChecked, beq_iff_eq.mp hname, ofName_elementMatch] at hop
    exact hop
  | none | scalar | sequence => cases hmap

/-- **The operators of a translated condition** are those of the condition, with MongoDB's values. -/
theorem operatorsOf_translateCondition (htext : isTextField schema name = true) {condition : PyValue}
    (hchecked : ∀ entry ∈ Mss.operatorsOf condition, isChecked entry)
    (hown : hasOwnOperands .string condition = true) {b : Bson}
    (h : translateCondition schema name condition = .ok b) :
    List.Forall₂ (fun entry operator => operator.1 = entry.1 ∧ convertToBson entry.2 = .ok operator.2)
      (Mss.operatorsOf condition) (operatorsOf b) := by
  have hvalue (hsame : Mss.operatorsOf condition = [("$eq", condition)])
      (h : convertToBsonValue schema name condition = .ok b) :
      List.Forall₂ (fun entry operator =>
        operator.1 = entry.1 ∧ convertToBson entry.2 = .ok operator.2)
        (Mss.operatorsOf condition) (operatorsOf b) := by
    rw [convertToBsonValue_text htext] at h
    rw [hasOwnOperands, hsame] at hown
    have hb := convertToBson_text (List.all_eq_true.mp hown _ List.mem_cons_self) h
    have hoperators : operatorsOf b = [("$eq", b)] := by
      rw [hb]
      cases textOf condition <;> rfl
    rw [hsame, hoperators]
    exact .cons ⟨rfl, h⟩ .nil
  cases condition with
  | none | scalar | sequence => exact hvalue rfl h
  | dict entries =>
    rw [translateCondition] at h
    by_cases hmap : isOperatorMap (.dict entries) = true
    · rw [if_pos hmap] at h
      have hentries : Mss.operatorsOf (.dict entries) = entries := by
        rw [Mss.operatorsOf, if_pos hmap]
      rw [hentries] at hchecked ⊢
      obtain ⟨operators, hoperators, h⟩ := bind_ok h
      cases h
      have hall : List.Forall₂ (fun entry operator =>
          operator.1 = entry.1 ∧ convertToBson entry.2 = .ok operator.2) entries operators := by
        refine (forall₂_of_mapM hoperators).imp fun entry operator hentry => ?_
        obtain ⟨value, hvalue, hentry⟩ := bind_ok hentry
        cases hentry
        exact ⟨rfl, (convertToBsonValue_text htext entry.2).symm.trans hvalue⟩
      cases hall with
      | nil => cases hmap
      | @cons entry operator entries operators hfirst hrest =>
        have hname : isOperatorName operator.1 = true := by
          rw [hfirst.1]
          exact isOperatorName_of_isChecked (hchecked entry List.mem_cons_self)
        rw [operatorsOf, if_pos hname]
        exact .cons hfirst hrest
    · rw [if_neg hmap] at h
      refine hvalue ?_ h
      rw [Mss.operatorsOf, if_neg hmap]

theorem entryMatches_field (hname : isOperatorName name = false) (b : Bson) :
    EntryMatches same r document name b ↔ FieldMatches same r document name b := by
  have hand : name ≠ "$and" := by
    rintro rfl
    exact absurd hname (by decide)
  have hor : name ≠ "$or" := by
    rintro rfl
    exact absurd hname (by decide)
  cases b with
  | list queries => rw [EntryMatches, if_neg hand, if_neg hor]
  | null | scalar | document => rw [EntryMatches]; simp

theorem lookup_options {entries : List (String × PyValue)}
    (hkeys : entries.map Prod.fst = ["$regex", "$options"] ∨
      entries.map Prod.fst = ["$options", "$regex"]) {operand : PyValue}
    (hmem : ("$options", operand) ∈ entries) : entries.lookup "$options" = some operand := by
  have hnodup : (entries.map Prod.fst).Nodup := by
    obtain hkeys | hkeys := hkeys
    all_goals
      rw [hkeys]
      decide
  exact lookup_of_mem hnodup hmem

theorem options_text {field : String} {condition : PyValue}
    (h : checkCondition field condition = .ok ⟨⟩) : ∀ entry ∈ Mss.operatorsOf condition,
      FieldOperator.ofName entry.1 = some .options → ∃ s, entry.2 = .scalar (.str s) := by
  rintro ⟨name, operand⟩ hentry hop
  obtain rfl : name = "$options" := by
    have hmem := mem_of_lookup hop
    simpa using hmem
  have hvalue : ∀ v : PyValue, ("$options", operand) ∉ [("$eq", v)] := by simp
  cases condition with
  | none | scalar | sequence => exact absurd hentry (hvalue _)
  | dict entries =>
    by_cases hmap : isOperatorMap (.dict entries) = true
    · rw [Mss.operatorsOf, if_pos hmap] at hentry
      have hkey : (hasKey "$regex" (.dict entries) || hasKey "$options" (.dict entries)) = true := by
        rw [Bool.or_eq_true]
        exact .inr (List.any_eq_true.mpr ⟨_, hentry, by simp⟩)
      simp only [checkCondition, hmap, if_true, if_pos hkey] at h
      obtain ⟨_, hsearch, -⟩ := bind_ok h
      simp only [checkTextSearch] at hsearch
      split at hsearch
      · cases hsearch
      · rename_i hkeys
        rw [not_or, not_and_or, not_not, not_not] at hkeys
        obtain ⟨hkeys, htext⟩ := hkeys
        rw [lookup_options hkeys hentry] at htext
        unfold PyValue.isText at htext
        simp only [Option.any_some] at htext
        split at htext
        · rename_i s
          exact ⟨s, rfl⟩
        · simp at htext
    · rw [Mss.operatorsOf, if_neg hmap] at hentry
      exact absurd hentry (hvalue _)

theorem yields_convertToBson {v : PyValue} (hown : isOwn .string v = true) :
    Yields (fun _ => False) (convertToBson v) fun _ => True := by
  cases v with
  | none => exact .ok trivial
  | scalar s =>
    cases s with
    | str | strEnum | uuid | path => exact .ok trivial
    | bool | int | float | intEnum | datetime => cases hown
  | sequence | dict => cases hown

theorem yields_convertItems {items : List PyValue} (hown : ∀ v ∈ items, isOwn .string v = true) :
    Yields (fun _ => False) (convertItems items) fun _ => True := by
  induction items with
  | nil => exact .ok trivial
  | cons v items ih =>
    obtain ⟨hv, hitems⟩ := List.forall_mem_cons.mp hown
    rw [convertItems]
    exact (yields_convertToBson hv).bind fun _ _ => (ih hitems).bind fun _ _ => .ok trivial

theorem yields_operand {entry : String × PyValue} (hchecked : isChecked entry)
    (hown : hasOwnOperand .string entry = true)
    (hoptions : FieldOperator.ofName entry.1 = some .options → ∃ s, entry.2 = .scalar (.str s)) :
    Yields (fun _ => False) (convertToBson entry.2) fun _ => True := by
  unfold isChecked at hchecked
  unfold hasOwnOperand at hown
  cases hop : FieldOperator.ofName entry.1 with
  | none => simp [hop] at hchecked
  | some op =>
    simp only [hop] at hchecked hown
    cases op with
    | eq | ne => exact yields_convertToBson hown
    | gt | gte | lt | lte | regex => exact yields_convertToBson (Bool.and_eq_true_iff.mp hown).1
    | «in» | nin =>
      obtain ⟨sequenceType, items, hitems⟩ := hchecked
      rw [hitems] at hown ⊢
      rw [convertToBson]
      exact (yields_convertItems (List.all_eq_true.mp hown)).bind fun _ _ => .ok trivial
    | options =>
      obtain ⟨s, hs⟩ := hoptions hop
      rw [hs]
      exact .ok trivial

theorem checkCondition_of_checkField {condition : PyValue}
    (hcheck : checkField schema name condition = .ok ⟨⟩) (helement : elementFilterOf condition = none) :
    (∀ entry ∈ Mss.operatorsOf condition, isChecked entry) ∧
      checkCondition name condition = .ok ⟨⟩ := by
  have hchecked : ∀ entry ∈ Mss.operatorsOf condition, isChecked entry := by
    obtain ⟨entries, _, hfilter, _⟩ | ⟨_, hchecked⟩ := checkField_spec hcheck
    · rw [helement] at hfilter
      cases hfilter
    · exact hchecked
  refine ⟨hchecked, ?_⟩
  unfold checkField at hcheck
  split at hcheck
  · cases hcheck
  · rw [not_elementMatch hchecked, if_neg Bool.false_ne_true] at hcheck
    obtain ⟨fieldInfo, _, hcheck⟩ := bind_ok hcheck
    split at hcheck
    · cases hcheck
    · exact hcheck

theorem yields_translateField {condition : PyValue}
    (hcheck : checkField schema name condition = .ok ⟨⟩)
    (htext : isTextCondition schema name condition = true) :
    Yields (fun _ => False) (translateField schema name condition) fun _ => True := by
  simp only [isTextCondition, Bool.and_eq_true, Option.isNone_iff_eq_none] at htext
  obtain ⟨⟨hfield, helement⟩, hown⟩ := htext
  obtain ⟨hchecked, hcondition⟩ := checkCondition_of_checkField hcheck helement
  have hoperands : ∀ entry ∈ Mss.operatorsOf condition,
      Yields (fun _ => False) (convertToBsonValue schema name entry.2) fun _ => True :=
    fun entry hentry => by
      rw [convertToBsonValue_text hfield]
      exact yields_operand (hchecked entry hentry) (List.all_eq_true.mp hown entry hentry)
        (options_text hcondition entry hentry)
  have htranslated : Yields (fun _ => False) (translateCondition schema name condition)
      fun _ => True := by
    cases condition with
    | none | scalar | sequence => exact hoperands ("$eq", _) List.mem_cons_self
    | dict entries =>
      rw [translateCondition]
      split_ifs with hmap
      · rw [Mss.operatorsOf, if_pos hmap] at hoperands
        have hentries : Yields (fun _ => False) (entries.mapM fun entry => do
            return (entry.1, ← convertToBsonValue schema name entry.2))
            (List.Forall₂ (fun _ _ => True) entries) :=
          Yields.mapM fun entry hentry => (hoperands entry hentry).bind fun _ _ => .ok trivial
        exact hentries.bind fun _ _ => .ok trivial
      · rw [Mss.operatorsOf, if_neg hmap] at hoperands
        exact hoperands ("$eq", _) List.mem_cons_self
  unfold translateField
  rw [not_elementMatch hchecked, if_neg Bool.false_ne_true]
  exact htranslated.bind fun _ _ => .ok trivial

mutual

theorem yields_translateEntry : ∀ entry : Entry, checkEntry schema entry = .ok ⟨⟩ →
    Entry.all (isTextCondition schema) entry = true →
    Yields (fun _ => False) (translateEntry schema entry) fun _ => True
  | .field name condition, hcheck, htext => yields_translateField hcheck htext
  | .logical operator filters, hcheck, htext => by
    rw [translateEntry]
    exact (yields_translateFilters filters (checkFilters_of_logical hcheck) htext).bind
      fun _ _ => .ok trivial

/-- **The query of a filter on text is built.** -/
theorem yields_translateFilter : ∀ filter : List Entry, checkFilter schema filter = .ok ⟨⟩ →
    Filter.all (isTextCondition schema) filter = true →
    Yields (fun _ => False) (translateFilter schema filter) fun _ => True
  | [], _, _ => .ok trivial
  | entry :: entries, hcheck, htext => by
    obtain ⟨htext, htexts⟩ := Bool.and_eq_true_iff.mp htext
    obtain ⟨_, hentry, hcheck⟩ := bind_ok hcheck
    rw [translateFilter]
    exact (yields_translateEntry entry hentry htext).bind fun _ _ =>
      (yields_translateFilter entries hcheck htexts).bind fun _ _ => .ok trivial

theorem yields_translateFilters : ∀ filters : List (List Entry),
    checkFilters schema filters = .ok ⟨⟩ →
    Filter.eachAll (isTextCondition schema) filters = true →
    Yields (fun _ => False) (translateFilters schema filters) fun _ => True
  | [], _, _ => .ok trivial
  | filter :: filters, hcheck, htext => by
    obtain ⟨htext, htexts⟩ := Bool.and_eq_true_iff.mp htext
    obtain ⟨_, hfilter, hcheck⟩ := bind_ok hcheck
    rw [translateFilters]
    exact (yields_translateFilter filter hfilter htext).bind fun _ _ =>
      (yields_translateFilters filters hcheck htexts).bind fun _ _ => .ok trivial

end

/-- **The entry of a condition on a text field** asks of a document what the condition does of its
text. -/
theorem translateField_text (hsearch : r.searched = id) {condition : PyValue}
    (hcheck : checkField schema name condition = .ok ⟨⟩)
    (htext : isTextCondition schema name condition = true) (hdocument : IsOf document schema)
    {entry : String × Bson} (h : translateField schema name condition = .ok entry) :
    EntryMatches same r document entry.1 entry.2 ↔
      r.MeetsAll same (textsIn document name) condition := by
  simp only [isTextCondition, Bool.and_eq_true, Option.isNone_iff_eq_none] at htext
  obtain ⟨⟨hfield, helement⟩, hown⟩ := htext
  obtain ⟨hchecked, -⟩ := checkCondition_of_checkField hcheck helement
  obtain ⟨a, ha, -⟩ := isTextField_spec hfield
  have hoperator : isOperatorName (getDocumentField name) = false := by
    unfold getDocumentField
    split_ifs
    · decide
    · unfold checkField at hcheck
      split at hcheck
      · cases hcheck
      · simpa using ‹¬ isOperatorName name = true›
  have hdot : '.' ∉ (getDocumentField name).toList := by
    unfold getDocumentField
    split_ifs
    · decide
    · exact schema.notMem_dot ha
  unfold translateField at h
  rw [not_elementMatch hchecked] at h
  obtain ⟨b, hb, h⟩ := bind_ok h
  cases h
  obtain ⟨x, hx⟩ := hdocument.texts name hfield
  have htexts : textsIn document name = x := by rw [textsIn, hx, textIn_textBson]
  rw [entryMatches_field hoperator, FieldMatches, candidates_text hdot hx, htexts]
  refine (forall_iff_of_forall₂ (operatorsOf_translateCondition hfield hchecked hown hb)
    fun entry hentry operator hoperator => ?_).symm
  obtain ⟨hname, hconvert⟩ := hoperator
  have hmeets : OperatorMatches same r [textBson x] (entry.1, operator.2) ↔
      r.Meets same x (entry.1, entry.2) :=
    operatorMatches_text hsearch (hchecked entry hentry) (List.all_eq_true.mp hown entry hentry)
      hconvert
  rw [← hmeets, ← hname]

mutual

theorem translateEntry_text (hsearch : r.searched = id) (hdocument : IsOf document schema) :
    ∀ (entry : Entry) (e : String × Bson), checkEntry schema entry = .ok ⟨⟩ →
    Entry.all (isTextCondition schema) entry = true → translateEntry schema entry = .ok e →
    (EntryMatches same r document e.1 e.2 ↔ entry.Holds fun name condition =>
      r.MeetsAll same (textsIn document name) condition)
  | .field name condition, e, hcheck, htext, h => translateField_text hsearch hcheck htext hdocument h
  | .logical operator filters, e, hcheck, htext, h => by
    have hcheck : checkFilters schema filters = .ok ⟨⟩ := checkFilters_of_logical hcheck
    obtain ⟨queries, hqueries, h⟩ := bind_ok h
    cases h
    have hlist := translateFilters_text hsearch hdocument filters queries hcheck htext hqueries
    cases operator with
    | and =>
      show EntryMatches same r document "$and" (.list queries) ↔ _
      rw [EntryMatches, if_pos rfl]
      exact hlist.1
    | or =>
      show EntryMatches same r document "$or" (.list queries) ↔ _
      rw [EntryMatches, if_neg (by decide), if_pos rfl]
      exact hlist.2

/-- **The query of a filter on text** asks of a document what the filter does of its texts, every
field read one way. -/
theorem translateFilter_text (hsearch : r.searched = id) (hdocument : IsOf document schema) :
    ∀ (filter : List Entry) (query : Document), checkFilter schema filter = .ok ⟨⟩ →
    Filter.all (isTextCondition schema) filter = true → translateFilter schema filter = .ok query →
    (QueryMatches same r document query ↔
      Filter.MeetsText same (fun _ => r) (textsIn document) filter)
  | [], query, _, _, h => by
    cases h
    simp [QueryMatches, Filter.MeetsText, Filter.Holds]
  | entry :: entries, query, hcheck, htext, h => by
    obtain ⟨htext, htexts⟩ := Bool.and_eq_true_iff.mp htext
    obtain ⟨_, hentry, hcheck⟩ := bind_ok hcheck
    obtain ⟨e, he, h⟩ := bind_ok h
    obtain ⟨es, hes, h⟩ := bind_ok h
    cases h
    rw [QueryMatches, Filter.MeetsText, Filter.Holds]
    exact and_congr (translateEntry_text hsearch hdocument entry e hentry htext he)
      (translateFilter_text hsearch hdocument entries es hcheck htexts hes)

theorem translateFilters_text (hsearch : r.searched = id) (hdocument : IsOf document schema) :
    ∀ (filters : List (List Entry)) (queries : List Bson), checkFilters schema filters = .ok ⟨⟩ →
    Filter.eachAll (isTextCondition schema) filters = true →
    translateFilters schema filters = .ok queries →
    (EachMatches same r document queries ↔ Filter.AllHold (fun name condition =>
      r.MeetsAll same (textsIn document name) condition) filters) ∧
    (OneMatches same r document queries ↔ Filter.AnyHolds (fun name condition =>
      r.MeetsAll same (textsIn document name) condition) filters)
  | [], queries, _, _, h => by
    cases h
    simp [EachMatches, OneMatches, Filter.AllHold, Filter.AnyHolds]
  | filter :: filters, queries, hcheck, htext, h => by
    obtain ⟨htext, htexts⟩ := Bool.and_eq_true_iff.mp htext
    obtain ⟨_, hfilter, hcheck⟩ := bind_ok hcheck
    obtain ⟨query, hquery, h⟩ := bind_ok h
    obtain ⟨queries, hqueries, h⟩ := bind_ok h
    cases h
    have hfirst := translateFilter_text hsearch hdocument filter query hfilter htext hquery
    obtain ⟨hall, hany⟩ := translateFilters_text hsearch hdocument filters queries hcheck htexts
      hqueries
    rw [EachMatches, OneMatches, BodyMatches, Filter.AllHold, Filter.AnyHolds]
    exact ⟨and_congr hfirst hall, or_congr hfirst hany⟩

end

end

/-- **The document has not expired**, to the millisecond. -/
def Unexpired (schema : Schema) (now : ℤ) (document : Document) : Prop :=
  ∀ field ∈ schema.storage.expires, Value.get field document = .null ∨
    ∃ t, Value.get field document = .scalar (.value (.datetime t)) ∧ toMilliseconds now < t

section

variable {same : Char → Char → Bool} {r : TextReading} {schema : Schema} {document : Document}

/-- **The query of expiry** is met by the documents that have not expired. -/
theorem queryMatches_isUnexpired (hdocument : IsOf document schema) {field : String}
    (hfield : schema.storage.expires = some field) (now : ℤ) :
    QueryMatches same r document (isUnexpired field now) ↔ Unexpired schema now document := by
  obtain ⟨a, ha, -⟩ := Option.map_eq_some_iff.mp (schema.expiresAt field hfield)
  have hvalues : (Value.document document).candidates (pathParts field) =
      [Value.get field document] := by
    rw [pathParts_name (schema.notMem_dot ha), Value.candidates_field]
    obtain hnull | ⟨t, ht⟩ := hdocument.expires field hfield
    · rw [hnull]
      rfl
    · rw [ht]
      rfl
  have hnull : FieldMatches same r document field .null ↔ Value.get field document = .null := by
    rw [FieldMatches, hvalues]
    obtain hget | ⟨t, ht⟩ := hdocument.expires field hfield
    · simp [operatorsOf, OperatorMatches, FieldOperator.ofName, hget, readText]
    · simp [operatorsOf, OperatorMatches, FieldOperator.ofName, ht, readText]
  have hlater : FieldMatches same r document field
      (.document [("$gt", .scalar (.value (.datetime (toMilliseconds now))))]) ↔
        ∃ t, Value.get field document = .scalar (.value (.datetime t)) ∧ toMilliseconds now < t := by
    have hoperators : operatorsOf (.document
        [("$gt", .scalar (.value (.datetime (toMilliseconds now))))]) =
        [("$gt", .scalar (.value (.datetime (toMilliseconds now))))] := by
      rw [operatorsOf, if_pos (by decide)]
    rw [FieldMatches, hvalues, hoperators, List.forall_mem_singleton]
    obtain hget | ⟨t, ht⟩ := hdocument.expires field hfield
    · simp [OperatorMatches, FieldOperator.ofName, List.lookup_cons, hget, Compares, readText]
    · simp [OperatorMatches, FieldOperator.ofName, List.lookup_cons, ht, Compares, readText,
        Scalar.kind, Scalar.lt]
  rw [Unexpired, hfield]
  simp [isUnexpired, QueryMatches, EntryMatches, OneMatches, BodyMatches, hnull, hlater]

theorem translateUnexpiredFilter_ok (now : ℤ) {filter : Filter}
    (hcheck : checkFilter schema filter = .ok ⟨⟩)
    (htext : Filter.all (isTextCondition schema) filter = true) :
    ∃ query, translateUnexpiredFilter schema now filter = .ok query := by
  have hbuilt : Yields (fun _ => False) (translateUnexpiredFilter schema now filter)
      fun _ => True := by
    unfold translateUnexpiredFilter
    refine (yields_translateFilter filter hcheck htext).bind fun query _ => ?_
    cases schema.storage.expires with
    | none => exact .ok trivial
    | some field =>
      dsimp only
      split_ifs
      · exact .ok trivial
      · exact .ok trivial
  obtain ⟨query, hquery, -⟩ := hbuilt.exists_ok fun _ h => h.elim
  exact ⟨query, hquery⟩

/-- **The query of the unexpired records of a filter on text.** -/
theorem translateUnexpiredFilter_text (hsearch : r.searched = id) (hdocument : IsOf document schema)
    {now : ℤ} {filter : Filter} {query : Document} (hcheck : checkFilter schema filter = .ok ⟨⟩)
    (htext : Filter.all (isTextCondition schema) filter = true)
    (h : translateUnexpiredFilter schema now filter = .ok query) :
    QueryMatches same r document query ↔
      filter.MeetsText same (fun _ => r) (textsIn document) ∧ Unexpired schema now document := by
  obtain ⟨inner, hinner, h⟩ := bind_ok h
  have hfilter : QueryMatches same r document inner ↔
      filter.MeetsText same (fun _ => r) (textsIn document) :=
    translateFilter_text hsearch hdocument filter inner hcheck htext hinner
  cases hfield : schema.storage.expires with
  | none =>
    rw [hfield] at h
    cases h
    rw [hfilter]
    exact (and_iff_left fun field hmem => by simp [hfield] at hmem).symm
  | some field =>
    rw [hfield] at h
    have hexpiry : QueryMatches same r document (isUnexpired field now) ↔
        Unexpired schema now document := queryMatches_isUnexpired hdocument hfield now
    dsimp only at h
    split_ifs at h with hempty
    · cases h
      rw [List.isEmpty_iff.mp hempty] at hfilter
      rw [hexpiry, ← hfilter]
      exact (and_iff_right trivial).symm
    · cases h
      rw [← hfilter, ← hexpiry]
      simp [QueryMatches, EntryMatches, EachMatches, BodyMatches]

end

end Mongo

/-! ## Both stores -/

/-- **SQL finds a row where it should**: where it has not expired and meets the filter, each field
without case exactly if it is case-insensitive. -/
def FindsInSql (fold lower : String → String) (database : SqlDatabase) {tables : SchemaTables}
    (now : ℤ) (filter : Filter) (stored : StoredRows tables) (row : Row) : Prop :=
  ∃ clause, translateFilter lower tables now filter = .ok clause ∧
    (clause.eval database stored row = .yes ↔
      filter.MeetsText database.same (readIntended tables.schema fold) (textsOf row) ∧
        Unexpired tables.schema now (stored.recordOf row))

/-- **MongoDB finds a document where it should.** -/
def FindsInMongo (fold : String → String) (same : Char → Char → Bool) (server : MongoServer)
    (schema : Schema) (now : ℤ) (filter : Filter) (document : Document) : Prop :=
  ∃ query, Mongo.translateUnexpiredFilter schema now filter = .ok query ∧
    (server.isMatch (Mongo.getQueryCollation schema filter) query document = true ↔
      filter.MeetsText same (readIntended schema fold) (Mongo.textsIn document) ∧
        Mongo.Unexpired schema now document)

/-- A filter of equalities. -/
def equalities (es : List (String × String)) : Filter :=
  es.map fun e => .field e.1 (.scalar (.str e.2))

theorem meetsText_equalities {same : Char → Char → Bool} {reading : String → TextReading}
    {texts : String → Option String} {es : List (String × String)} :
    (equalities es).MeetsText same reading texts ↔
      ∀ e ∈ es, (texts e.1).map (reading e.1).stored = some ((reading e.1).asked e.2) := by
  induction es with
  | nil => simp [equalities, Filter.MeetsText, Filter.Holds]
  | cons e es ih =>
    rw [List.forall_mem_cons, ← ih]
    have hentry : (reading e.1).MeetsAll same (texts e.1) (.scalar (.str e.2)) ↔
        (texts e.1).map (reading e.1).stored = some ((reading e.1).asked e.2) := by
      rw [TextReading.MeetsAll]
      exact List.forall_mem_singleton
    exact and_congr_left fun _ => hentry

theorem extractFields_equalities (es : List (String × String)) :
    Mongo.extractFields (equalities es) = es.map Prod.fst := by
  induction es with
  | nil => rfl
  | cons e es ih => exact congrArg (e.1 :: ·) ih

section

variable {schema : Schema} {fold : String → String} {name : String}

theorem readIntended_of_caseInsensitive (h : schema.isCaseInsensitive name = true) :
    readIntended schema fold name = .folded fold := if_pos h

theorem readIntended_of_not (h : schema.isCaseInsensitive name = false) :
    readIntended schema fold name = .exact := if_neg (by simp [h])

theorem readInSql_of_caseInsensitive {database : SqlDatabase} {lower : String → String}
    (h : schema.isCaseInsensitive name = true) :
    readInSql schema database lower name = .lowered database lower := if_pos h

theorem readInSql_of_not {database : SqlDatabase} {lower : String → String}
    (h : schema.isCaseInsensitive name = false) :
    readInSql schema database lower name = .exact := if_neg (by simp [h])

theorem readInMongo_of_caseInsensitive {filter : Filter}
    (h : ∃ name ∈ Mongo.extractFields filter, schema.isCaseInsensitive name = true) :
    readInMongo schema fold filter = .folded fold := by
  have hcollation : Mongo.getQueryCollation schema filter = some Mongo.caseInsensitive :=
    if_pos (List.any_eq_true.mpr h)
  rw [readInMongo, readUnder, if_pos hcollation]

theorem searched_readUnder (collation : Option Mongo.Collation) :
    (readUnder fold collation).searched = id := by
  unfold readUnder
  split_ifs <;> rfl

theorem findsInSql_iff {tables : SchemaTables} {childFields : List String}
    (hof : tables.Of tables.schema childFields) {lower : String → String} {database : SqlDatabase}
    {now : ℤ} {filter : Filter} (hcheck : checkFilter tables.schema filter = .ok ⟨⟩)
    (htext : Filter.all (isTextCondition tables.schema) filter = true) {stored : StoredRows tables}
    {row : Row} (hrow : row ∈ stored.rows) :
    FindsInSql fold lower database now filter stored row ↔
      (Unexpired tables.schema now (stored.recordOf row) →
        (filter.MeetsText database.same (readInSql tables.schema database lower) (textsOf row) ↔
          filter.MeetsText database.same (readIntended tables.schema fold) (textsOf row))) := by
  obtain ⟨clause, hclause, heval⟩ := translateFilter_sql hof lower database now hcheck htext
  rw [FindsInSql]
  constructor
  · rintro ⟨clause', hclause', hfinds⟩ hexpiry
    obtain rfl : clause = clause' := Except.ok.inj (hclause.symm.trans hclause')
    rw [heval stored row hrow] at hfinds
    exact ⟨fun h => (hfinds.mp ⟨h, hexpiry⟩).1, fun h => (hfinds.mpr ⟨h, hexpiry⟩).1⟩
  · intro h
    exact ⟨clause, hclause, (heval stored row hrow).trans (and_congr_left h)⟩

theorem findsInMongo_iff {same : Char → Char → Bool} {server : MongoServer} {now : ℤ}
    {filter : Filter} (hcheck : checkFilter schema filter = .ok ⟨⟩)
    (htext : Filter.all (isTextCondition schema) filter = true)
    (hserver : ∀ query, Mongo.translateUnexpiredFilter schema now filter = .ok query →
      server.Collates same fold query) {document : Document}
    (hdocument : Mongo.IsOf document schema) :
    FindsInMongo fold same server schema now filter document ↔
      (Mongo.Unexpired schema now document →
        (filter.MeetsText same (fun _ => readInMongo schema fold filter) (Mongo.textsIn document) ↔
          filter.MeetsText same (readIntended schema fold) (Mongo.textsIn document))) := by
  obtain ⟨query, hquery⟩ := Mongo.translateUnexpiredFilter_ok now hcheck htext
  have heval := (hserver query hquery (Mongo.getQueryCollation schema filter) document).trans
    (Mongo.translateUnexpiredFilter_text (searched_readUnder _) hdocument hcheck htext hquery)
  rw [FindsInMongo]
  constructor
  · rintro ⟨query', hquery', hfinds⟩ hexpiry
    obtain rfl : query = query' := Except.ok.inj (hquery.symm.trans hquery')
    rw [heval] at hfinds
    exact ⟨fun h => (hfinds.mp ⟨h, hexpiry⟩).1, fun h => (hfinds.mpr ⟨h, hexpiry⟩).1⟩
  · intro h
    exact ⟨query, hquery, heval.trans (and_congr_left h)⟩

theorem meetsText_inSql {same : Char → Char → Bool} {lower : String → String}
    {database : SqlDatabase} {v : String} {others : List (String × String)}
    (hname : schema.isCaseInsensitive name = true)
    (hothers : ∀ o ∈ others, schema.isCaseInsensitive o.1 = false) (texts : String → Option String) :
    (equalities ((name, v) :: others)).MeetsText same (readInSql schema database lower) texts ↔
      (texts name).map database.lower = some (lower v) ∧ ∀ o ∈ others, texts o.1 = some o.2 := by
  rw [meetsText_equalities, List.forall_mem_cons, readInSql_of_caseInsensitive hname]
  refine and_congr_right fun _ => forall_congr' fun o => forall_congr' fun ho => ?_
  rw [readInSql_of_not (hothers o ho)]
  simp [TextReading.exact]

theorem meetsText_intended {same : Char → Char → Bool} {v : String}
    {others : List (String × String)} (hname : schema.isCaseInsensitive name = true)
    (hothers : ∀ o ∈ others, schema.isCaseInsensitive o.1 = false) (texts : String → Option String) :
    (equalities ((name, v) :: others)).MeetsText same (readIntended schema fold) texts ↔
      (texts name).map fold = some (fold v) ∧ ∀ o ∈ others, texts o.1 = some o.2 := by
  rw [meetsText_equalities, List.forall_mem_cons, readIntended_of_caseInsensitive hname]
  refine and_congr_right fun _ => forall_congr' fun o => forall_congr' fun ho => ?_
  rw [readIntended_of_not (hothers o ho)]
  simp [TextReading.exact]

theorem meetsText_inMongo {same : Char → Char → Bool} {v : String} {others : List (String × String)}
    (hname : schema.isCaseInsensitive name = true) (texts : String → Option String) :
    (equalities ((name, v) :: others)).MeetsText same
        (fun _ => readInMongo schema fold (equalities ((name, v) :: others))) texts ↔
      (texts name).map fold = some (fold v) ∧
        ∀ o ∈ others, (texts o.1).map fold = some (fold o.2) := by
  have hread : readInMongo schema fold (equalities ((name, v) :: others)) = .folded fold := by
    refine readInMongo_of_caseInsensitive ⟨name, ?_, hname⟩
    rw [extractFields_equalities]
    exact List.mem_cons_self
  rw [meetsText_equalities, List.forall_mem_cons, hread]
  exact Iff.rfl

end

/-- **Case-insensitive fields**: both stores find what they should where the foldings agree on the
texts that are compared. With equalities, one of them on a case-insensitive field, SQL does exactly
where the database's lower case of what is stored and Python's of what is asked for are equal just as
the texts are without case; MongoDB does exactly where no other field has a text of the same letters in
another case; and a record is found by its own text in SQL exactly where the two lower cases of it are
one. -/
theorem caseless_fields {schema : Schema} {tables : SchemaTables}
    (htables : getTablesOf schema = some tables) (fold lower : String → String)
    (database : SqlDatabase) (same : Char → Char → Bool) (server : MongoServer) (now : ℤ)
    {filter : Filter} (hcheck : checkFilter schema filter = .ok ⟨⟩)
    (htext : Filter.all (isTextCondition schema) filter = true)
    (hnamed : ∃ name ∈ Mongo.extractFields filter, schema.isCaseInsensitive name = true)
    (hserver : ∀ query, Mongo.translateUnexpiredFilter schema now filter = .ok query →
      server.Collates same fold query) :
    (∀ (stored : StoredRows tables), ∀ row ∈ stored.rows,
      (∀ c ∈ Filter.conditions filter, schema.isCaseInsensitive c.1 = true →
        ∀ a ∈ textsOf row c.1, ∀ b ∈ askedIn c.2,
          (TextReading.lowered database lower).Alike database.same (.folded fold) a b) →
      FindsInSql fold lower database now filter stored row) ∧
    (∀ document, Mongo.IsOf document schema →
      (∀ c ∈ Filter.conditions filter, schema.isCaseInsensitive c.1 = false →
        ∀ a ∈ Mongo.textsIn document c.1, ∀ b ∈ askedIn c.2,
          (TextReading.folded fold).Alike same .exact a b) →
      FindsInMongo fold same server schema now filter document) ∧
    ∀ name v others, filter = equalities ((name, v) :: others) →
      schema.isCaseInsensitive name = true →
      (∀ o ∈ others, schema.isCaseInsensitive o.1 = false) →
      (∀ (stored : StoredRows tables), ∀ row ∈ stored.rows,
        Unexpired schema now (stored.recordOf row) →
        (FindsInSql fold lower database now filter stored row ↔
          ((∀ o ∈ others, textsOf row o.1 = some o.2) →
            ((textsOf row name).map database.lower = some (lower v) ↔
              (textsOf row name).map fold = some (fold v)))) ∧
        (others = [] → textsOf row name = some v →
          ((∃ clause, translateFilter lower tables now filter = .ok clause ∧
            clause.eval database stored row = .yes) ↔ database.lower v = lower v))) ∧
      ∀ document, Mongo.IsOf document schema → Mongo.Unexpired schema now document →
        (FindsInMongo fold same server schema now filter document ↔
          ((Mongo.textsIn document name).map fold = some (fold v) →
            (∀ o ∈ others, (Mongo.textsIn document o.1).map fold = some (fold o.2)) →
            ∀ o ∈ others, Mongo.textsIn document o.1 = some o.2)) := by
  obtain ⟨childFields, hof⟩ := getTablesOf_spec htables
  obtain rfl := hof.schema_eq
  -- in SQL, in MongoDB, and for equalities in both directions
  refine ⟨fun stored row hrow halike => ?_, fun document hdocument halike => ?_, ?_⟩
  · rw [findsInSql_iff hof hcheck htext hrow]
    refine fun _ => Filter.meetsText_congr fun c hc a ha b hb => ?_
    cases hcase : tables.schema.isCaseInsensitive c.1 with
    | true =>
      rw [readInSql_of_caseInsensitive hcase, readIntended_of_caseInsensitive hcase]
      exact halike c hc hcase a ha b hb
    | false =>
      rw [readInSql_of_not hcase, readIntended_of_not hcase]
      exact ⟨Iff.rfl, Iff.rfl, Iff.rfl, Iff.rfl⟩
  · rw [findsInMongo_iff hcheck htext hserver hdocument, readInMongo_of_caseInsensitive hnamed]
    refine fun _ => Filter.meetsText_congr fun c hc a ha b hb => ?_
    cases hcase : tables.schema.isCaseInsensitive c.1 with
    | true =>
      rw [readIntended_of_caseInsensitive hcase]
      exact ⟨Iff.rfl, Iff.rfl, Iff.rfl, Iff.rfl⟩
    | false =>
      rw [readIntended_of_not hcase]
      exact halike c hc hcase a ha b hb
  · rintro name v others rfl hname hothers
    refine ⟨fun stored row hrow hexpiry => ⟨?_, ?_⟩, fun document hdocument hexpiry => ?_⟩
    · rw [findsInSql_iff hof hcheck htext hrow, meetsText_inSql hname hothers,
        meetsText_intended hname hothers, and_congr_left_iff]
      exact forall_prop_of_true hexpiry
    · rintro rfl hown
      obtain ⟨clause, hclause, heval⟩ := translateFilter_sql hof lower database now hcheck htext
      have hmeets : (equalities [(name, v)]).MeetsText database.same
          (readInSql tables.schema database lower) (textsOf row) ↔ database.lower v = lower v := by
        rw [meetsText_inSql hname hothers, hown]
        simp
      constructor
      · rintro ⟨clause', hclause', hfound⟩
        obtain rfl : clause = clause' := Except.ok.inj (hclause.symm.trans hclause')
        exact hmeets.mp ((heval stored row hrow).mp hfound).1
      · intro h
        exact ⟨clause, hclause, (heval stored row hrow).mpr ⟨hmeets.mpr h, hexpiry⟩⟩
    · rw [findsInMongo_iff hcheck htext hserver hdocument, meetsText_inMongo hname,
        meetsText_intended hname hothers]
      rw [forall_prop_of_true hexpiry]
      exact ⟨fun h hfold hall => (h.mp ⟨hfold, hall⟩).2, fun h =>
        ⟨fun ⟨hfold, hall⟩ => ⟨hfold, h hfold hall⟩, fun ⟨hfold, hall⟩ => ⟨hfold, fun o ho => by
          rw [hall o ho]
          rfl⟩⟩⟩

/-- A schema of users, each found by an email in any case. -/
def accountSchema : Schema where
  name := "_Account"
  fields := [("id", .scalar .id), ("email", .scalar .str), ("name", .scalar .str)]
  allowsExtra := false
  storage := {
    table := "accounts"
    key := "id"
    unique := [["email"]]
    caseInsensitive := ["email"] }
  undotted := by decide
  expiresAt := by decide

/-- The tables of the users. -/
def accountTables : SchemaTables := (getTablesOf accountSchema).get (by decide +kernel)

/-- Lower case in Latin letters, of which there are more than those of ASCII. -/
def latinLower (s : String) : String := s.map fun c => if c = 'Ä' then 'ä' else c.toLower

/-- The row of a user. -/
def accountRow (number : ℤ) (email name : String) : Row := fun column =>
  Value.get column [(rowId, .scalar (.int number)), ("id", .scalar (.text email)),
    ("email", .scalar (.text email)), ("name", .scalar (.text name))]

/-- Two stored users. -/
def accountRows : StoredRows accountTables where
  rows := [accountRow 1 "Ann@x.se" "Ann", accountRow 2 "Ärta@x.se" "Ärta"]
  childRows := fun _ => []
  typed := by decide +kernel
  childTyped := by simp
  childKey := by simp

open Classical in
/-- A server that compares text as a collation says. -/
noncomputable def collatingServer (same : Char → Char → Bool) (fold : String → String) :
    MongoServer where
  isMatch collation query document :=
    decide (Mongo.QueryMatches same (readUnder fold collation) document query)
  order _ _ _ _ := True

theorem caseless_fields_ann :
    ∃ clause, translateFilter latinLower accountTables 0 (equalities [("email", "Ann@x.se")]) =
        .ok clause ∧
      clause.eval sqlite accountRows (accountRow 1 "Ann@x.se" "Ann") = .yes := by
  have hcollates : ∀ query, Mongo.translateUnexpiredFilter accountSchema 0
      (equalities [("email", "Ann@x.se")]) = .ok query →
        (collatingServer sqlite.same latinLower).Collates sqlite.same latinLower query :=
    fun query _ collation document => by simp [collatingServer]
  obtain ⟨-, -, hequalities⟩ := caseless_fields (Option.some_get _).symm latinLower latinLower sqlite
    sqlite.same (collatingServer sqlite.same latinLower) 0 (by decide +kernel) (by decide +kernel)
    ⟨"email", List.mem_cons_self, rfl⟩ hcollates
  obtain ⟨hsql, -⟩ := hequalities "email" "Ann@x.se" [] rfl rfl (by simp)
  exact ((hsql accountRows _ List.mem_cons_self (fun _ h => by cases h)).2 rfl rfl).mpr
    (by decide +kernel)

/-- SQLite's lower case leaves the letters outside ASCII, and a stored email is not found by itself. -/
theorem own_email_not_found :
    checkFilter accountSchema (equalities [("email", "Ärta@x.se")]) = .ok () ∧
      textsOf (accountRow 2 "Ärta@x.se" "Ärta") "email" = some "Ärta@x.se" ∧
      accountRow 2 "Ärta@x.se" "Ärta" ∈ accountRows.rows ∧
      (∀ clause, translateFilter latinLower accountTables 0 (equalities [("email", "Ärta@x.se")]) =
        .ok clause → clause.eval sqlite accountRows (accountRow 2 "Ärta@x.se" "Ärta") = .no) ∧
      ¬ FindsInSql latinLower latinLower sqlite 0 (equalities [("email", "Ärta@x.se")]) accountRows
        (accountRow 2 "Ärta@x.se" "Ärta") := by
  have hno : ∀ clause, translateFilter latinLower accountTables 0
      (equalities [("email", "Ärta@x.se")]) = .ok clause →
        clause.eval sqlite accountRows (accountRow 2 "Ärta@x.se" "Ärta") = .no := by
    intro clause hclause
    have heval : (translateFilter latinLower accountTables 0
        (equalities [("email", "Ärta@x.se")])).map (fun clause =>
          clause.eval sqlite accountRows (accountRow 2 "Ärta@x.se" "Ärta")) = .ok .no := by
      decide +kernel
    rw [hclause] at heval
    exact Except.ok.inj heval
  refine ⟨by decide +kernel, rfl, List.mem_cons_of_mem _ List.mem_cons_self, hno, ?_⟩
  rintro ⟨clause, hclause, hfinds⟩
  rw [hno clause hclause] at hfinds
  have hmeets : (equalities [("email", "Ärta@x.se")]).MeetsText sqlite.same
      (readIntended accountTables.schema latinLower)
      (textsOf (accountRow 2 "Ärta@x.se" "Ärta")) := by
    rw [meetsText_equalities, List.forall_mem_singleton]
    rfl
  exact absurd (hfinds.mpr ⟨hmeets, fun _ h => by cases h⟩) (by decide)

end Mss
