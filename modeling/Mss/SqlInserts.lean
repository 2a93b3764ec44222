import Mss.SqlWrites
import Mss.Storage.Writes

/-!
# What inserting does

An insert adds the record's row after those there are, and to the table of each of its lists the
rows of the elements, and leaves everything else as it is.

* `SqlStore.newRow`, `newChildRows`: the rows of a record.
* **`insertRecord_rows`**: the rows that an insert adds.
* **`insertMany_rows`**: those that the inserts of a batch add.
-/

namespace Mss

open Storage

namespace SqlStore

section

variable (engine : SqlEngine) (tables : SchemaTables)

/-- The row of a new record. -/
def newRow (newId : String) (record : Record) (number : ℤ) : Row :=
  recordRow engine.isoformat engine.database.dialect tables (withId tables.schema newId record)
    number

/-- The child rows of a new record's list. -/
def newChildRows (newId : String) (record : Record) (list : String × ListTable) :
    Except PyError (List Row) := do
  let values := withId tables.schema newId record
  let elements ← itemsOf (values.get list.1)
  getChildRows engine.database.dialect engine.isoformat list.2
    (boundKey engine.database.dialect tables (values.get tables.schema.storage.key))
    (elements.map convertToColumnValue)

end

variable {engine : SqlEngine} {tables : SchemaTables} {s s' : engine.Tables tables}
  {newId : String} {record : Record}

theorem getChildRows_nil (dialect : SqlDialect) (isoformat : ℤ → Option ℤ → String)
    (listTable : ListTable) (key : Value Scalar) :
    getChildRows dialect isoformat listTable key [] = .ok [] := by
  unfold getChildRows
  split <;> rfl

theorem insertList_rows {list : String × ListTable}
    (h : insertList engine.isoformat (withId tables.schema newId record) s list = .ok s') :
    ∃ children, newChildRows engine tables newId record list = .ok children ∧
      s'.toRawTables = withChildRows s list.1 (s.childRows list.1 ++ children) := by
  obtain ⟨elements, helements, h⟩ := bind_ok h
  have hitems := mapError_ok helements
  split at h
  · rename_i hempty
    cases h
    refine ⟨[], ?_, ?_⟩
    · rw [newChildRows, hitems, List.isEmpty_iff.mp hempty]
      exact getChildRows_nil _ _ _ _
    · rw [List.append_nil, withChildRows, Function.update_eq_self]
  · obtain ⟨children, hchildren, hinsert⟩ := bind_ok h
    refine ⟨children, ?_, raw_insertChildren hinsert⟩
    rw [newChildRows, hitems]
    exact mapError_ok hchildren

theorem insertLists_rows {lists : List (String × ListTable)}
    (hnodup : (lists.map Prod.fst).Nodup)
    (h : lists.foldlM (insertList engine.isoformat (withId tables.schema newId record)) s =
      .ok s') :
    s'.rows = s.rows ∧
      (∀ list ∈ lists, ∃ children, newChildRows engine tables newId record list = .ok children ∧
        s'.childRows list.1 = s.childRows list.1 ++ children) ∧
      ∀ other, other ∉ lists.map Prod.fst → s'.childRows other = s.childRows other := by
  induction lists generalizing s with
  | nil =>
    cases h
    simp
  | cons list lists ih =>
    rw [List.foldlM_cons] at h
    obtain ⟨s₁, hfirst, hrest⟩ := bind_ok h
    obtain ⟨children, hchildren, hraw⟩ := insertList_rows hfirst
    obtain ⟨hnew, hnodup⟩ := List.nodup_cons.mp hnodup
    obtain ⟨hrows, hlists, hothers⟩ := ih hnodup hrest
    have hfirstRows : s₁.childRows = Function.update s.childRows list.1
        (s.childRows list.1 ++ children) := by rw [hraw]; rfl
    refine ⟨hrows.trans (by rw [hraw]; rfl), ?_, ?_⟩
    · intro other hmem
      obtain rfl | hmem := List.mem_cons.mp hmem
      · refine ⟨children, hchildren, ?_⟩
        rw [hothers _ hnew, hfirstRows, Function.update_self]
      · have hne : other.1 ≠ list.1 := fun heq => hnew (heq ▸ List.mem_map_of_mem hmem)
        obtain ⟨rows, hok, hadded⟩ := hlists other hmem
        refine ⟨rows, hok, ?_⟩
        rw [hadded, hfirstRows, Function.update_of_ne hne]
    · intro other hother
      rw [List.map_cons, List.mem_cons, not_or] at hother
      rw [hothers other hother.2, hfirstRows, Function.update_of_ne hother.1]

/-- **What an insert adds**: the record's row, and the rows of its lists. -/
theorem insertRecord_rows {schema : Schema} {childFields : List String}
    (hof : tables.Of schema childFields)
    (h : insertRecord engine.isoformat s newId record = .ok s') :
    s'.rows = s.rows ++ [newRow engine tables newId record (nextRowId s.rows)] ∧
      (∀ list ∈ tables.listTables, ∃ children,
        newChildRows engine tables newId record list = .ok children ∧
        s'.childRows list.1 = s.childRows list.1 ++ children) ∧
      ∀ other, other ∉ tables.listTables.map Prod.fst →
        s'.childRows other = s.childRows other := by
  obtain ⟨s₁, hinsert, hlists⟩ := bind_ok h
  have hraw := toRaw_of_execute hinsert
  obtain ⟨hrows, hchildren, hothers⟩ := insertLists_rows hof.names hlists
  have hfirst : s₁.childRows = s.childRows := by rw [hraw]
  refine ⟨?_, ?_, ?_⟩
  · rw [hrows, hraw]
    rfl
  · intro list hmem
    obtain ⟨children, hok, hadded⟩ := hchildren list hmem
    exact ⟨children, hok, by rw [hadded, hfirst]⟩
  · intro other hother
    rw [hothers other hother, hfirst]

/-- The rows of a batch, after those of the tables, are stored. -/
structure StoresBatch (newId : ℕ → String) (records : List (Record × ℕ))
    (s s' : engine.Tables tables) : Prop where
  rows : ∃ rows, s'.rows = s.rows ++ rows ∧ List.Forall₂ (fun record row =>
    ∃ number, row = newRow engine tables (newId record.2) record.1 number) records rows
  lists : ∀ list ∈ tables.listTables, ∃ parts, s'.childRows list.1 =
    s.childRows list.1 ++ parts.flatten ∧ List.Forall₂ (fun record part =>
      newChildRows engine tables (newId record.2) record.1 list = .ok part) records parts

/-- **What the inserts of a batch add**: every record's row, and the rows of its lists. -/
theorem insertMany_rows {schema : Schema} {childFields : List String}
    (hof : tables.Of schema childFields) {newId : ℕ → String} {records : List (Record × ℕ)}
    (h : records.foldlM (insertNumbered engine newId) s = .ok s') :
    StoresBatch newId records s s' := by
  induction records generalizing s with
  | nil =>
    cases h
    exact ⟨⟨[], by simp, .nil⟩, fun list _ => ⟨[], by simp, .nil⟩⟩
  | cons record records ih =>
    rw [List.foldlM_cons] at h
    obtain ⟨s₁, hfirst, hrest⟩ := bind_ok h
    obtain ⟨hrow, hchildren, _⟩ := insertRecord_rows hof hfirst
    obtain ⟨⟨rows, hrows, hall⟩, hlists⟩ := ih hrest
    refine ⟨⟨_ :: rows, ?_, .cons ⟨nextRowId s.rows, rfl⟩ hall⟩, fun list hmem => ?_⟩
    · rw [hrows, hrow, List.append_assoc, List.singleton_append]
    · obtain ⟨children, hok, hadded⟩ := hchildren list hmem
      obtain ⟨parts, hparts, hforall⟩ := hlists list hmem
      refine ⟨children :: parts, ?_, .cons hok hforall⟩
      rw [hparts, hadded, List.append_assoc, List.flatten_cons]

/-! ## Duplicates -/

section

variable {schema : Schema} {childFields : List String}

/-- What the column of a list's elements gets. -/
def storedElement (dialect : SqlDialect) (listTable : ListTable) (element : PyValue) :
    Value Scalar :=
  dialect.store (listTable.typeOf (listTable.valueColumn.getD "")) (convertToColumnValue element)

/-- The lists of a new record, but for those of models, hold nothing twice. -/
def HoldsOnce (engine : SqlEngine) (tables : SchemaTables) (newId : String) (record : Record) :
    Prop :=
  ∀ list ∈ tables.listTables, list.2.elementModel = none →
    ∀ elements, itemsOf ((withId tables.schema newId record).get list.1) = .ok elements →
      elements.Pairwise fun a b => isChildOf (storedElement engine.database.dialect list.2 a)
        (storedElement engine.database.dialect list.2 b) = false

theorem pairwise_of_zipIdx {A : Type} {R : A × ℕ → Row → Prop} {p : Row → Row → Prop}
    {elements : List A} {rows : List Row} (hrows : List.Forall₂ R elements.zipIdx rows)
    (h : ∀ i j (hi : i < elements.length) (hj : j < elements.length), i < j →
      ∀ row row', R (elements[i], i) row → R (elements[j], j) row' → p row row') :
    rows.Pairwise p := by
  refine List.pairwise_iff_getElem.mpr fun i j hi hj hij => ?_
  have hlength := hrows.length_eq
  rw [List.length_zipIdx] at hlength
  have hat (k : ℕ) (hk : k < rows.length) (hk' : k < elements.length) :
      R (elements[k], k) rows[k] := by
    have := hrows.get (by rw [List.length_zipIdx]; omega) hk
    simpa using this
  exact h i j (by omega) (by omega) hij _ _ (hat i hi (by omega)) (hat j hj (by omega))

theorem modelTable_of_lookup (hof : tables.Of schema childFields) {list : String × ListTable}
    (hmem : list ∈ tables.listTables) {fields : Fields}
    (hmodel : list.2.elementModel = some fields) :
    list.2.valueColumn = none ∧ list.2.parentColumn ≠ position := by
  have htable := (hof.isChild list hmem).2
  simp only [getListTable, Option.bind_eq_bind, Option.bind_eq_some_iff] at htable
  obtain ⟨a, ha, h⟩ := htable
  split at h
  · simp at h
  · obtain ⟨keyType, hkey, h⟩ := Option.bind_eq_some_iff.mp h
    obtain ⟨element, helement, h⟩ := Option.bind_eq_some_iff.mp h
    cases hfound : element.findNestedModel with
    | none =>
      rw [hfound] at h
      obtain ⟨columns, hcolumns, h⟩ := Option.bind_eq_some_iff.mp h
      rw [← Option.some.inj h] at hmodel
      cases hmodel
    | some model =>
      rw [hfound] at h
      obtain ⟨columns, hcolumns, h⟩ := Option.bind_eq_some_iff.mp h
      obtain ⟨hnodup, rfl⟩ := ofColumns_eq_some.mp hcolumns
      rw [← Option.some.inj h]
      refine ⟨rfl, ?_⟩
      rw [List.map_cons, List.map_cons, List.nodup_cons] at hnodup
      intro heq
      exact hnodup.1 (List.mem_cons.mpr (.inl heq))

/-- The row of a model at a place in a list of a record's. -/
def IsModelRow (listTable : ListTable) (key : Value Scalar) (element : PyValue × ℕ) (row : Row) :
    Prop :=
  row listTable.parentColumn = key ∧ row position = .scalar (.int element.2)

theorem isModelRow_modelRow {dialect : SqlDialect} {isoformat : ℤ → Option ℤ → String}
    {listTable : ListTable} (hposition : listTable.parentColumn ≠ position) (fields : Fields)
    (key : Value Scalar) (entries : List (String × PyValue)) (element : PyValue × ℕ) :
    IsModelRow listTable key element
      (modelRow dialect isoformat listTable fields key entries element.2) := by
  refine ⟨?_, ?_⟩
  · simp [modelRow, rowOf, Value.get]
  · simp [modelRow, rowOf, Value.get, List.lookup_cons, beq_false_of_ne (Ne.symm hposition)]

theorem newChildRows_spec (hof : tables.Of schema childFields) {list : String × ListTable}
    (hmem : list ∈ tables.listTables) (honce : HoldsOnce engine tables newId record)
    {children : List Row} (h : newChildRows engine tables newId record list = .ok children) :
    (∀ child ∈ children, child list.2.parentColumn = boundKey engine.database.dialect tables
      ((withId tables.schema newId record).get tables.schema.storage.key)) ∧
    children.Pairwise fun a b =>
      (list.2.primaryKey.all fun column => isChildOf (a column) (b column)) = false := by
  obtain ⟨elements, helements, h⟩ := bind_ok h
  unfold getChildRows at h
  split at h
  · rename_i hnone
    have hlookup : tables.listTables.lookup list.1 = some list.2 :=
      lookup_of_mem hof.names hmem
    obtain ⟨_, _, value, _, _, _, _, hscalar⟩ := scalarList_of_lookup hof hlookup hnone
    have hdifferent := honce list hmem hnone elements helements
    -- a list of scalars: a child row is keyed by its parent and its value
    cases h
    constructor
    · intro child hchild
      obtain ⟨element, _, rfl⟩ := List.mem_map.mp hchild
      simp [elementRow, rowOf, Value.get]
    · have hne : value ≠ list.2.parentColumn := by
        intro heq
        have hnodup := hscalar.nodup
        rw [List.nodup_cons] at hnodup
        exact hnodup.1 (heq ▸ List.mem_cons_self)
      refine List.pairwise_map.mpr (List.pairwise_iff_getElem.mpr fun i j hi hj hij => ?_)
      rw [List.length_zipIdx, List.length_map] at hi hj
      have hpair := List.pairwise_iff_getElem.mp hdifferent i j hi hj hij
      rw [storedElement, storedElement, hscalar.valueColumn, Option.getD_some] at hpair
      rw [hscalar.primaryKey]
      simp [elementRow, hscalar.valueColumn, rowOf, Value.get, List.lookup_cons,
        beq_false_of_ne hne, hpair]
  · rename_i fields hmodel
    -- a list of records: a child row is keyed by its parent and its position
    obtain ⟨hvalue, hposition⟩ := modelTable_of_lookup hof hmem hmodel
    have hrows : List.Forall₂ (IsModelRow list.2 (boundKey engine.database.dialect tables
        ((withId tables.schema newId record).get tables.schema.storage.key)))
        (elements.map convertToColumnValue).zipIdx children := by
      refine (forall₂_of_mapM h).imp fun element row hrow => ?_
      split at hrow
      · cases hrow
        exact isModelRow_modelRow hposition _ _ _ _
      · cases hrow
    refine ⟨fun child hchild => ?_, pairwise_of_zipIdx hrows ?_⟩
    · obtain ⟨i, hi, rfl⟩ := List.getElem_of_mem hchild
      exact (hrows.get (hrows.length_eq ▸ hi) hi).1
    · intro i j _ _ hij row row' hrow hrow'
      rw [ListTable.primaryKey, hvalue, Option.getD_none]
      simp only [List.all_cons, List.all_nil, Bool.and_true, hrow.2, hrow'.2, isChildOf_scalar]
      have hne : Scalar.int i ≠ Scalar.int j := by
        intro heq
        have := Scalar.int.inj heq
        omega
      rw [decide_eq_false hne, Bool.and_false]

end

end SqlStore

end Mss
