import Mss.UpdatedRecords
import Mss.SqlInserts

/-!
# Records that are read back as they were inserted

An insert writes a record's row, and a child row for each element of its lists, at its place. What is
read back is told by the record alone: no child row of another record is of its key, and the elements
come in their order again.

* **`storedDocument`**: the document that a record is read back as.
* `newChildRows_elements`: the elements of a list, from its child rows.
* **`inserted_reads_back`**: the record of an insert, and those of before.
* `storedDocument_eq_iff`: the records that both databases read back alike.
-/

namespace Mss

open Storage

/-! ## The document of a record -/

section

variable (engine : SqlEngine) (tables : SchemaTables)

/-- What is read back of an element of a list. -/
def elementImage (listTable : ListTable) (element : PyValue) : Value Scalar :=
  match listTable.elementModel, element with
  | none, element => SqlStore.storedElement engine.database.dialect listTable element
  | some fields, .dict entries =>
    .document (fields.map fun field =>
      (field.1, elementValue engine.database.dialect engine.isoformat (listTable.typeOf field.1)
        ((entries.lookup field.1).getD .none)))
  | some _, _ => .null

/-- What is read back of a list of a record. -/
def listImage (record : Record) (list : String × ListTable) : Value Scalar :=
  match SqlStore.itemsOf (record.get list.1) with
  | .ok elements => .list (elements.map (elementImage engine list.2))
  | .error _ => .null

/-- What is read back of a field of a record that has a column of its own. -/
def columnImage (record : Record) (column : String × ColumnType) : Value Scalar :=
  SqlStore.columnValue engine.isoformat engine.database.dialect tables record column

/-- Whether a column is read back: it is of a field, which can hold None if the column is NULL. -/
def isReadBack (record : Record) (column : String × ColumnType) : Bool :=
  column.1 != rowId &&
    !(tables.nonNullFields.contains column.1 && isNullValue (columnImage engine tables record column))

/-- **The document that a record is read back as**, from its own values. -/
def storedDocument (record : Record) : Value Scalar :=
  .document
    (((tables.columns.filter (isReadBack engine tables record)).map fun column =>
        (column.1, columnImage engine tables record column)) ++
      tables.listTables.map fun list => (list.1, listImage engine record list))

end

namespace SqlStore

section

variable {engine : SqlEngine} {tables : SchemaTables} {childFields : List String}
  {newId : String} {record : Record} {s s' : engine.Tables tables}

/-! ## Its columns -/

theorem newRow_column (hof : tables.Of tables.schema childFields) (number : ℤ)
    {column : String × ColumnType} (hmem : column ∈ tables.columns) (hid : column.1 ≠ rowId) :
    newRow engine tables newId record number column.1 =
      columnImage engine tables (withId tables.schema newId record) column := by
  have hlookup := lookup_map (fun name type => columnImage engine tables
    (withId tables.schema newId record) (name, type))
    (tables.columns.filter fun column => column.1 != rowId) column.1
  rw [lookup_filter (fun name => name != rowId), if_pos (bne_iff_ne.mpr hid),
    lookup_of_mem hof.nodup hmem] at hlookup
  rw [newRow, recordRow, rowOf, Value.get, List.lookup_cons, beq_false_of_ne hid]
  exact congrArg (·.getD .null) hlookup

theorem read_newRow (hof : tables.Of tables.schema childFields) (number : ℤ) :
    ((tables.columns.filter fun column =>
        tables.isRead (newRow engine tables newId record number) column.1).map fun column =>
      (column.1, newRow engine tables newId record number column.1)) =
    (tables.columns.filter (isReadBack engine tables (withId tables.schema newId record))).map
      fun column => (column.1, columnImage engine tables (withId tables.schema newId record) column) := by
  have hread : ∀ column ∈ tables.columns,
      tables.isRead (newRow engine tables newId record number) column.1 =
        isReadBack engine tables (withId tables.schema newId record) column := by
    intro column hmem
    unfold SchemaTables.isRead isReadBack
    by_cases hid : column.1 = rowId
    · simp [hid]
    · rw [newRow_column hof number hmem hid]
  rw [List.filter_congr hread]
  refine List.map_congr_left fun column hcolumn => ?_
  obtain ⟨hmem, hread⟩ := List.mem_filter.mp hcolumn
  have hid : column.1 ≠ rowId := by
    rw [isReadBack, Bool.and_eq_true] at hread
    exact bne_iff_ne.mp hread.1
  rw [newRow_column hof number hmem hid]

/-! ## Its lists -/

theorem modelTable_columns (hof : tables.Of tables.schema childFields) {list : String × ListTable}
    (hmem : list ∈ tables.listTables) {fields : Fields}
    (hmodel : list.2.elementModel = some fields) :
    (list.2.parentColumn :: position :: fields.map Prod.fst).Nodup := by
  have htable := (hof.isChild list hmem).2
  simp only [getListTable, Option.bind_eq_bind, Option.bind_eq_some_iff] at htable
  obtain ⟨a, ha, h⟩ := htable
  split at h
  · simp at h
  · obtain ⟨keyType, hkey, h⟩ := Option.bind_eq_some_iff.mp h
    obtain ⟨element, helement, h⟩ := Option.bind_eq_some_iff.mp h
    cases hfound : element.findNestedModel with
    | none =>
      rw [hfound] at h
      obtain ⟨columns, hcolumns, h⟩ := Option.bind_eq_some_iff.mp h
      rw [← Option.some.inj h] at hmodel
      cases hmodel
    | some model =>
      rw [hfound] at h
      obtain ⟨columns, hcolumns, h⟩ := Option.bind_eq_some_iff.mp h
      obtain ⟨hnodup, rfl⟩ := ofColumns_eq_some.mp hcolumns
      rw [← Option.some.inj h] at hmodel ⊢
      obtain rfl := Option.some.inj hmodel
      have hnames : (model.2.map columnOf).map Prod.fst = model.2.map Prod.fst := by
        rw [List.map_map]
        rfl
      rwa [List.map_cons, List.map_cons, hnames] at hnodup

theorem getElement_modelRow {dialect : SqlDialect} {isoformat : ℤ → Option ℤ → String}
    {listTable : ListTable} {fields : Fields} (hmodel : listTable.elementModel = some fields)
    (hnodup : (listTable.parentColumn :: position :: fields.map Prod.fst).Nodup)
    (key : Value Scalar) (entries : List (String × PyValue)) (place : ℤ) :
    getElement listTable (modelRow dialect isoformat listTable fields key entries place) =
      .document (fields.map fun field => (field.1, elementValue dialect isoformat
        (listTable.typeOf field.1) ((entries.lookup field.1).getD .none))) := by
  rw [List.nodup_cons, List.nodup_cons, List.mem_cons, not_or] at hnodup
  obtain ⟨⟨-, hparent⟩, hposition, hnodup⟩ := hnodup
  rw [getElement, hmodel]
  refine congrArg Value.document (List.map_congr_left fun field hfield => ?_)
  have hname : field.1 ∈ fields.map Prod.fst := List.mem_map_of_mem hfield
  have hlookup : (fields.map fun field => (field.1, elementValue dialect isoformat
      (listTable.typeOf field.1) ((entries.lookup field.1).getD .none))).lookup field.1 =
        some (elementValue dialect isoformat (listTable.typeOf field.1)
          ((entries.lookup field.1).getD .none)) := by
    refine lookup_of_mem ?_ (List.mem_map.mpr ⟨field, hfield, rfl⟩)
    rw [List.map_map]
    exact hnodup
  have hne : field.1 ≠ listTable.parentColumn := fun heq => hparent (heq ▸ hname)
  have hne' : field.1 ≠ position := fun heq => hposition (heq ▸ hname)
  rw [modelRow, rowOf, Value.get, List.lookup_cons, beq_false_of_ne hne, List.lookup_cons,
    beq_false_of_ne hne', hlookup, Option.getD_some]

/-- **A row of an element**: the element is read from it, and it is at its place. -/
def IsElementRow (engine : SqlEngine) (listTable : ListTable) (element : PyValue × ℕ) (row : Row) :
    Prop :=
  getElement listTable row = elementImage engine listTable element.1 ∧
    positionOf row = element.2

theorem isElementRow_newChildRows (hof : tables.Of tables.schema childFields)
    {list : String × ListTable} (hmem : list ∈ tables.listTables) {children : List Row}
    (h : newChildRows engine tables newId record list = .ok children) :
    ∃ elements, itemsOf ((withId tables.schema newId record).get list.1) = .ok elements ∧
      List.Forall₂ (IsElementRow engine list.2) elements.zipIdx children := by
  obtain ⟨elements, helements, h⟩ := bind_ok h
  refine ⟨elements, helements, ?_⟩
  unfold getChildRows at h
  rw [List.zipIdx_map] at h
  cases hmodel : list.2.elementModel with
  | none =>
    obtain ⟨_, _, value, _, _, _, _, hscalar⟩ :=
      scalarList_of_lookup hof (lookup_of_mem hof.names hmem) hmodel
    rw [hmodel, List.map_map] at h
    obtain rfl := Except.ok.inj h
    refine List.forall₂_map_right_iff.mpr (List.forall₂_same.mpr fun element _ => ?_)
    refine ⟨?_, (elementRow_columns hscalar _ _ _).2⟩
    have hne : value ≠ list.2.parentColumn := by
      have hnodup := hscalar.nodup
      rw [List.nodup_cons, List.mem_cons, not_or] at hnodup
      exact Ne.symm hnodup.1.1
    simp [getElement, elementImage, hmodel, storedElement, hscalar.valueColumn, elementRow, rowOf,
      Value.get, List.lookup_cons, beq_false_of_ne hne]
  | some fields =>
    rw [hmodel] at h
    have hrows := forall₂_of_mapM h
    rw [List.forall₂_map_left_iff] at hrows
    refine hrows.imp fun element row hrow => ?_
    have hnodup := modelTable_columns hof hmem hmodel
    obtain ⟨e, i⟩ := element
    cases e with
    | dict entries =>
      obtain rfl := Except.ok.inj hrow
      refine ⟨?_, ?_⟩
      · simp only [elementImage, hmodel]
        exact getElement_modelRow hmodel hnodup _ _ _
      · have hposition : position ≠ list.2.parentColumn := by
          rw [List.nodup_cons, List.mem_cons, not_or] at hnodup
          exact Ne.symm hnodup.1.1
        simp [positionOf, modelRow, rowOf, Value.get, List.lookup_cons, beq_false_of_ne hposition]
    | none | scalar | sequence => cases hrow

theorem map_of_zipIdx {A B C : Type} {f : A → C} {g : B → C} {elements : List A} {rows : List B}
    {n : ℕ} (h : List.Forall₂ (fun element row => g row = f element.1) (elements.zipIdx n) rows) :
    rows.map g = elements.map f := by
  induction elements generalizing n rows with
  | nil =>
    cases h
    rfl
  | cons a elements ih =>
    rw [List.zipIdx_cons] at h
    cases h with
    | cons hfirst hrest => rw [List.map_cons, List.map_cons, hfirst, ih hrest]

theorem newChildRows_elements (hof : tables.Of tables.schema childFields)
    {list : String × ListTable} (hmem : list ∈ tables.listTables) {children : List Row}
    (h : newChildRows engine tables newId record list = .ok children) :
    Value.list (children.map (getElement list.2)) =
        listImage engine (withId tables.schema newId record) list ∧
      children.Pairwise fun a b => positionOf a < positionOf b := by
  obtain ⟨elements, helements, hrows⟩ := isElementRow_newChildRows hof hmem h
  constructor
  · rw [listImage, helements]
    exact congrArg Value.list (map_of_zipIdx (hrows.imp fun _ _ h => h.1))
  · refine pairwise_of_zipIdx hrows fun i j _ _ hij row row' hrow hrow' => ?_
    rw [hrow.2, hrow'.2]
    exact Int.ofNat_lt.mpr hij

/-! ## The record of a key -/

variable {type : ColumnType}

/-- Whether a row is an unexpired one of a key. -/
def isLiveOfKey (tables : SchemaTables) (k : Scalar) (now : ℤ) (row : Row) : Bool :=
  isOfKey tables k row && isLive tables now row

theorem filter_isLiveOfKey (k : Scalar) (now : ℤ) :
    s.rows.filter (isLiveOfKey tables k now) = (s.rows.find? (isLiveOfKey tables k now)).toList := by
  cases hfind : s.rows.find? (isLiveOfKey tables k now) with
  | none =>
    refine List.filter_eq_nil_iff.mpr fun row hrow => ?_
    exact List.find?_eq_none.mp hfind row hrow
  | some row =>
    have hrow : row ∈ s.rows := List.mem_of_find?_eq_some hfind
    have hlive := List.find?_some hfind
    unfold isLiveOfKey at hlive
    rw [Bool.and_eq_true] at hlive
    have hk : row tables.schema.storage.key = .scalar k := by simpa [isOfKey] using hlive.1
    have hfilter : s.rows.filter (isLiveOfKey tables k now) =
        (s.rows.filter (isOfKey tables k)).filter (isLive tables now) := by
      rw [List.filter_filter]
      exact List.filter_congr fun row _ => Bool.and_comm _ _
    rw [hfilter, filter_isOfKey hrow hk, List.filter_cons_of_pos hlive.2]
    rfl

theorem exists_keyClause (hof : tables.Of tables.schema childFields) (hkey : HasPlainKey tables type)
    {p : PyScalar} (hp : p.kind = type) (now : ℤ) (s : engine.Tables tables) :
    ∃ clause, translateFilter engine.lower tables now (filterOfKey tables.schema (.scalar p)) =
        .ok clause ∧
      matchedRows engine.database s.stored.toStoredRows clause =
        (s.rows.find? (isLiveOfKey tables (engine.database.dialect.bind p) now)).toList := by
  obtain ⟨clause, hclause, heval⟩ := translateFilter_scalar hof hkey engine.lower engine.database hp
    now
  refine ⟨clause, hclause, ?_⟩
  rw [← filter_isLiveOfKey]
  refine List.filter_congr fun row hrow => Bool.eq_iff_iff.mpr ?_
  rw [beq_iff_eq, heval s.stored.toStoredRows row hrow, isLiveOfKey, Bool.and_eq_true, isOfKey,
    decide_eq_true_eq]

theorem get_eq (hof : tables.Of tables.schema childFields) (hkey : HasPlainKey tables type)
    {p : PyScalar} (hp : p.kind = type) (now : ℤ) :
    SqlStore.get engine.lower engine.database engine.validate engine.plan s.stored.toStoredRows now
        (.scalar p) =
      match s.rows.find? (isLiveOfKey tables (engine.database.dialect.bind p) now) with
      | none => .ok none
      | some row => readStored tables.schema engine.validate (s.stored.recordOf row) := by
  obtain ⟨clause, hclause, hmatched⟩ := exists_keyClause hof hkey hp now s
  unfold filterOfKey at hclause
  have hget : SqlStore.get engine.lower engine.database engine.validate engine.plan
      s.stored.toStoredRows now (.scalar p) =
        (((page 0 (some 1) ((engine.plan [rowIdTerm]).run
          (matchedRows engine.database s.stored.toStoredRows clause))).mapM fun row =>
            readStored tables.schema engine.validate (s.stored.recordOf row)) >>= fun records =>
          .ok records.reduceOption.head?) := by
    unfold SqlStore.get findRecords filterOfKey
    rw [hclause]
    show ((_ >>= fun records : List (Option Record) => Except.ok records.reduceOption) >>=
      fun records => Except.ok records.head?) = _
    rw [bind_assoc]
    rfl
  rw [hget, hmatched]
  cases s.rows.find? (isLiveOfKey tables (engine.database.dialect.bind p) now) with
  | none =>
    rw [Option.toList_none, List.perm_nil.mp ((engine.plan [rowIdTerm]).perm [])]
    rfl
  | some row =>
    rw [Option.toList_some, List.perm_singleton.mp ((engine.plan [rowIdTerm]).perm [row])]
    show ([row].mapM fun row => readStored tables.schema engine.validate (s.stored.recordOf row)) >>=
      _ = readStored tables.schema engine.validate (s.stored.recordOf row)
    rw [List.mapM_cons, List.mapM_nil]
    cases readStored tables.schema engine.validate (s.stored.recordOf row) with
    | error e => rfl
    | ok record => cases record <;> rfl

/-! ## An insert -/

section

variable {k : Scalar}

theorem ne_of_inserted (hof : tables.Of tables.schema childFields) (hkey : HasPlainKey tables type)
    (h : insertRecord engine.isoformat s newId record = .ok s') {row : Row} (hrow : row ∈ s.rows) :
    row tables.schema.storage.key ≠
      newRow engine tables newId record (nextRowId s.rows) tables.schema.storage.key := by
  have hnodup := nodup_keys hkey s'
  rw [(insertRecord_rows hof h).1, List.map_append, List.nodup_append] at hnodup
  exact hnodup.2.2 _ (List.mem_map_of_mem hrow) _ (List.mem_map_of_mem List.mem_cons_self)

theorem parent_newChildRows {list : String × ListTable} {children : List Row}
    (h : newChildRows engine tables newId record list = .ok children) :
    ∀ child ∈ children, child list.2.parentColumn = boundKey engine.database.dialect tables
      ((withId tables.schema newId record).get tables.schema.storage.key) := by
  obtain ⟨elements, -, h⟩ := bind_ok h
  exact parent_getChildRows h

theorem kept_insertRecord (hof : tables.Of tables.schema childFields)
    (h : insertRecord engine.isoformat s newId record = .ok s')
    (hother : boundKey engine.database.dialect tables
      ((withId tables.schema newId record).get tables.schema.storage.key) ≠ .scalar k) :
    ChildrenKept k s s' := by
  intro list hmem
  obtain ⟨children, hchildren, hrows⟩ := (insertRecord_rows hof h).2.1 list hmem
  have hnone : children.filter (fun child =>
      isChildOf (.scalar k) (child list.2.parentColumn)) = [] := by
    refine List.filter_eq_nil_iff.mpr fun child hchild => ?_
    rw [parent_newChildRows hchildren child hchild, isChildOf_ne (Ne.symm hother)]
    exact Bool.false_ne_true
  rw [childrenOf, childrenOf, hrows, List.filter_append, hnone, List.append_nil]

/-- **The new row's record is that of its own values**: its lists are of the new child rows alone. -/
theorem recordOf_newRow (hof : tables.Of tables.schema childFields) (hkey : HasPlainKey tables type)
    (h : insertRecord engine.isoformat s newId record = .ok s') :
    s'.stored.recordOf (newRow engine tables newId record (nextRowId s.rows)) =
      storedDocument engine tables (withId tables.schema newId record) := by
  have hkeyOf : newRow engine tables newId record (nextRowId s.rows) tables.schema.storage.key =
      boundKey engine.database.dialect tables
        ((withId tables.schema newId record).get tables.schema.storage.key) :=
    recordRow_key hof hkey.lookup hkey.scalar hkey.named _ _
  obtain ⟨hrows, hlists, -⟩ := insertRecord_rows hof h
  have hnew : newRow engine tables newId record (nextRowId s.rows) ∈ s'.rows := by
    rw [hrows]
    exact List.mem_append_right _ List.mem_cons_self
  obtain ⟨k, hk, -⟩ := key_of_row hkey hnew
  unfold StoredRows.recordOf storedDocument
  rw [read_newRow hof]
  refine congrArg Value.document (congrArg₂ (· ++ ·) rfl (List.map_congr_left fun list hmem => ?_))
  refine congrArg (Prod.mk list.1) ?_
  obtain ⟨children, hchildren, hadded⟩ := hlists list hmem
  obtain ⟨helements, hsorted⟩ := newChildRows_elements hof hmem hchildren
  have hfilter : (s'.childRows list.1).filter (fun child =>
      isChildOf (newRow engine tables newId record (nextRowId s.rows) tables.schema.storage.key)
        (child list.2.parentColumn)) = children := by
    obtain ⟨s₁, hinsert, -⟩ := bind_ok h
    have hold : (s.childRows list.1).filter (fun child =>
        isChildOf (newRow engine tables newId record (nextRowId s.rows) tables.schema.storage.key)
          (child list.2.parentColumn)) = [] := by
      refine List.filter_eq_nil_iff.mpr fun child hchild => ?_
      rw [isChildOf_comm, Bool.not_eq_true]
      exact childRows_apart hinsert hmem hchild
    rw [hadded, List.filter_append, hold, List.nil_append]
    refine List.filter_eq_self.mpr fun child hchild => ?_
    rw [parent_newChildRows hchildren child hchild, ← hkeyOf, hk, isChildOf_scalar]
    exact decide_eq_true rfl
  have hle : children.Pairwise fun a b => decide (positionOf a ≤ positionOf b) = true :=
    hsorted.imp fun hlt => decide_eq_true hlt.le
  rw [← helements, StoredRows.elementsOf]
  show Value.list ((List.mergeSort ((s'.childRows list.1).filter _) _).map _) = _
  rw [hfilter, List.mergeSort_of_pairwise hle]

end

end

end SqlStore

open SqlStore in
/-- **A record is read back as it was inserted.** Where an insert does not raise, the record's row is
the last, and its document is told by the record alone; every other record is as it was. From then on
a get of its key reads that document, until it expires, and a get of any other key reads what it did
before. -/
theorem inserted_reads_back {schema : Schema} {tables : SchemaTables}
    (htables : getTablesOf schema = some tables) {type : ColumnType} (hkey : HasPlainKey tables type)
    {engine : SqlEngine} {newId : ℕ → String} {record : Record} {p : PyScalar} (hp : p.kind = type)
    (hrecord : (withId tables.schema (newId 0) record).get tables.schema.storage.key = .scalar p)
    {s s' : engine.Tables tables} {answer : Answer}
    (h : SqlStore.insert engine newId record s = ⟨.ok answer, s'⟩) :
    answer = .record (some record) ∧
      (∃ row, s'.rows = s.rows ++ [row] ∧ s'.stored.recordOf row =
        storedDocument engine tables (withId tables.schema (newId 0) record)) ∧
      (∀ row ∈ s.rows, s'.stored.recordOf row = s.stored.recordOf row) ∧
      ∀ now, (Unexpired tables.schema now
            (storedDocument engine tables (withId tables.schema (newId 0) record)) →
          SqlStore.get engine.lower engine.database engine.validate engine.plan
              s'.stored.toStoredRows now (.scalar p) =
            readStored tables.schema engine.validate
              (storedDocument engine tables (withId tables.schema (newId 0) record))) ∧
        (¬ Unexpired tables.schema now
            (storedDocument engine tables (withId tables.schema (newId 0) record)) →
          SqlStore.get engine.lower engine.database engine.validate engine.plan
            s'.stored.toStoredRows now (.scalar p) = .ok none) ∧
        ∀ q : PyScalar, q.kind = type →
          engine.database.dialect.bind q ≠ engine.database.dialect.bind p →
            SqlStore.get engine.lower engine.database engine.validate engine.plan
                s'.stored.toStoredRows now (.scalar q) =
              SqlStore.get engine.lower engine.database engine.validate engine.plan
                s.stored.toStoredRows now (.scalar q) := by
  obtain ⟨childFields, hof⟩ := getTablesOf_spec htables
  obtain rfl := hof.schema_eq
  obtain ⟨rfl, hinsert⟩ : answer = .record (some record) ∧
      insertRecord engine.isoformat s (newId 0) record = .ok s' := by
    rw [show SqlStore.insert engine newId record s = _ from inTransaction_eq] at h
    unfold insertBody at h
    cases hinsert : insertRecord engine.isoformat s (newId 0) record with
    | error e =>
      rw [hinsert] at h
      cases h
    | ok s₁ =>
      rw [hinsert] at h
      cases h
      exact ⟨rfl, rfl⟩
  -- the new row is the last, and the only one of its key
  let new := newRow engine tables (newId 0) record (nextRowId s.rows)
  have hrows : s'.rows = s.rows ++ [new] := (insertRecord_rows hof hinsert).1
  have hdocument := recordOf_newRow hof hkey hinsert
  have hbound : boundKey engine.database.dialect tables
      ((withId tables.schema (newId 0) record).get tables.schema.storage.key) =
        .scalar (engine.database.dialect.bind p) := by
    rw [hrecord, boundKey_scalar hkey _ hp]
  have hk : new tables.schema.storage.key = .scalar (engine.database.dialect.bind p) :=
    (recordRow_key hof hkey.lookup hkey.scalar hkey.named _ _).trans hbound
  have hothers : ∀ row ∈ s.rows, s'.stored.recordOf row = s.stored.recordOf row := by
    intro row hrow
    obtain ⟨k, hrowKey, -⟩ := key_of_row hkey hrow
    refine recordOf_kept hrowKey (kept_insertRecord hof hinsert fun heq => ?_)
    exact ne_of_inserted hof hkey hinsert hrow (hrowKey.trans (heq.symm.trans (hbound.trans hk.symm)))
  refine ⟨rfl, ⟨new, hrows, hdocument⟩, hothers, fun now => ?_⟩
  have hlive : isLive tables now new = true ↔ Unexpired tables.schema now
      (storedDocument engine tables (withId tables.schema (newId 0) record)) := by
    cases hfield : tables.schema.storage.expires with
    | none => simp [isLive, Unexpired, hfield]
    | some field =>
      rw [← hdocument, isLive, hfield]
      exact (unexpired_recordOf hof hfield s'.stored.toStoredRows new).symm
  -- no older row has the key, so that a get finds the new one
  have hfind : s'.rows.find? (isLiveOfKey tables (engine.database.dialect.bind p) now) =
      if isLive tables now new then some new else none := by
    have hnone : s.rows.find? (isLiveOfKey tables (engine.database.dialect.bind p) now) = none := by
      refine List.find?_eq_none.mpr fun row hrow hyes => ?_
      rw [isLiveOfKey, Bool.and_eq_true, isOfKey, decide_eq_true_eq] at hyes
      exact ne_of_inserted hof hkey hinsert hrow (hyes.1.trans hk.symm)
    have hnew : isLiveOfKey tables (engine.database.dialect.bind p) now new =
        isLive tables now new := by
      rw [isLiveOfKey, isOfKey, decide_eq_true hk, Bool.true_and]
    rw [hrows, List.find?_append, hnone, Option.none_or, List.find?_singleton, hnew]
  refine ⟨fun hunexpired => ?_, fun hexpired => ?_, fun q hq hne => ?_⟩
  · rw [get_eq hof hkey hp, hfind, if_pos (hlive.mpr hunexpired)]
    exact congrArg (readStored tables.schema engine.validate) hdocument
  · rw [get_eq hof hkey hp, hfind, if_neg (mt hlive.mp hexpired)]
  · have hfind : s'.rows.find? (isLiveOfKey tables (engine.database.dialect.bind q) now) =
        s.rows.find? (isLiveOfKey tables (engine.database.dialect.bind q) now) := by
      rw [hrows, List.find?_append]
      have hother : [new].find? (isLiveOfKey tables (engine.database.dialect.bind q) now) = none := by
        refine List.find?_cons_of_neg ?_
        rw [isLiveOfKey, Bool.and_eq_true, isOfKey, decide_eq_true_eq, hk, Value.scalar.injEq]
        exact fun hyes => hne hyes.1.symm
      rw [hother, Option.or_none]
    rw [get_eq hof hkey hq, get_eq hof hkey hq, hfind]
    cases hfound : s.rows.find? (isLiveOfKey tables (engine.database.dialect.bind q) now) with
    | none => rfl
    | some row =>
      show readStored _ _ (s'.stored.recordOf row) = readStored _ _ (s.stored.recordOf row)
      rw [hothers row (List.mem_of_find?_eq_some hfound)]

/-- A device is read back, and another is as it was. -/
theorem inserted_reads_back_chip : ∃ s' : deviceEngine.Tables chipTables,
    SqlStore.insert deviceEngine (fun _ => "") (chip "cid" 9) storedChips =
        ⟨.ok (.record (some (chip "cid" 9))), s'⟩ ∧
      SqlStore.get deviceEngine.lower deviceEngine.database deviceEngine.validate deviceEngine.plan
          s'.stored.toStoredRows 0 (.scalar (.str "cid")) =
        readStored chipTables.schema deviceEngine.validate
          (storedDocument deviceEngine chipTables (chip "cid" 9)) := by
  have htables : getTablesOf chipSchema = some chipTables := (Option.some_get _).symm
  obtain ⟨answer, hanswer⟩ : ∃ answer, (SqlStore.insert deviceEngine (fun _ => "") (chip "cid" 9)
      storedChips).result = .ok answer := exists_answer (by decide +kernel)
  have hid : SqlStore.withId chipTables.schema "" (chip "cid" 9) = chip "cid" 9 := by
    rw [chipTables_schema]
    rfl
  have hname : (SqlStore.withId chipTables.schema "" (chip "cid" 9)).get
      chipTables.schema.storage.key = .scalar (.str "cid") := by
    rw [hid, chipTables_schema]
    rfl
  obtain ⟨rfl, -, -, hreads⟩ := inserted_reads_back htables chips_plain rfl hname
    (show SqlStore.insert deviceEngine (fun _ => "") (chip "cid" 9) storedChips = ⟨.ok answer, _⟩
      from by rw [← hanswer])
  refine ⟨_, by rw [← hanswer], ?_⟩
  rw [hid] at hreads
  refine (hreads 0).1 ?_
  have hexpires : chipTables.schema.storage.expires = none := by
    rw [chipTables_schema]
    rfl
  simp [Unexpired, hexpires]

/-! ## What both databases read back alike -/

/-- The value is no datetime of another timezone than UTC. -/
def IsUtc (v : PyValue) : Prop :=
  ∀ wall offset, v = .scalar (.datetime wall (some offset)) → offset = 0

/-- What the columns of an element get is no such datetime. -/
def IsElementUtc (listTable : ListTable) (element : PyValue) : Prop :=
  match listTable.elementModel with
  | none => IsUtc element
  | some fields => ∀ entries, element = .dict entries → ∀ field ∈ fields,
    listTable.typeOf field.1 ≠ .json → IsUtc ((entries.lookup field.1).getD .none)

/-- **The datetimes of a record are UTC's**: those in columns of their own, and those of its lists. -/
def IsRecordUtc (tables : SchemaTables) (record : Record) : Prop :=
  (∀ column ∈ tables.columns, column.1 ≠ rowId → tables.jsonFields.contains column.1 = false →
    IsUtc (record.get column.1)) ∧
  ∀ list ∈ tables.listTables, ∀ elements, SqlStore.itemsOf (record.get list.1) = .ok elements →
    ∀ element ∈ elements, IsElementUtc list.2 element

theorem store_eq_iff (type : ColumnType) (v : PyValue) :
    SqlDialect.postgresql.store type v = SqlDialect.sqlite.store type v ↔ IsUtc v := by
  cases v with
  | none | sequence | dict => exact iff_of_true rfl (fun _ _ h => by cases h)
  | scalar a =>
    cases a with
    | datetime wall utcOffset =>
      cases utcOffset with
      | none =>
        refine iff_of_true ?_ (fun _ _ h => by cases h)
        simp [SqlDialect.store, SqlDialect.bindAs, SqlDialect.bind, processBindParam,
          PyScalar.toScalar]
      | some offset =>
        have hstore : SqlDialect.postgresql.store type (.scalar (.datetime wall (some offset))) =
            SqlDialect.sqlite.store type (.scalar (.datetime wall (some offset))) ↔ offset = 0 := by
          cases type <;>
            simp [SqlDialect.store, SqlDialect.bindAs, SqlDialect.bind, processBindParam,
              PyScalar.toScalar, Scalar.asType]
        rw [hstore]
        refine ⟨fun h _ _ heq => ?_, fun h => h _ _ rfl⟩
        cases heq
        exact h
    | bool | int | float | str | strEnum | intEnum | uuid | path =>
      exact iff_of_true rfl (fun _ _ h => by cases h)

section

variable {postgres lite : SqlEngine} {tables : SchemaTables}

/-- **Two engines**: PostgreSQL's and SQLite's, which write the same texts. -/
structure AreBoth (postgres lite : SqlEngine) : Prop where
  postgresql : postgres.database.dialect = .postgresql
  sqlite : lite.database.dialect = .sqlite
  isoformat : postgres.isoformat = lite.isoformat

theorem elementImage_eq_iff (h : AreBoth postgres lite) (listTable : ListTable) (element : PyValue) :
    elementImage postgres listTable element = elementImage lite listTable element ↔
      IsElementUtc listTable element := by
  unfold elementImage IsElementUtc
  cases hmodel : listTable.elementModel with
  | none =>
    dsimp only
    unfold SqlStore.storedElement
    rw [h.postgresql, h.sqlite, SqlStore.store_convert, SqlStore.store_convert]
    exact store_eq_iff _ _
  | some fields =>
    cases element with
    | dict entries =>
      dsimp only
      rw [Value.document.injEq, List.map_inj_left]
      simp only [PyValue.dict.injEq, forall_eq', Prod.mk.injEq, true_and]
      refine forall₂_congr fun field _ => ?_
      unfold elementValue
      rw [h.postgresql, h.sqlite, h.isoformat]
      split_ifs with hjson
      · exact iff_of_true rfl fun hne => (hne hjson).elim
      · rw [SqlStore.store_convert, SqlStore.store_convert, store_eq_iff]
        exact ⟨fun hutc _ => hutc, fun hutc => hutc hjson⟩
    | none | scalar | sequence =>
      exact iff_of_true rfl (fun _ heq => by cases heq)

theorem listImage_eq_iff (h : AreBoth postgres lite) (record : Record)
    (list : String × ListTable) :
    listImage postgres record list = listImage lite record list ↔
      ∀ elements, SqlStore.itemsOf (record.get list.1) = .ok elements →
        ∀ element ∈ elements, IsElementUtc list.2 element := by
  unfold listImage
  cases SqlStore.itemsOf (record.get list.1) with
  | error e => exact iff_of_true rfl (fun _ heq => by cases heq)
  | ok elements =>
    dsimp only
    rw [Value.list.injEq, List.map_inj_left]
    simp only [elementImage_eq_iff h, Except.ok.injEq, forall_eq']

theorem columnImage_eq_iff (h : AreBoth postgres lite) (record : Record)
    (column : String × ColumnType) :
    columnImage postgres tables record column = columnImage lite tables record column ↔
      (tables.jsonFields.contains column.1 = false → IsUtc (record.get column.1)) := by
  unfold columnImage SqlStore.columnValue
  rw [h.postgresql, h.sqlite, h.isoformat]
  cases tables.jsonFields.contains column.1 with
  | true => exact iff_of_true rfl (fun heq => by cases heq)
  | false =>
    rw [if_neg Bool.false_ne_true, if_neg Bool.false_ne_true, SqlStore.store_convert,
      SqlStore.store_convert, store_eq_iff]
    exact ⟨fun hutc _ => hutc, fun hutc => hutc rfl⟩

theorem isReadBack_eq (h : AreBoth postgres lite) (record : Record)
    (column : String × ColumnType) :
    isReadBack postgres tables record column = isReadBack lite tables record column := by
  have hnull : isNullValue (columnImage postgres tables record column) =
      isNullValue (columnImage lite tables record column) := by
    unfold columnImage SqlStore.columnValue
    rw [h.postgresql, h.sqlite, h.isoformat]
    split_ifs
    · rfl
    · rw [SqlStore.store_convert, SqlStore.store_convert]
      cases record.get column.1 <;> rfl
  rw [isReadBack, isReadBack, hnull]

/-- **The records that PostgreSQL and SQLite read back alike** are those whose datetimes are in UTC:
a column of SQLite keeps the time on the clock, and loses the timezone it is in. -/
theorem storedDocument_eq_iff (h : AreBoth postgres lite) (record : Record) :
    storedDocument postgres tables record = storedDocument lite tables record ↔
      IsRecordUtc tables record := by
  have hread : tables.columns.filter (isReadBack postgres tables record) =
      tables.columns.filter (isReadBack lite tables record) :=
    List.filter_congr fun column _ => isReadBack_eq h record column
  unfold storedDocument IsRecordUtc
  rw [hread, Value.document.injEq]
  have hsplit : ∀ {a a' b b' : List (String × Value Scalar)}, a.length = a'.length →
      (a ++ b = a' ++ b' ↔ a = a' ∧ b = b') := fun hlength =>
    ⟨fun heq => List.append_inj heq hlength, fun heq => by rw [heq.1, heq.2]⟩
  rw [hsplit (by rw [List.length_map, List.length_map]), List.map_inj_left, List.map_inj_left]
  simp only [Prod.mk.injEq, true_and, columnImage_eq_iff h, listImage_eq_iff h]
  refine and_congr_left fun _ => ⟨fun hcolumns column hmem hid hjson => ?_, fun hcolumns column hmem => ?_⟩
  · by_cases hback : isReadBack lite tables record column = true
    · exact hcolumns column (List.mem_filter.mpr ⟨hmem, hback⟩) hjson
    · -- what is not read back is None
      have hnull : columnImage lite tables record column = .null := by
        rw [isReadBack, bne_iff_ne.mpr hid, Bool.true_and, Bool.not_eq_true', Bool.not_eq_false,
          Bool.and_eq_true] at hback
        exact isNullValue_iff.mp hback.2
      unfold columnImage SqlStore.columnValue at hnull
      rw [hjson, if_neg Bool.false_ne_true, SqlStore.store_convert] at hnull
      intro wall offset heq
      rw [heq] at hnull
      cases hnull
  · obtain ⟨hmem, hback⟩ := List.mem_filter.mp hmem
    rw [isReadBack, Bool.and_eq_true] at hback
    exact hcolumns column hmem (bne_iff_ne.mp hback.1)

end

/-- A nonce whose expiry is given in another timezone is not read back alike. -/
theorem storedDocument_ne_nonce :
    storedDocument { deviceEngine with database := { sqlite with dialect := .postgresql } } nonceTables
        [("nonce", .scalar (.str "n")), ("device_name", .scalar (.str "loke")),
          ("expires_at", .scalar (.datetime 5 (some 1)))] ≠
      storedDocument deviceEngine nonceTables
        [("nonce", .scalar (.str "n")), ("device_name", .scalar (.str "loke")),
          ("expires_at", .scalar (.datetime 5 (some 1)))] := by
  have hboth : AreBoth { deviceEngine with database := { sqlite with dialect := .postgresql } }
      deviceEngine := ⟨rfl, rfl, rfl⟩
  have hcolumn : ("expires_at", ColumnType.dateTime) ∈ nonceTables.columns := by decide +kernel
  intro heq
  have hutc := ((storedDocument_eq_iff hboth _).mp heq).1 _ hcolumn (by decide +kernel)
    (by decide +kernel)
  exact absurd (hutc 5 1 rfl) one_ne_zero

end Mss
