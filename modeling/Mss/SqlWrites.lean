import Mss.Storage.SqlStore
import Mss.StoredRecords
import Mss.Lib.ChildTable

/-!
# What the statements do

A statement that is executed leads to the rows it describes; a list of scalars, kept in child rows,
is a child table, and the statements on its rows are the writes to that table.

* `toRaw_of_execute`, `execute_ok`: a statement is executed if its rows meet the constraints.
* `OnlyList`: what a write to a list leaves alone.
* `ScalarList`: the child table of a list of scalars.
* **`ListIs`**: the child rows of a list are those of a `ChildTable`.
* **`listIs_replaceList`**, **`listIs_addElement`**, **`listIs_removeElement`**: the writes to them.
* **`elementsOf_listIs`**: what is read is the list of the child table.
-/

namespace Mss

open Storage

section

variable {database : SqlDatabase} {references : References} {tables : SchemaTables}

/-! ## Statements -/

theorem toRaw_of_execute {raw : RawTables} {s : SqlTables database references tables}
    (h : execute raw = .ok s) : s.toRawTables = raw := by
  unfold execute at h
  split_ifs at h
  cases h
  rfl

/-- **A statement whose rows meet the constraints is executed.** -/
theorem execute_ok {raw : RawTables} (typed : raw.Typed database tables)
    (notNull : raw.NotNull tables) (unique : raw.Unique database tables)
    (foreignKeys : raw.ForeignKeys references tables) :
    ∃ s : SqlTables database references tables, execute raw = .ok s ∧ s.toRawTables = raw := by
  refine ⟨{ raw with typed, notNull, unique, foreignKeys }, ?_, rfl⟩
  rw [execute, dif_pos typed, dif_pos notNull, dif_pos unique, dif_pos foreignKeys]

theorem typed_of_integrity {raw : RawTables} {violation : Violation}
    (h : (execute raw : Except WriteError (SqlTables database references tables)) =
      .error (.integrity violation)) : raw.Typed database tables := by
  unfold execute at h
  split_ifs at h with htyped
  all_goals first
    | exact htyped
    | cases h

/-- **A statement raises a unique violation** where its rows are of the columns' types and no key is
NULL, but two rows are one. -/
theorem execute_unique_iff {raw : RawTables} :
    (execute raw : Except WriteError (SqlTables database references tables)) =
      .error (.integrity .unique) ↔
      raw.Typed database tables ∧ raw.NotNull tables ∧ ¬ raw.Unique database tables := by
  unfold execute
  split_ifs with htyped hnotNull hunique hforeign
  · simp [hunique]
  · simp [hunique]
  · simp [htyped, hnotNull, hunique]
  · simp [hnotNull]
  · simp [htyped]

variable (references) in
theorem execute_of_typed {raw : RawTables} (typed : raw.Typed database tables) :
    (∃ s : SqlTables database references tables, execute raw = .ok s) ∨
      ∃ violation, (execute raw : Except WriteError (SqlTables database references tables)) =
        .error (.integrity violation) := by
  unfold execute
  rw [dif_pos typed]
  split_ifs
  · exact .inl ⟨_, rfl⟩
  · exact .inr ⟨_, rfl⟩
  · exact .inr ⟨_, rfl⟩
  · exact .inr ⟨_, rfl⟩

namespace SqlStore

variable {s s' : SqlTables database references tables} {isoformat : ℤ → Option ℤ → String}
  {field : String} {listTable : ListTable} {key : Value Scalar}

@[simp] theorem rows_withChildRows (field : String) (children : List Row) :
    (withChildRows s field children).rows = s.rows := rfl

@[simp] theorem childRows_withChildRows (field : String) (children : List Row) :
    (withChildRows s field children).childRows = Function.update s.childRows field children := rfl

theorem raw_deleteChildren {test : Row → Bool}
    (h : deleteChildren s field listTable key test = .ok s') :
    s'.toRawTables = withChildRows s field ((s.childRows field).filter fun child =>
      !(isChildOf key (child listTable.parentColumn) && test child)) :=
  toRaw_of_execute h

theorem raw_insertChildren {children : List Row} (h : insertChildren s field children = .ok s') :
    s'.toRawTables = withChildRows s field (s.childRows field ++ children) :=
  toRaw_of_execute h

/-- A write to one list: the rows and the other lists are as they were. -/
structure OnlyList (field : String) (s s' : SqlTables database references tables) : Prop where
  rows : s'.rows = s.rows
  others : ∀ other, other ≠ field → s'.childRows other = s.childRows other

namespace OnlyList

variable {s₀ : SqlTables database references tables}

theorem refl (field : String) (s : SqlTables database references tables) : OnlyList field s s :=
  ⟨rfl, fun _ _ => rfl⟩

theorem trans (h : OnlyList field s s') (h' : OnlyList field s' s₀) : OnlyList field s s₀ :=
  ⟨h'.rows.trans h.rows, fun other hne => (h'.others other hne).trans (h.others other hne)⟩

theorem of_raw {children : List Row} (h : s'.toRawTables = withChildRows s field children) :
    OnlyList field s s' := by
  refine ⟨?_, fun other hne => ?_⟩
  · rw [h]
    rfl
  · rw [h]
    exact Function.update_of_ne hne _ _

end OnlyList

theorem listTableOf_ok {field : String} (h : listTableOf tables field = .ok listTable) :
    tables.listTables.lookup field = some listTable := by
  unfold listTableOf at h
  split at h
  · cases h
    assumption
  · cases h

theorem onlyList_replaceList {replacement : String × List PyValue}
    (h : replaceList isoformat key s replacement = .ok s') : OnlyList replacement.1 s s' := by
  obtain ⟨listTable, _, h⟩ := bind_ok h
  obtain ⟨s₁, hdelete, h⟩ := bind_ok h
  have hfirst := OnlyList.of_raw (raw_deleteChildren hdelete)
  split_ifs at h
  · cases h
    exact hfirst
  · obtain ⟨children, _, h⟩ := bind_ok h
    exact hfirst.trans (OnlyList.of_raw (raw_insertChildren h))

/-- The row of an element that is added. -/
def addedRow (s : SqlTables database references tables) (key : Value Scalar) (field : String)
    (listTable : ListTable) (element : PyValue) : Row :=
  elementRow database.dialect listTable key element (nextPlace (childrenOf s field listTable key))

/-- **An element is added, or a conflict passed over.** -/
theorem addElement_cases {addition : String × PyValue} (h : addElement key s addition = .ok s') :
    ∃ listTable, tables.listTables.lookup addition.1 = some listTable ∧
      (insertChildren s addition.1 [addedRow s key addition.1 listTable addition.2] = .ok s' ∨
        s' = s ∧ ∃ violation,
          insertChildren s addition.1 [addedRow s key addition.1 listTable addition.2] =
            .error (.integrity violation)) := by
  obtain ⟨listTable, hlist, h⟩ := bind_ok h
  refine ⟨listTable, listTableOf_ok hlist, ?_⟩
  change passOver s (insertChildren s addition.1 [addedRow s key addition.1 listTable addition.2]) =
    .ok s' at h
  cases hinsert : insertChildren s addition.1 [addedRow s key addition.1 listTable addition.2] with
  | ok s₁ =>
    rw [hinsert] at h
    exact .inl h
  | error e =>
    rw [hinsert] at h
    cases e with
    | integrity violation =>
      cases h
      exact .inr ⟨rfl, violation, rfl⟩
    | find | data | index => cases h

theorem onlyList_addElement {addition : String × PyValue}
    (h : addElement key s addition = .ok s') : OnlyList addition.1 s s' := by
  obtain ⟨listTable, _, hinsert | ⟨rfl, _⟩⟩ := addElement_cases h
  · exact OnlyList.of_raw (raw_insertChildren hinsert)
  · exact .refl _ _

theorem onlyList_removeElement {removal : String × PyValue}
    (h : removeElement key s removal = .ok s') : OnlyList removal.1 s s' := by
  obtain ⟨listTable, _, h⟩ := bind_ok h
  exact OnlyList.of_raw (raw_deleteChildren h)

theorem execute_sublist {children : List Row} (hsub : children.Sublist (s.childRows field)) :
    ∃ s' : SqlTables database references tables,
      execute (withChildRows s field children) = .ok s' ∧
        s'.toRawTables = withChildRows s field children := by
  have hupdate (name : String) :
      (Function.update s.childRows field children name).Sublist (s.childRows name) := by
    by_cases hname : name = field
    · rw [hname, Function.update_self]
      exact hsub
    · rw [Function.update_of_ne hname]
  exact execute_ok
    ⟨s.typed.1, fun list hmem row hrow => s.typed.2 list hmem row ((hupdate _).subset hrow)⟩
    ⟨s.notNull.1, fun list hmem row hrow => s.notNull.2 list hmem row ((hupdate _).subset hrow)⟩
    ⟨s.unique.1, s.unique.2.1, fun list hmem => (s.unique.2.2 list hmem).sublist (hupdate _)⟩
    ⟨fun list hmem child hchild => s.foreignKeys.1 list hmem child ((hupdate _).subset hchild),
      s.foreignKeys.2.1, fun list hmem hreferences child hchild =>
        s.foreignKeys.2.2 list hmem hreferences child ((hupdate _).subset hchild)⟩

theorem deleteChildren_ok (s : SqlTables database references tables) (field : String)
    (listTable : ListTable) (key : Value Scalar) (test : Row → Bool) :
    ∃ s', deleteChildren s field listTable key test = .ok s' := by
  have hsub : ((s.childRows field).filter fun child =>
      !(isChildOf key (child listTable.parentColumn) && test child)).Sublist (s.childRows field) :=
    List.filter_sublist
  obtain ⟨s', h, _⟩ := execute_sublist hsub
  exact ⟨s', h⟩

end SqlStore

/-! ## Lists of scalars -/

/-- **The child table of a list of scalars.** -/
structure ScalarList (tables : SchemaTables) (field : String) (listTable : ListTable)
    (value : String) (type keyType : ColumnType) : Prop where
  lookup : tables.listTables.lookup field = some listTable
  noModel : listTable.elementModel = none
  valueColumn : listTable.valueColumn = some value
  columns : listTable.columns =
    [(listTable.parentColumn, keyType), (value, type), (position, .bigInteger)]
  nodup : [listTable.parentColumn, value, position].Nodup

theorem scalarList_of_lookup {schema : Schema} {childFields : List String}
    (hof : tables.Of schema childFields) {field : String} {listTable : ListTable}
    (hlookup : tables.listTables.lookup field = some listTable)
    (hmodel : listTable.elementModel = none) :
    ∃ a element value keyType, schema.declared field = some a ∧ getElementField a = some element ∧
      tables.columns.lookup schema.storage.key = some keyType ∧
      ScalarList tables field listTable value (getColumnType element) keyType := by
  have htable := (hof.lookup_listTables hlookup).2
  simp only [getListTable, Option.bind_eq_bind, Option.bind_eq_some_iff] at htable
  obtain ⟨a, ha, h⟩ := htable
  split at h
  · simp at h
  · obtain ⟨keyType, hkey, h⟩ := Option.bind_eq_some_iff.mp h
    obtain ⟨element, helement, h⟩ := Option.bind_eq_some_iff.mp h
    cases hfound : element.findNestedModel with
    | some model =>
      rw [hfound] at h
      obtain ⟨columns, _, h⟩ := Option.bind_eq_some_iff.mp h
      cases h
      cases hmodel
    | none =>
      rw [hfound] at h
      obtain ⟨columns, hcolumns, h⟩ := Option.bind_eq_some_iff.mp h
      obtain ⟨hnodup, rfl⟩ := ofColumns_eq_some.mp hcolumns
      cases h
      exact ⟨a, element, _, keyType, ha, helement, hkey, hlookup, rfl, rfl, rfl, hnodup⟩

namespace ScalarList

variable {field : String} {listTable : ListTable} {value : String} {type keyType : ColumnType}

theorem typeOf (h : ScalarList tables field listTable value type keyType) :
    listTable.typeOf value = type := by
  obtain ⟨hparent, -⟩ := List.nodup_cons.mp h.nodup
  have hne : value ≠ listTable.parentColumn := fun heq => hparent (by simp [heq])
  simp [ListTable.typeOf, h.columns, List.lookup_cons, beq_false_of_ne hne]

theorem primaryKey (h : ScalarList tables field listTable value type keyType) :
    listTable.primaryKey = [listTable.parentColumn, value] := by
  rw [ListTable.primaryKey, h.valueColumn]
  rfl

end ScalarList

/-- The row of a scalar list's table is a row of a child table. -/
structure IsChildRow (listTable : ListTable) (value : String) (row : Row)
    (r : ChildRow Scalar Scalar) : Prop where
  parent : row listTable.parentColumn = .scalar r.parent
  element : row value = .scalar r.value
  place : positionOf row = r.position

/-- **The child rows of a list are those of a child table.** -/
def ListIs (s : SqlTables database references tables) (field : String) (listTable : ListTable)
    (value : String) (t : ChildTable Scalar Scalar) : Prop :=
  List.Forall₂ (IsChildRow listTable value) (s.childRows field) t.rows

theorem eq_of_isChildOf {x y : Value Scalar} (h : isChildOf x y = true) : x = y := by
  cases x <;> cases y
  case scalar.scalar a b => exact congrArg Value.scalar (of_decide_eq_true h)
  all_goals cases h

theorem isChildOf_comm (x y : Value Scalar) : isChildOf x y = isChildOf y x := by
  cases x <;> cases y
  case scalar.scalar a b => exact decide_eq_decide.mpr eq_comm
  all_goals rfl

theorem isChildOf_scalar (a b : Scalar) : isChildOf (.scalar a) (.scalar b) = decide (a = b) := rfl

section

variable {field : String} {listTable : ListTable} {value : String} {type keyType : ColumnType}
  {row : Row} {r : ChildRow Scalar Scalar} {k a : Scalar}

theorem IsChildRow.isChildOf_parent (h : IsChildRow listTable value row r) (k : Scalar) :
    isChildOf (.scalar k) (row listTable.parentColumn) = decide (r.parent = k) := by
  rw [h.parent, isChildOf_scalar]
  exact decide_eq_decide.mpr eq_comm

theorem IsChildRow.isChildOf_element (h : IsChildRow listTable value row r) (a : Scalar) :
    isChildOf (row value) (.scalar a) = decide (r.value = a) := by
  rw [h.element, isChildOf_scalar]

theorem isChildRow_elementRow (h : ScalarList tables field listTable value type keyType)
    {dialect : SqlDialect} {element : PyValue} (helement : dialect.store type element = .scalar a)
    (place : ℕ) :
    IsChildRow listTable value (elementRow dialect listTable (.scalar k) element place)
      ⟨k, a, place⟩ := by
  have hnodup := h.nodup
  simp only [List.nodup_cons, List.mem_cons, List.not_mem_nil, or_false, not_or] at hnodup
  obtain ⟨⟨hvalue, hplace⟩, hvalue', -⟩ := hnodup
  have hrow : elementRow dialect listTable (.scalar k) element place =
      rowOf [(listTable.parentColumn, .scalar k), (value, .scalar a),
        (position, .scalar (.int place))] := by
    simp only [elementRow, h.valueColumn, Option.getD_some, h.typeOf, helement]
  rw [hrow]
  refine ⟨?_, ?_, ?_⟩
  · simp [rowOf, Value.get]
  · simp [rowOf, Value.get, List.lookup_cons, beq_false_of_ne (Ne.symm hvalue)]
  · simp [rowOf, positionOf, Value.get, List.lookup_cons, beq_false_of_ne (Ne.symm hplace),
      beq_false_of_ne (Ne.symm hvalue')]

theorem forall₂_filter {A B : Type} {R : A → B → Prop} {p : A → Bool} {q : B → Bool}
    (hpq : ∀ a b, R a b → p a = q b) {l : List A} {m : List B} (h : List.Forall₂ R l m) :
    List.Forall₂ R (l.filter p) (m.filter q) :=
  List.rel_filter (fun a b hab => iff_of_eq (congrArg (· = true) (hpq a b hab))) h

variable {s s' : SqlTables database references tables} {t : ChildTable Scalar Scalar}

theorem childrenOf_listIs (hlist : ListIs s field listTable value t) (k : Scalar) :
    List.Forall₂ (IsChildRow listTable value)
      (SqlStore.childrenOf s field listTable (.scalar k)) (t.rowsOf k) :=
  forall₂_filter (fun _ _ h => h.isChildOf_parent k) hlist

theorem map_positionOf {children : List Row} {rs : List (ChildRow Scalar Scalar)}
    (h : List.Forall₂ (IsChildRow listTable value) children rs) :
    children.map positionOf = (rs.map (·.position)).map Int.ofNat := by
  induction h with
  | nil => rfl
  | cons hrow _ ih =>
    rw [List.map_cons, List.map_cons, List.map_cons, ih, hrow.place]
    rfl

end

namespace SqlStore

variable {schema : Schema} {childFields : List String} {field : String} {listTable : ListTable}
  {value : String} {type keyType : ColumnType} {s s' : SqlTables database references tables}
  {t : ChildTable Scalar Scalar} {k a : Scalar} {isoformat : ℤ → Option ℤ → String}

theorem listIs_deleteChildren (hlist : ListIs s field listTable value t) {test : Row → Bool}
    {q : ChildRow Scalar Scalar → Bool}
    (hq : ∀ row r, IsChildRow listTable value row r →
      (isChildOf (.scalar k) (row listTable.parentColumn) && test row) = q r)
    (h : deleteChildren s field listTable (.scalar k) test = .ok s') :
    ListIs s' field listTable value (t.eraseWhere q) := by
  have hrows : s'.childRows field = (s.childRows field).filter fun child =>
      !(isChildOf (.scalar k) (child listTable.parentColumn) && test child) := by
    rw [raw_deleteChildren h]
    exact Function.update_self _ _ _
  unfold ListIs
  rw [hrows]
  exact forall₂_filter (fun row r hr => congrArg (!·) (hq row r hr)) hlist

theorem listIs_insertChildren (hlist : ListIs s field listTable value t) {children : List Row}
    {rs : List (ChildRow Scalar Scalar)}
    (hrs : List.Forall₂ (IsChildRow listTable value) children rs)
    (h : insertChildren s field children = .ok s') {t' : ChildTable Scalar Scalar}
    (ht' : t'.rows = t.rows ++ rs) : ListIs s' field listTable value t' := by
  have hrows : s'.childRows field = s.childRows field ++ children := by
    rw [raw_insertChildren h]
    exact Function.update_self _ _ _
  unfold ListIs
  rw [hrows, ht']
  exact List.rel_append hlist hrs

theorem forall₂_elementRows (hscalar : ScalarList tables field listTable value type keyType)
    {dialect : SqlDialect} {elements : List PyValue} {vs : List Scalar}
    (helements : elements.map (dialect.store type) = vs.map .scalar) (k : Scalar) (n : ℕ) :
    List.Forall₂ (IsChildRow listTable value)
      ((elements.zipIdx n).map fun element =>
        elementRow dialect listTable (.scalar k) element.1 element.2)
      ((vs.zipIdx n).map fun x => ⟨k, x.1, x.2⟩) := by
  induction elements generalizing vs n with
  | nil =>
    cases vs with
    | nil => exact .nil
    | cons v vs => cases helements
  | cons element elements ih =>
    cases vs with
    | nil => cases helements
    | cons v vs =>
      obtain ⟨hhead, htail⟩ := List.cons_eq_cons.mp helements
      exact .cons (isChildRow_elementRow hscalar hhead n) (ih htail (n + 1))

/-- **A list that is replaced.** -/
theorem listIs_replaceList (hscalar : ScalarList tables field listTable value type keyType)
    (hlist : ListIs s field listTable value t) {elements : List PyValue} {vs : List Scalar}
    (helements : elements.map (database.dialect.store type) = vs.map .scalar) (hvs : vs.Nodup)
    (h : replaceList isoformat (.scalar k) s (field, elements) = .ok s') :
    ListIs s' field listTable value (t.replace k vs hvs) := by
  obtain ⟨lt, hlookup, h⟩ := bind_ok h
  obtain rfl : listTable = lt :=
    Option.some.inj (hscalar.lookup.symm.trans (listTableOf_ok hlookup))
  obtain ⟨s₁, hdelete, h⟩ := bind_ok h
  have herased : ListIs s₁ field listTable value (t.erase k) :=
    listIs_deleteChildren hlist (fun row r hr => by
      rw [Bool.and_true]
      exact hr.isChildOf_parent k) hdelete
  split_ifs at h with hempty
  · cases h
    obtain rfl : elements = [] := List.isEmpty_iff.mp hempty
    obtain rfl : vs = [] := by simpa using helements
    have hrows : (t.replace k [] hvs).rows = (t.erase k).rows := List.append_nil _
    unfold ListIs at herased ⊢
    rwa [hrows]
  · obtain ⟨children, hchildren, h⟩ := bind_ok h
    rw [getChildRows, hscalar.noModel] at hchildren
    cases hchildren
    exact listIs_insertChildren herased (forall₂_elementRows hscalar helements k 0) h rfl

/-- **An element that is removed.** -/
theorem listIs_removeElement (hscalar : ScalarList tables field listTable value type keyType)
    (hlist : ListIs s field listTable value t) {element : PyValue}
    (helement : database.dialect.store type element = .scalar a)
    (h : removeElement (.scalar k) s (field, element) = .ok s') :
    ListIs s' field listTable value (t.remove k a) := by
  obtain ⟨lt, hlookup, h⟩ := bind_ok h
  obtain rfl : listTable = lt :=
    Option.some.inj (hscalar.lookup.symm.trans (listTableOf_ok hlookup))
  refine listIs_deleteChildren hlist (fun row r hr => ?_) h
  simp only [hscalar.valueColumn, Option.getD_some, hscalar.typeOf, helement,
    hr.isChildOf_parent, hr.isChildOf_element]
  by_cases hp : r.parent = k <;> by_cases hv : r.value = a <;> simp [hp, hv]

/-! ## The constraints on a list's rows -/

theorem pairwise_iff_of_forall₂ {A B : Type} {R : A → B → Prop} {P : A → A → Prop}
    {Q : B → B → Prop} (hPQ : ∀ a b a' b', R a a' → R b b' → (P a b ↔ Q a' b')) {l : List A}
    {m : List B} (h : List.Forall₂ R l m) : l.Pairwise P ↔ m.Pairwise Q := by
  induction h with
  | nil => simp
  | cons hab htail ih =>
    rw [List.pairwise_cons, List.pairwise_cons, ih]
    refine and_congr_left fun _ => ?_
    exact forall_iff_of_forall₂ htail fun a _ b hr => hPQ _ _ _ _ hab hr

theorem pairwise_primaryKey (hscalar : ScalarList tables field listTable value type keyType)
    {children : List Row} {rs : List (ChildRow Scalar Scalar)}
    (h : List.Forall₂ (IsChildRow listTable value) children rs) :
    (children.Pairwise fun a b =>
      (listTable.primaryKey.all fun column => isChildOf (a column) (b column)) = false) ↔
      (rs.map fun r => (r.parent, r.value)).Nodup := by
  rw [List.Nodup, List.pairwise_map]
  refine pairwise_iff_of_forall₂ (fun a b r r' ha hb => ?_) h
  rw [hscalar.primaryKey]
  simp [ha.parent, hb.parent, ha.element, hb.element, isChildOf_scalar]

theorem eq_of_name (hof : tables.Of schema childFields) {list : String × ListTable}
    (hmem : list ∈ tables.listTables) {listTable : ListTable}
    (hlookup : tables.listTables.lookup list.1 = some listTable) : list.2 = listTable :=
  Option.some.inj ((hof.isChild list hmem).2.symm.trans (hof.lookup_listTables hlookup).2)

/-- **The constraints on rows added to a list of scalars**: they are of a stored record, of elements
the record does not list, and where these are references, of stored records. -/
theorem constraints_insert (hof : tables.Of schema childFields)
    (hscalar : ScalarList tables field listTable value type keyType)
    (hlist : ListIs s field listTable value t) {children : List Row}
    {rs : List (ChildRow Scalar Scalar)}
    (hrs : List.Forall₂ (IsChildRow listTable value) children rs)
    (hrow : ∃ row ∈ s.rows, row tables.schema.storage.key = .scalar k)
    (hparent : ∀ r ∈ rs, r.parent = k)
    (hnodup : ((t.rows ++ rs).map fun r => (r.parent, r.value)).Nodup)
    (href : field ∈ tables.schema.storage.references →
      ∀ r ∈ rs, references field (.scalar r.value) = true) :
    (withChildRows s field (s.childRows field ++ children)).NotNull tables ∧
      (withChildRows s field (s.childRows field ++ children)).Unique database tables ∧
      (withChildRows s field (s.childRows field ++ children)).ForeignKeys references tables := by
  have hnew (child : Row) (hchild : child ∈ children) :
      ∃ r ∈ rs, IsChildRow listTable value child r := by
    obtain ⟨i, hi, rfl⟩ := List.getElem_of_mem hchild
    exact ⟨_, List.getElem_mem _, hrs.get hi (hrs.length_eq ▸ hi)⟩
  -- every other list has the child rows that it had
  have hupdate (list : String × ListTable) (hmem : list ∈ tables.listTables) :
      (list.1 = field ∧ list.2 = listTable) ∨ (list.1 ≠ field ∧
        Function.update s.childRows field (s.childRows field ++ children) list.1 =
          s.childRows list.1) := by
    by_cases hname : list.1 = field
    · exact .inl ⟨hname, eq_of_name hof hmem (hname ▸ hscalar.lookup)⟩
    · exact .inr ⟨hname, Function.update_of_ne hname _ _⟩
  refine ⟨⟨s.notNull.1, ?_⟩, ⟨s.unique.1, s.unique.2.1, ?_⟩, ?_, s.foreignKeys.2.1, ?_⟩
  · intro list hmem row hr column hcolumn
    obtain ⟨hname, htable⟩ | ⟨_, hother⟩ := hupdate list hmem
    · rw [childRows_withChildRows, hname, Function.update_self, List.mem_append] at hr
      obtain hr | hr := hr
      · exact s.notNull.2 list hmem row (hname ▸ hr) column hcolumn
      · obtain ⟨r, _, hchild⟩ := hnew row hr
        rw [htable, hscalar.primaryKey, List.mem_cons, List.mem_singleton] at hcolumn
        obtain rfl | rfl := hcolumn
        · rw [hchild.parent]
          rfl
        · rw [hchild.element]
          rfl
    · rw [childRows_withChildRows, hother] at hr
      exact s.notNull.2 list hmem row hr column hcolumn
  · intro list hmem
    obtain ⟨hname, htable⟩ | ⟨_, hother⟩ := hupdate list hmem
    · rw [childRows_withChildRows, hname, Function.update_self, htable]
      exact (pairwise_primaryKey hscalar (List.rel_append hlist hrs)).mpr hnodup
    · rw [childRows_withChildRows, hother]
      exact s.unique.2.2 list hmem
  · intro list hmem child hchild
    obtain ⟨hname, htable⟩ | ⟨_, hother⟩ := hupdate list hmem
    · rw [childRows_withChildRows, hname, Function.update_self, List.mem_append] at hchild
      obtain hchild | hchild := hchild
      · exact s.foreignKeys.1 list hmem child (hname ▸ hchild)
      · obtain ⟨r, hr, hrow'⟩ := hnew child hchild
        obtain ⟨row, hrow, hkey⟩ := hrow
        refine ⟨row, hrow, ?_⟩
        rw [htable, hkey, hrow'.parent, hparent r hr, isChildOf_scalar, decide_eq_true rfl]
    · rw [childRows_withChildRows, hother] at hchild
      exact s.foreignKeys.1 list hmem child hchild
  · intro list hmem hreferences child hchild column hcolumn
    obtain ⟨hname, htable⟩ | ⟨_, hother⟩ := hupdate list hmem
    · rw [childRows_withChildRows, hname, Function.update_self, List.mem_append] at hchild
      obtain hchild | hchild := hchild
      · exact s.foreignKeys.2.2 list hmem hreferences child (hname ▸ hchild) column hcolumn
      · obtain ⟨r, hr, hrow'⟩ := hnew child hchild
        rw [htable, hscalar.valueColumn] at hcolumn
        obtain rfl := Option.some.inj hcolumn
        rw [hrow'.element, hname, isReference, href (hname ▸ hreferences) r hr, Bool.or_true]
    · rw [childRows_withChildRows, hother] at hchild
      exact s.foreignKeys.2.2 list hmem hreferences child hchild column hcolumn

/-- A row of a scalar list that its columns take. -/
structure TypedRow (database : SqlDatabase) (listTable : ListTable) (row : Row) : Prop where
  place : placeInRange database.dialect row = true
  columns : ∀ column ∈ listTable.columns,
    Fits column.2 (row column.1) ∧ inRange (row column.1) = true

theorem typed_insert (hof : tables.Of schema childFields)
    (hscalar : ScalarList tables field listTable value type keyType) {children : List Row}
    (htyped : ∀ child ∈ children, TypedRow database listTable child) :
    (withChildRows s field (s.childRows field ++ children)).Typed database tables := by
  refine ⟨s.typed.1, fun list hmem row hr => ?_⟩
  by_cases hname : list.1 = field
  · rw [childRows_withChildRows, hname, Function.update_self, List.mem_append] at hr
    obtain hr | hr := hr
    · exact s.typed.2 list hmem row (hname ▸ hr)
    · rw [eq_of_name hof hmem (hname ▸ hscalar.lookup)]
      exact ⟨(htyped row hr).place, (htyped row hr).columns⟩
  · rw [childRows_withChildRows, Function.update_of_ne hname] at hr
    exact s.typed.2 list hmem row hr

/-- **Rows that are added to a list of scalars are inserted**: the columns take them, they are of a
stored record and of elements that it does not list, and the references are of stored records. -/
theorem insertChildren_ok (hof : tables.Of schema childFields)
    (hscalar : ScalarList tables field listTable value type keyType)
    (hlist : ListIs s field listTable value t) {children : List Row}
    {rs : List (ChildRow Scalar Scalar)}
    (hrs : List.Forall₂ (IsChildRow listTable value) children rs)
    (htyped : ∀ child ∈ children, TypedRow database listTable child)
    (hrow : ∃ row ∈ s.rows, row tables.schema.storage.key = .scalar k)
    (hparent : ∀ r ∈ rs, r.parent = k)
    (hnodup : ((t.rows ++ rs).map fun r => (r.parent, r.value)).Nodup)
    (href : field ∈ tables.schema.storage.references →
      ∀ r ∈ rs, references field (.scalar r.value) = true) :
    ∃ s', insertChildren s field children = .ok s' := by
  obtain ⟨hnotNull, hunique, hforeign⟩ :=
    constraints_insert hof hscalar hlist hrs hrow hparent hnodup href
  obtain ⟨s', h, _⟩ := execute_ok (typed_insert hof hscalar htyped) hnotNull hunique hforeign
  exact ⟨s', h⟩

theorem typedRow_elementRow (hscalar : ScalarList tables field listTable value type keyType)
    {element : PyValue} (helement : database.dialect.store type element = .scalar a)
    (ha : a.kind = type) (harange : inRange (.scalar a) = true)
    (hk : Fits keyType (.scalar k)) (hkrange : inRange (.scalar k) = true) {place : ℕ}
    (hplace : place < 2 ^ 31) :
    TypedRow database listTable
      (elementRow database.dialect listTable (.scalar k) element place) := by
  have hrow := isChildRow_elementRow (k := k) hscalar helement place
  have hposition : (elementRow database.dialect listTable (.scalar k) element place) position =
      .scalar (.int place) := by
    have hnodup := hscalar.nodup
    simp only [List.nodup_cons, List.mem_cons, List.not_mem_nil, or_false, not_or] at hnodup
    obtain ⟨⟨_, hparent⟩, hvalue, -⟩ := hnodup
    simp only [elementRow, hscalar.valueColumn, Option.getD_some]
    simp [rowOf, Value.get, List.lookup_cons, beq_false_of_ne (Ne.symm hparent),
      beq_false_of_ne (Ne.symm hvalue)]
  constructor
  · rw [placeInRange, hrow.place]
    simp only [Bool.or_eq_true, decide_eq_true_iff]
    exact .inr (by norm_cast)
  · rw [hscalar.columns]
    simp only [List.mem_cons, List.not_mem_nil, or_false, forall_eq_or_imp, forall_eq]
    rw [hrow.parent, hrow.element, hposition]
    refine ⟨⟨hk, hkrange⟩, ⟨.inr (.inr ⟨a, rfl, ha⟩), harange⟩, ?_⟩
    refine ⟨.inr (.inr ⟨_, rfl, rfl⟩), ?_⟩
    simp only [inRange, Bool.and_eq_true, decide_eq_true_iff]
    omega

theorem nextPlace_eq (hlist : ListIs s field listTable value t) (k : Scalar) :
    nextPlace (childrenOf s field listTable (.scalar k)) = t.nextPosition k := by
  unfold nextPlace ChildTable.nextPosition
  rw [map_positionOf (childrenOf_listIs hlist k)]
  generalize (t.rowsOf k).map (·.position) = places
  cases hmax : places.max? with
  | none =>
    rw [List.max?_eq_none_iff] at hmax
    rw [hmax]
    rfl
  | some m =>
    obtain ⟨hmem, hle⟩ := List.max?_eq_some_iff.mp hmax
    have hcast : (places.map Int.ofNat).max? = some (Int.ofNat m) := by
      refine List.max?_eq_some_iff.mpr ⟨List.mem_map_of_mem hmem, fun i hi => ?_⟩
      obtain ⟨n, hn, rfl⟩ := List.mem_map.mp hi
      exact Int.ofNat_le.mpr (hle n hn)
    rw [hcast]
    rfl

theorem isChildRow_addedRow (hscalar : ScalarList tables field listTable value type keyType)
    (hlist : ListIs s field listTable value t) {element : PyValue}
    (helement : database.dialect.store type element = .scalar a) (k : Scalar) :
    IsChildRow listTable value (addedRow s (.scalar k) field listTable element)
      ⟨k, a, t.nextPosition k⟩ := by
  rw [addedRow, nextPlace_eq hlist]
  exact isChildRow_elementRow hscalar helement _

theorem nodup_added (t : ChildTable Scalar Scalar) (place : ℕ)
    (habsent : ¬ ∃ r ∈ t.rows, r.parent = k ∧ r.value = a) :
    ((t.rows ++ [ChildRow.mk k a place]).map fun r => (r.parent, r.value)).Nodup := by
  rw [List.map_append, List.nodup_append]
  refine ⟨t.primaryKey, List.nodup_singleton _, ?_⟩
  rintro x hx _ hy rfl
  obtain ⟨r, hr, hrx⟩ := List.mem_map.mp hx
  have hpair : (r.parent, r.value) = (k, a) := hrx.trans (List.mem_singleton.mp hy)
  obtain ⟨hparent, hvalue⟩ := Prod.mk.inj hpair
  exact habsent ⟨r, hr, hparent, hvalue⟩

/-- **An element that is added**: the conflict that is passed over is that it is there already. -/
theorem listIs_addElement (hof : tables.Of schema childFields)
    (hscalar : ScalarList tables field listTable value type keyType)
    (hlist : ListIs s field listTable value t) {element : PyValue}
    (helement : database.dialect.store type element = .scalar a)
    (hrow : ∃ row ∈ s.rows, row tables.schema.storage.key = .scalar k)
    (href : field ∈ tables.schema.storage.references → references field (.scalar a) = true)
    (h : addElement (.scalar k) s (field, element) = .ok s') :
    ListIs s' field listTable value (t.add k a) := by
  obtain ⟨lt, hlookup, h⟩ := addElement_cases h
  obtain rfl : listTable = lt := Option.some.inj (hscalar.lookup.symm.trans hlookup)
  have hadded := isChildRow_addedRow hscalar hlist helement k
  have hrs : List.Forall₂ (IsChildRow listTable value)
      [addedRow s (.scalar k) field listTable element] [⟨k, a, t.nextPosition k⟩] :=
    .cons hadded .nil
  obtain hinsert | ⟨rfl, violation, hviolation⟩ := h
  · have habsent : ¬ ∃ r ∈ t.rows, r.parent = k ∧ r.value = a := by
      -- the primary key holds of the rows that the statement led to
      rintro ⟨r, hr, rfl, rfl⟩
      have hunique := s'.unique.2.2 _ (mem_of_lookup hscalar.lookup)
      rw [raw_insertChildren hinsert, childRows_withChildRows, Function.update_self,
        pairwise_primaryKey hscalar (List.rel_append hlist hrs), List.map_append,
        List.nodup_append] at hunique
      exact hunique.2.2 _ (List.mem_map_of_mem hr) _ List.mem_cons_self rfl
    refine listIs_insertChildren hlist hrs hinsert ?_
    rw [ChildTable.add, dif_neg habsent]
  · have hthere : ∃ r ∈ t.rows, r.parent = k ∧ r.value = a := by
      by_contra habsent
      obtain ⟨hnotNull, hunique, hforeign⟩ := constraints_insert hof hscalar hlist hrs hrow
        (by simp) (nodup_added t _ habsent) (by simpa using href)
      obtain ⟨s₁, hok, _⟩ := execute_ok (typed_of_integrity hviolation) hnotNull hunique hforeign
      exact absurd (hok.symm.trans hviolation) (by simp)
    rw [ChildTable.add, dif_pos hthere]
    exact hlist

/-! ## Reading -/

theorem map_getElement (hscalar : ScalarList tables field listTable value type keyType)
    {children : List Row} {rs : List (ChildRow Scalar Scalar)}
    (h : List.Forall₂ (IsChildRow listTable value) children rs) :
    children.map (getElement listTable) = (rs.map (·.value)).map .scalar := by
  induction h with
  | nil => rfl
  | cons hrow _ ih =>
    rw [List.map_cons, List.map_cons, List.map_cons, ih, getElement, hscalar.noModel,
      hscalar.valueColumn]
    exact congrArg (· :: _) hrow.element

/-- **What is read of a list is the list of its child table.** -/
theorem elementsOf_listIs (hscalar : ScalarList tables field listTable value type keyType)
    (hlist : ListIs s field listTable value t) {row : Row}
    (hkey : row tables.schema.storage.key = .scalar k) :
    s.stored.elementsOf row field listTable = (t.elements k).map .scalar := by
  have hchildren := childrenOf_listIs hlist k
  have hsorted : (childrenOf s field listTable (.scalar k)).Pairwise fun a b =>
      decide (positionOf a ≤ positionOf b) = true := by
    have hplaces := t.pairwise_rowsOf k
    refine (pairwise_iff_of_forall₂ (fun a b r r' ha hb => ?_) hchildren).mpr
      (hplaces.imp fun {r r'} (hlt : r.position < r'.position) => hlt.le)
    rw [decide_eq_true_iff, ha.place, hb.place, Int.ofNat_le]
  rw [StoredRows.elementsOf, hkey]
  change ((childrenOf s field listTable (.scalar k)).mergeSort
    fun a b => positionOf a ≤ positionOf b).map (getElement listTable) = _
  rw [List.mergeSort_of_pairwise hsorted, map_getElement hscalar hchildren, t.elements_eq]

/-! ## New rows -/

theorem bind_convert_eq (dialect : SqlDialect) (s : PyScalar) :
    dialect.bind s.convert = dialect.bind s := by
  cases s <;> cases dialect <;> rfl

theorem store_convert (dialect : SqlDialect) (type : ColumnType) (v : PyValue) :
    dialect.store type (convertToColumnValue v) = dialect.store type v := by
  cases v with
  | scalar s => simp [convertToColumnValue, SqlDialect.store, SqlDialect.bindAs, bind_convert_eq]
  | none | sequence | dict => rfl

theorem recordRow_key (hof : tables.Of schema childFields)
    (hcolumn : tables.columns.lookup tables.schema.storage.key = some keyType)
    (htype : keyType ≠ .json) (hid : tables.schema.storage.key ≠ rowId) (record : Record)
    (number : ℤ) :
    (recordRow isoformat database.dialect tables record number) tables.schema.storage.key =
      boundKey database.dialect tables (record.get tables.schema.storage.key) := by
  have hjson : tables.jsonFields.contains tables.schema.storage.key = false := by
    rw [Bool.eq_false_iff]
    intro hcontains
    have := hof.jsonColumn _ (by simpa using hcontains)
    rw [hcolumn] at this
    exact htype (Option.some.inj this)
  have hlookup : ((tables.columns.filter fun column => column.1 != rowId).map fun column =>
      (column.1, columnValue isoformat database.dialect tables record column)).lookup
        tables.schema.storage.key =
      some (columnValue isoformat database.dialect tables record
        (tables.schema.storage.key, keyType)) := by
    have hmap := lookup_map (fun name type =>
      columnValue isoformat database.dialect tables record (name, type))
      (tables.columns.filter fun column => column.1 != rowId) tables.schema.storage.key
    rw [lookup_filter (fun name => name != rowId), if_pos (by simpa using hid), hcolumn] at hmap
    exact hmap
  have hget : (recordRow isoformat database.dialect tables record number)
      tables.schema.storage.key = columnValue isoformat database.dialect tables record
        (tables.schema.storage.key, keyType) := by
    rw [recordRow, rowOf, Value.get, List.lookup_cons, beq_false_of_ne hid]
    exact congrArg (·.getD .null) hlookup
  rw [hget, columnValue, hjson, boundKey, hcolumn]
  exact store_convert _ _ _

theorem childRows_apart {new : Row} (h : insertRow s new = .ok s') {list : String × ListTable}
    (hmem : list ∈ tables.listTables) {child : Row} (hchild : child ∈ s.childRows list.1) :
    isChildOf (child list.2.parentColumn) (new tables.schema.storage.key) = false := by
  obtain ⟨row, hrow, hparent⟩ := s.foreignKeys.1 list hmem child hchild
  have hapart := s'.unique.2.1 [⟨tables.schema.storage.key, false⟩] List.mem_cons_self
  rw [toRaw_of_execute h] at hapart
  have hclash := (List.pairwise_append.mp hapart).2.2 row hrow new List.mem_cons_self
  simp only [clashes, SqlDatabase.read, List.all_cons, List.all_nil, Bool.and_true,
    Bool.false_eq_true, if_false] at hclash
  rw [← eq_of_isChildOf hparent]
  exact hclash

end SqlStore

end

end Mss
