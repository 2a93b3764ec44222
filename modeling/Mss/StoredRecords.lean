import Mss.Storage.SqlFilters

/-!
# The records of stored rows

What the tables of a schema are, and what a condition on a field tests in the record of a row.

* `getColumnType_of_isListField`, `findNestedModel_of_getElementField`: the types of list fields and
  of their elements.
* `SchemaTables.Of`: a column for each field that is not a child field, a child table for each that
  is.
* **`StoredRows.reached_column`**, **`StoredRows.reached_list`**: the record of a row holds what
  its columns hold and lists the elements of its child rows.
-/

namespace Mss

open Storage

/-! ## Annotations -/

namespace FieldType

mutual

theorem findNestedModel_unwrapOptional :
    ∀ a : FieldType, a.unwrapOptional.findNestedModel = a.findNestedModel
  | .generic .union args => by
    have ih := findNestedModelIn_unwrapOthers args
    rw [unwrapOptional]
    split
    · rename_i a h
      rw [h] at ih
      simpa [findNestedModelIn, findNestedModel] using ih
    · rfl
  | .scalar _ | .any | .noneType | .plain | .model _ _ => rfl
  | .generic .list _ | .generic .tuple _ | .generic .set _ | .generic .dict _
  | .generic .other _ => rfl

theorem findNestedModelIn_unwrapOthers :
    ∀ as : List FieldType, findNestedModelIn (unwrapOthers as) = findNestedModelIn as
  | [] => rfl
  | a :: as => by
    have ih := findNestedModelIn_unwrapOthers as
    have ha := findNestedModel_unwrapOptional a
    cases a <;>
      simp only [unwrapOthers, findNestedModelIn, findNestedModel, ih, ha, Option.none_or]

end

theorem unwrapOptional_of_isSequence {a : FieldType} (h : a.isSequence = true) :
    a.unwrapOptional = a := by
  unfold isSequence at h
  split at h
  · rfl
  · rfl
  · rfl
  · cases h

theorem column_of_isSequence {a : FieldType} (h : a.isSequence = true) : a.column = .json := by
  unfold isSequence at h
  split at h
  · rfl
  · rfl
  · rfl
  · cases h

theorem mem_unwrapOthers {a : FieldType} (h : a.isSequence = true) {as : List FieldType}
    (hmem : a ∈ as) : a ∈ unwrapOthers as := by
  induction as with
  | nil => cases hmem
  | cons b bs ih =>
    rcases List.mem_cons.mp hmem with rfl | hrest
    · rw [unwrapOthers]
      · rw [unwrapOptional_of_isSequence h]
        exact List.mem_cons_self
      · rintro rfl
        cases h
    · cases b <;> simp only [unwrapOthers, List.mem_cons, ih hrest, or_true]

end FieldType

open FieldType

/-- **A list field has a JSON column**, where it is not kept in a child table. -/
theorem getColumnType_of_isListField {a : FieldType} (h : a.isListField = true) :
    getColumnType a = .json := by
  have hunwrap : getColumnType a = a.unwrapOptional.column := by
    rw [getColumnType, h]
    simp
  rw [hunwrap]
  unfold isListField at h
  rw [List.any_cons, Bool.or_eq_true] at h
  rcases h with h | h
  · rw [unwrapOptional_of_isSequence h, column_of_isSequence h]
  · -- a union, one of whose types is the list
    obtain ⟨b, hb, hseq⟩ := List.any_eq_true.mp h
    cases a with
    | generic origin args =>
      cases origin with
      | union =>
        have hmem : b ∈ unwrapOthers args := mem_unwrapOthers hseq hb
        rw [unwrapOptional]
        split
        · rename_i c hc
          rw [hc, List.mem_singleton] at hmem
          exact hmem ▸ column_of_isSequence hseq
        · rfl
      | list | tuple | set | dict | other => rfl
    | scalar | any | noneType | plain | model => cases hb

/-- The model of a list's elements is the model the list field holds. -/
theorem findNestedModel_of_getElementField {a element : FieldType} {model : Bool × Fields}
    (h : getElementField a = some element) (hmodel : element.findNestedModel = some model) :
    a.findNestedModel = some model := by
  unfold getElementField at h
  split at h
  · cases h
    cases hmodel
  · rename_i e hargs
    cases h
    rw [← findNestedModel_unwrapOptional]
    cases hu : a.unwrapOptional with
    | generic origin args =>
      rw [hu] at hargs
      change args = [element] at hargs
      subst hargs
      simpa [findNestedModel, findNestedModelIn] using hmodel
    | scalar | any | noneType | plain | model =>
      rw [hu] at hargs
      cases hargs
  · cases h

/-! ## Tables -/

theorem ofColumns_eq_some {columns columns' : Columns} :
    ofColumns columns = some columns' ↔ (columns.map Prod.fst).Nodup ∧ columns = columns' := by
  simp [ofColumns]

/-- The fields that have a column of their own. -/
def Schema.kept (schema : Schema) (childFields : List String) : Fields :=
  schema.fields.filter fun field => !childFields.contains field.1

/-- **The tables are those of the schema**: a column for each field that is not a child field, and a
child table for each that is. -/
structure SchemaTables.Of (tables : SchemaTables) (schema : Schema) (childFields : List String) :
    Prop where
  schema_eq : tables.schema = schema
  columns_eq : tables.columns = (rowId, .bigInteger) :: (schema.kept childFields).map columnOf
  nodup : (tables.columns.map Prod.fst).Nodup
  json : ∀ name a, (schema.kept childFields).lookup name = some a → getColumnType a = .json →
    name ∈ tables.jsonFields
  expires : ∀ field ∈ schema.storage.expires, (tables.columns.lookup field).isSome = true
  isChild : ∀ list ∈ tables.listTables, list.1 ∈ childFields ∧
    getListTable schema tables.columns list.1 = some list.2
  childTable : ∀ name ∈ childFields, ∃ listTable, (name, listTable) ∈ tables.listTables
  names : (tables.listTables.map Prod.fst).Nodup
  jsonColumn : ∀ name ∈ tables.jsonFields, tables.columns.lookup name = some .json

theorem mem_of_mapM {A B : Type} {f : A → Option B} {l : List A} {out : List B}
    (h : l.mapM f = some out) : (∀ b ∈ out, ∃ a ∈ l, f a = some b) ∧
      ∀ a ∈ l, ∃ b ∈ out, f a = some b := by
  induction l generalizing out with
  | nil =>
    obtain rfl : [] = out := by simpa using h
    simp
  | cons a l ih =>
    rw [List.mapM_cons] at h
    simp only [Option.bind_eq_bind, Option.bind_eq_some_iff, Option.pure_def,
      Option.some.injEq] at h
    obtain ⟨b, hb, bs, hbs, rfl⟩ := h
    obtain ⟨hout, hin⟩ := ih hbs
    constructor
    · intro c hc
      rcases List.mem_cons.mp hc with rfl | hc
      · exact ⟨a, List.mem_cons_self, hb⟩
      · obtain ⟨d, hd, hdc⟩ := hout c hc
        exact ⟨d, List.mem_cons_of_mem _ hd, hdc⟩
    · intro d hd
      rcases List.mem_cons.mp hd with rfl | hd
      · exact ⟨b, List.mem_cons_self, hb⟩
      · obtain ⟨c, hc, hdc⟩ := hin d hd
        exact ⟨c, List.mem_cons_of_mem _ hc, hdc⟩

theorem names_of_mapM {A : Type} {f : String → Option A} {names : List String}
    {out : List (String × A)} (h : (names.mapM fun name => (f name).map (Prod.mk name)) = some out) :
    out.map Prod.fst = names := by
  induction names generalizing out with
  | nil =>
    obtain rfl : [] = out := by simpa using h
    rfl
  | cons name names ih =>
    rw [List.mapM_cons] at h
    simp only [Option.bind_eq_bind, Option.bind_eq_some_iff, Option.pure_def,
      Option.some.injEq, Option.map_eq_some_iff] at h
    obtain ⟨_, ⟨a, _, rfl⟩, bs, hbs, rfl⟩ := h
    rw [List.map_cons, ih hbs]

theorem lookup_of_mem {A : Type} {l : List (String × A)} (hnodup : (l.map Prod.fst).Nodup)
    {name : String} {a : A} (hmem : (name, a) ∈ l) : l.lookup name = some a := by
  induction l with
  | nil => cases hmem
  | cons x l ih =>
    rw [List.map_cons, List.nodup_cons] at hnodup
    rcases List.mem_cons.mp hmem with rfl | hrest
    · simp
    · have hne : name ≠ x.1 := fun heq => hnodup.1 (heq ▸ List.mem_map_of_mem hrest)
      rw [List.lookup_cons, beq_false_of_ne hne]
      exact ih hnodup.2 hrest

/-- **The tables that a schema is given.** -/
theorem getTablesOf_spec {schema : Schema} {tables : SchemaTables}
    (h : getTablesOf schema = some tables) : ∃ childFields, tables.Of schema childFields := by
  simp only [getTablesOf, Option.bind_eq_bind, Option.bind_eq_some_iff, ofColumns_eq_some] at h
  obtain ⟨childFields, hfields, columns, ⟨hnodup, rfl⟩, h⟩ := h
  split at h
  · simp at h
  · rename_i hexpires
    obtain ⟨listTables, hlists, h⟩ := Option.bind_eq_some_iff.mp h
    obtain rfl := Option.some.inj h
    obtain ⟨hout, hin⟩ := mem_of_mapM hlists
    refine ⟨childFields, rfl, rfl, hnodup, fun name a ha hjson => ?_, fun field hfield => ?_,
      fun list hlist => ?_, fun name hname => ?_, ?_, fun name hname => ?_⟩
    · exact List.mem_map.mpr
        ⟨(name, a), List.mem_filter.mpr ⟨mem_of_lookup ha, by simpa using hjson⟩, rfl⟩
    · rw [Option.mem_def.mp hfield] at hexpires
      exact Option.isSome_iff_ne_none.mpr fun hnone =>
        hexpires (by simpa only [Option.any_some, Option.isNone_iff_eq_none] using hnone)
    · obtain ⟨field, hfield, hlist⟩ := hout list hlist
      obtain ⟨listTable, htable, rfl⟩ := Option.map_eq_some_iff.mp hlist
      exact ⟨hfield, htable⟩
    · obtain ⟨list, hlist, hname⟩ := hin name hname
      obtain ⟨listTable, _, rfl⟩ := Option.map_eq_some_iff.mp hname
      exact ⟨listTable, hlist⟩
    · rw [names_of_mapM hlists]
      simp only [getChildFields, Option.bind_eq_bind, Option.bind_eq_some_iff] at hfields
      obtain ⟨_, _, hfields⟩ := hfields
      split_ifs at hfields with hnames
      obtain rfl := Option.some.inj hfields
      exact hnames
    · obtain ⟨field, hfield, rfl⟩ := List.mem_map.mp hname
      obtain ⟨hkept, hjson⟩ := List.mem_filter.mp hfield
      have hcolumn : columnOf field = (field.1, .json) := by
        rw [columnOf, of_decide_eq_true hjson]
      exact lookup_of_mem hnodup (List.mem_cons_of_mem _ (hcolumn ▸ List.mem_map_of_mem hkept))

/-- **The child table of a list field**: of models, a column for each of their fields; of scalars, one
for the element. -/
theorem getListTable_spec {schema : Schema} {columns : Columns} {field : String}
    {listTable : ListTable} (h : getListTable schema columns field = some listTable) :
    ∃ a element, schema.declared field = some a ∧ a.isListField = true ∧
      getElementField a = some element ∧
      ((∃ allowsExtra fields, element.findNestedModel = some (allowsExtra, fields) ∧
          listTable.elementModel = some fields ∧
          ∀ field ∈ fields, columnOf field ∈ listTable.columns) ∨
        (element.findNestedModel = none ∧ listTable.elementModel = none ∧
          ∃ value, listTable.valueColumn = some value ∧
            (value, getColumnType element) ∈ listTable.columns)) := by
  simp only [getListTable, Option.bind_eq_bind, Option.bind_eq_some_iff] at h
  obtain ⟨a, ha, h⟩ := h
  split at h
  · simp at h
  · rename_i hlist
    simp only [Option.bind_eq_some_iff] at h
    obtain ⟨keyType, _, element, helement, h⟩ := h
    refine ⟨a, element, ha, by simpa using hlist, helement, ?_⟩
    cases hmodel : element.findNestedModel with
    | some model =>
      obtain ⟨allowsExtra, fields⟩ := model
      rw [hmodel] at h
      obtain ⟨columns', hcolumns, h⟩ := Option.bind_eq_some_iff.mp h
      obtain ⟨_, rfl⟩ := ofColumns_eq_some.mp hcolumns
      obtain rfl := Option.some.inj h
      refine .inl ⟨allowsExtra, fields, rfl, rfl, fun field hfield => ?_⟩
      exact List.mem_cons_of_mem _ (List.mem_cons_of_mem _ (List.mem_map_of_mem hfield))
    | none =>
      rw [hmodel] at h
      obtain ⟨columns', hcolumns, h⟩ := Option.bind_eq_some_iff.mp h
      obtain ⟨_, rfl⟩ := ofColumns_eq_some.mp hcolumns
      obtain rfl := Option.some.inj h
      exact .inr ⟨rfl, rfl, _, rfl, by simp⟩

theorem Schema.lookup_kept (schema : Schema) (childFields : List String) (name : String) :
    (schema.kept childFields).lookup name =
      if name ∈ childFields then none else schema.fields.lookup name := by
  have h := lookup_filter (fun field => !childFields.contains field) schema.fields name
  rw [Schema.kept, h]
  by_cases hname : name ∈ childFields <;> simp [hname]

namespace SchemaTables.Of

variable {tables : SchemaTables} {schema : Schema} {childFields : List String}

theorem lookup_columns (hof : tables.Of schema childFields) {name : String} (hid : name ≠ rowId) :
    tables.columns.lookup name =
      if name ∈ childFields then none else (schema.fields.lookup name).map getColumnType := by
  have hmap : ((schema.kept childFields).map columnOf).lookup name =
      ((schema.kept childFields).lookup name).map getColumnType :=
    lookup_map (fun _ => getColumnType) _ _
  rw [hof.columns_eq, List.lookup_cons, beq_false_of_ne hid]
  simp only [hmap, schema.lookup_kept]
  split <;> rfl

theorem lookup_listTables (hof : tables.Of schema childFields) {name : String}
    {listTable : ListTable} (h : tables.listTables.lookup name = some listTable) :
    name ∈ childFields ∧ getListTable schema tables.columns name = some listTable :=
  hof.isChild _ (mem_of_lookup h)

theorem notMem_childFields (hof : tables.Of schema childFields) {name : String}
    (h : tables.listTables.lookup name = none) : name ∉ childFields := by
  intro hname
  obtain ⟨listTable, hlist⟩ := hof.childTable name hname
  simpa using List.lookup_eq_none_iff.mp h _ hlist

end SchemaTables.Of

/-! ## Paths -/

theorem pathParts_name {name : String} (h : '.' ∉ name.toList) : pathParts name = [name] := by
  rw [pathParts, List.splitOn_eq_singleton h]
  simp

theorem pathParts_join {name field : String} (h : '.' ∉ name.toList) (hf : '.' ∉ field.toList) :
    pathParts (name ++ "." ++ field) = [name, field] := by
  have hlist : (name ++ "." ++ field).toList = name.toList ++ '.' :: field.toList := by simp
  rw [pathParts, hlist, List.splitOn_append_cons_self_of_not_mem h, List.splitOn_eq_singleton hf]
  simp

theorem Schema.notMem_dot {schema : Schema} {name : String} {a : FieldType}
    (h : schema.declared name = some a) : '.' ∉ name.toList :=
  schema.undotted _ (mem_of_lookup h)

theorem resolveField_declared {schema : Schema} {name : String} {a : FieldType}
    (h : schema.declared name = some a) : resolveField schema name = .ok (some a) := by
  have hlookup : schema.fields.lookup name = some a := h
  simp [resolveField, pathParts_name (schema.notMem_dot h), resolveParts, Schema.annotation,
    findNestedModel, hlookup]

theorem resolveField_nested {schema : Schema} {name field : String} {a b : FieldType}
    {model : Bool × Fields} (h : schema.declared name = some a)
    (hmodel : a.findNestedModel = some model) (hb : model.2.lookup field = some b)
    (hf : '.' ∉ field.toList) : resolveField schema (name ++ "." ++ field) = .ok (some b) := by
  have hlookup : schema.fields.lookup name = some a := h
  obtain ⟨allowsExtra, fields⟩ := model
  simp [resolveField, pathParts_join (schema.notMem_dot h) hf, resolveParts, Schema.annotation,
    findNestedModel, hlookup, hmodel, hb]

/-! ## Records -/

theorem isNullValue_iff {x : Value Scalar} : isNullValue x = true ↔ x = .null := by
  cases x <;> simp [isNullValue]

namespace StoredRows

variable {tables : SchemaTables} {schema : Schema} {childFields : List String}
  (stored : StoredRows tables) (row : Row)

theorem lookup_read (name : String) :
    ((tables.columns.filter fun column => tables.isRead row column.1).map
        fun column => (column.1, row column.1)).lookup name =
      if tables.isRead row name then
        (tables.columns.lookup name).map fun _ => row name
      else none := by
  rw [lookup_map (fun name _ => row name), lookup_filter (tables.isRead row)]
  split <;> rfl

theorem lookup_lists (name : String) :
    (tables.listTables.map fun list =>
        (list.1, Value.list (stored.elementsOf row list.1 list.2))).lookup name =
      (tables.listTables.lookup name).map fun listTable =>
        .list (stored.elementsOf row name listTable) :=
  lookup_map (fun name listTable => Value.list (stored.elementsOf row name listTable)) _ _

/-- **A column's field holds what the column holds**; one left out reads as the null it is. -/
theorem reached_column {name : String} (hid : name ≠ rowId)
    (hlist : tables.listTables.lookup name = none)
    (hcolumn : (tables.columns.lookup name).isSome = true) (hdot : '.' ∉ name.toList) :
    (stored.recordOf row).reached (pathParts name) = [row name] := by
  obtain ⟨type, htype⟩ := Option.isSome_iff_exists.mp hcolumn
  rw [pathParts_name hdot, recordOf, Value.reached_field]
  by_cases hread : tables.isRead row name = true
  · rw [Value.get_append_left (by rw [lookup_read, if_pos hread, htype]; rfl)]
  · rw [Value.get_append_right (by rw [lookup_read, if_neg hread]), Value.get, lookup_lists, hlist]
    have hnull : isNullValue (row name) = true := by
      simp only [SchemaTables.isRead, bne_iff_ne, ne_eq, Bool.and_eq_true, Bool.not_eq_true',
        Bool.and_eq_false_iff, not_and, not_or] at hread
      simpa using (hread (by simpa using hid)).2
    rw [isNullValue_iff.mp hnull]
    rfl

/-- **A list field holds the elements of the record's child rows.** -/
theorem reached_list (hof : tables.Of schema childFields) {name : String} {listTable : ListTable}
    (hlist : tables.listTables.lookup name = some listTable) (hdot : '.' ∉ name.toList) :
    (stored.recordOf row).reached (pathParts name) =
      [.list (stored.elementsOf row name listTable)] := by
  rw [pathParts_name hdot, recordOf, Value.reached_field]
  have hnone : ((tables.columns.filter fun column => tables.isRead row column.1).map
      fun column => (column.1, row column.1)).lookup name = none := by
    rw [lookup_read]
    by_cases hid : name = rowId
    · simp [SchemaTables.isRead, hid]
    · rw [hof.lookup_columns hid, if_pos (hof.lookup_listTables hlist).1]
      split <;> rfl
  rw [Value.get_append_right hnone, Value.get, lookup_lists, hlist]
  rfl

/-- **The elements of a record's list** are those of its child rows. -/
theorem mem_elementsOf {name : String} {listTable : ListTable} {v : Value Scalar} :
    v ∈ stored.elementsOf row name listTable ↔ ∃ child ∈ stored.childRows name,
      isChildOf (row tables.schema.storage.key) (child listTable.parentColumn) = true ∧
        getElement listTable child = v := by
  simp only [elementsOf, List.mem_map, List.mem_mergeSort, List.mem_filter, and_assoc]

end StoredRows

end Mss
