import Mss.KeptKeys

/-!
# Values added to lists

An update adds a value to a record's list by an insert, and a constraint that the insert violates is
taken to mean that the value is there already. It may be another one: an element cannot be NULL, and
a reference has to be to a stored record.

* `Lists`: an element is in the list of a record; **`lists_addElement`**: when it is, after one is
  added.
* `Translated`: the changes that an update's steps come to; `Kept`: what they make of an element.
* **`lists_writeChanges`**, `lists_foldlM`: the lists after an update of one record, and of many.
* **`added_iff`**: when a value that an update adds is in the list of each record updated.
-/

namespace Mss

open Storage

namespace SqlStore

section

variable {database : SqlDatabase} {references : References} {tables : SchemaTables}
  {schema : Schema} {childFields : List String} {isoformat : ℤ → Option ℤ → String}
  {field : String} {listTable : ListTable} {value : String} {type keyType : ColumnType}
  {s s' : SqlTables database references tables} {key : Value Scalar} {k a : Scalar}

/-! ## The elements of a record -/

/-- **An element is in the list of a record.** -/
def Lists (s : SqlTables database references tables) (field : String) (listTable : ListTable)
    (value : String) (k a : Scalar) : Prop :=
  ∃ child ∈ s.childRows field,
    child listTable.parentColumn = .scalar k ∧ child value = .scalar a

theorem mem_elementsOf_iff (hscalar : ScalarList tables field listTable value type keyType) {row : Row}
    (hk : row tables.schema.storage.key = .scalar k) :
    .scalar a ∈ s.stored.elementsOf row field listTable ↔ Lists s field listTable value k a := by
  have helement (child : Row) : getElement listTable child = child value := by
    rw [getElement, hscalar.noModel, hscalar.valueColumn]
    rfl
  have hparent (child : Row) : isChildOf (.scalar k) (child listTable.parentColumn) = true ↔
      child listTable.parentColumn = .scalar k := by
    refine ⟨fun h => (eq_of_isChildOf h).symm, fun h => ?_⟩
    rw [h, isChildOf_scalar, decide_eq_true rfl]
  unfold Lists
  simp only [StoredRows.mem_elementsOf, helement, hk, hparent]
  rfl

theorem elementRow_value (hscalar : ScalarList tables field listTable value type keyType)
    (dialect : SqlDialect) (element : PyValue) (place : ℤ) :
    (elementRow dialect listTable key element place) value = dialect.store type element := by
  have hnodup := hscalar.nodup
  simp only [List.nodup_cons, List.mem_cons, List.not_mem_nil, or_false, not_or] at hnodup
  obtain ⟨⟨hparent, -⟩, -⟩ := hnodup
  simp only [elementRow, hscalar.valueColumn, Option.getD_some, hscalar.typeOf]
  simp [rowOf, Value.get, List.lookup_cons, beq_false_of_ne (Ne.symm hparent)]

theorem lists_of_onlyList {name : String} (h : OnlyList name s s') (hname : name ≠ field) :
    Lists s' field listTable value k a ↔ Lists s field listTable value k a := by
  rw [Lists, h.others field (Ne.symm hname), Lists]

theorem lists_deleteChildren {test : Row → Bool}
    (h : deleteChildren s field listTable key test = .ok s') :
    Lists s' field listTable value k a ↔ ∃ child ∈ s.childRows field,
      child listTable.parentColumn = .scalar k ∧ child value = .scalar a ∧
        ¬ (key = .scalar k ∧ test child = true) := by
  rw [Lists, childRows_deleteChildren h]
  refine exists_congr fun child => ?_
  rw [List.mem_filter, and_assoc]
  refine and_congr_right fun _ => ?_
  by_cases hk : child listTable.parentColumn = .scalar k
  · have hkey : isChildOf key (child listTable.parentColumn) = true ↔ key = .scalar k := by
      rw [hk]
      refine ⟨eq_of_isChildOf, fun h => ?_⟩
      rw [h, isChildOf_scalar, decide_eq_true rfl]
    rw [Bool.not_eq_true', ← Bool.not_eq_true, Bool.and_eq_true, hkey]
    tauto
  · simp only [hk, false_and, and_false]

theorem lists_replaceList (hscalar : ScalarList tables field listTable value type keyType)
    {elements : List PyValue} (h : replaceList isoformat key s (field, elements) = .ok s') :
    Lists s' field listTable value k a ↔
      if key = .scalar k then ∃ element ∈ elements, database.dialect.store type element = .scalar a
      else Lists s field listTable value k a := by
  obtain ⟨lt, hlookup, h⟩ := bind_ok h
  obtain rfl : listTable = lt :=
    Option.some.inj (hscalar.lookup.symm.trans (listTableOf_ok hlookup))
  obtain ⟨s₁, hdelete, h⟩ := bind_ok h
  have herased : Lists s₁ field listTable value k a ↔
      key ≠ .scalar k ∧ Lists s field listTable value k a := by
    rw [lists_deleteChildren hdelete, Lists]
    simp only [and_true]
    constructor
    · rintro ⟨child, hchild, hk, ha, hkey⟩
      exact ⟨hkey, child, hchild, hk, ha⟩
    · rintro ⟨hkey, child, hchild, hk, ha⟩
      exact ⟨child, hchild, hk, ha, hkey⟩
  split_ifs at h with hempty
  · cases h
    obtain rfl : elements = [] := List.isEmpty_iff.mp hempty
    rw [herased]
    split_ifs with hkey <;> simp [hkey]
  · obtain ⟨children, hchildren, h⟩ := bind_ok h
    rw [getChildRows, hscalar.noModel] at hchildren
    cases hchildren
    have hrows : s'.childRows field = s₁.childRows field ++ elements.zipIdx.map fun element =>
        elementRow database.dialect listTable key element.1 element.2 := by
      rw [raw_insertChildren h]
      exact Function.update_self _ _ _
    have hsplit : Lists s' field listTable value k a ↔ Lists s₁ field listTable value k a ∨
        key = .scalar k ∧ ∃ element ∈ elements, database.dialect.store type element = .scalar a := by
      simp only [Lists, hrows, List.mem_append, or_and_right, exists_or]
      refine or_congr Iff.rfl ?_
      constructor
      · rintro ⟨child, hchild, hk, ha⟩
        obtain ⟨⟨element, place⟩, hmem, rfl⟩ := List.mem_map.mp hchild
        rw [(elementRow_columns hscalar _ _ _).1] at hk
        rw [elementRow_value hscalar] at ha
        exact ⟨hk, element, List.fst_mem_of_mem_zipIdx hmem, ha⟩
      · rintro ⟨hk, element, hmem, ha⟩
        obtain ⟨place, hplace⟩ := List.mem_iff_getElem?.mp hmem
        refine ⟨_, List.mem_map_of_mem (List.mk_mem_zipIdx_iff_getElem?.mpr hplace), ?_, ?_⟩
        · rw [(elementRow_columns hscalar _ _ _).1, hk]
        · rw [elementRow_value hscalar, ha]
    rw [hsplit, herased]
    split_ifs with hkey <;> simp [hkey]

theorem lists_removeElement (hscalar : ScalarList tables field listTable value type keyType)
    {element : PyValue} (h : removeElement key s (field, element) = .ok s') :
    Lists s' field listTable value k a ↔ Lists s field listTable value k a ∧
      ¬ (key = .scalar k ∧ database.dialect.store type element = .scalar a) := by
  obtain ⟨lt, hlookup, h⟩ := bind_ok h
  obtain rfl : listTable = lt :=
    Option.some.inj (hscalar.lookup.symm.trans (listTableOf_ok hlookup))
  rw [lists_deleteChildren h, Lists]
  simp only [hscalar.valueColumn, Option.getD_some, hscalar.typeOf]
  have htest (child : Row) (ha : child value = .scalar a) :
      isChildOf (child value) (database.dialect.store type element) = true ↔
        database.dialect.store type element = .scalar a := by
    rw [ha]
    refine ⟨fun h => (eq_of_isChildOf h).symm, fun h => ?_⟩
    rw [h, isChildOf_scalar, decide_eq_true rfl]
  constructor
  · rintro ⟨child, hchild, hk, ha, hnot⟩
    rw [htest child ha] at hnot
    exact ⟨⟨child, hchild, hk, ha⟩, hnot⟩
  · rintro ⟨⟨child, hchild, hk, ha⟩, hnot⟩
    refine ⟨child, hchild, hk, ha, ?_⟩
    rwa [htest child ha]

/-- **A list that an element is added to** holds it where the column takes it, and where a reference
is to a stored record. -/
theorem lists_addElement (hof : tables.Of schema childFields)
    (hscalar : ScalarList tables field listTable value type keyType)
    (htype : type ≠ .json) (hkeyType : keyType ≠ .json)
    (hpos : Positioned (s.childRows field) listTable.parentColumn)
    (hrow : ∃ row ∈ s.rows, row tables.schema.storage.key = .scalar k) {element : PyValue}
    (h : addElement key s (field, element) = .ok s') :
    Lists s' field listTable value k a ↔ Lists s field listTable value k a ∨
      (key = .scalar k ∧ database.dialect.store type element = .scalar a ∧
        IsStored references tables field a) := by
  constructor
  · intro hlists
    obtain ⟨lt, hlookup, hinsert | ⟨rfl, _⟩⟩ := addElement_cases h
    · obtain rfl : listTable = lt := Option.some.inj (hscalar.lookup.symm.trans hlookup)
      have hrows : s'.childRows field = s.childRows field ++
          [addedRow s key field listTable element] := by
        rw [raw_insertChildren hinsert]
        exact Function.update_self _ _ _
      obtain ⟨child, hchild, hk, ha⟩ := hlists
      have hstored : IsStored references tables field a := by
        intro href
        have hforeign := s'.foreignKeys.2.2 _ (mem_of_lookup hscalar.lookup) href child hchild value
          hscalar.valueColumn
        rw [ha] at hforeign
        exact hforeign
      rw [hrows, List.mem_append, List.mem_singleton] at hchild
      obtain hchild | rfl := hchild
      · exact .inl ⟨child, hchild, hk, ha⟩
      · rw [addedRow, (elementRow_columns hscalar _ _ _).1] at hk
        rw [addedRow, elementRow_value hscalar] at ha
        exact .inr ⟨hk, ha, hstored⟩
    · exact .inl hlists
  · rintro (hlists | ⟨rfl, helement, hstored⟩)
    · obtain ⟨child, hchild, hboth⟩ := hlists
      refine ⟨child, ?_, hboth⟩
      obtain ⟨_, _, hinsert | ⟨rfl, _⟩⟩ := addElement_cases h
      · rw [raw_insertChildren hinsert, childRows_withChildRows, Function.update_self]
        exact List.mem_append_left _ hchild
      · exact hchild
    · obtain ⟨t, hlist⟩ := exists_listIs hscalar htype hkeyType hpos
      have hadded := listIs_addElement hof hscalar hlist helement hrow hstored h
      obtain ⟨row, _, hk⟩ := hrow
      rw [← mem_elementsOf_iff hscalar hk, elementsOf_listIs hscalar hadded hk,
        ChildTable.elements_add, if_pos rfl]
      refine List.mem_map_of_mem ?_
      split_ifs with hin
      · exact hin
      · exact List.mem_append_right _ List.mem_cons_self

/-! ## The writes of an update -/

/-- **What the changes of an update make of an element**: a list that is replaced holds the elements
it is given, then those added, and none of those removed. -/
def Kept (dialect : SqlDialect) (references : References) (tables : SchemaTables) (field : String)
    (type : ColumnType) (changes : Changes) (a : Scalar) (had : Prop) : Prop :=
  ((changes.listReplacements.lookup field = none ∧ had ∨
      ∃ elements, changes.listReplacements.lookup field = some elements ∧
        ∃ element ∈ elements, dialect.store type element = .scalar a) ∨
    (∃ element, (field, element) ∈ changes.listAdditions ∧
      dialect.store type element = .scalar a) ∧ IsStored references tables field a) ∧
  ¬ ∃ element, (field, element) ∈ changes.listRemovals ∧ dialect.store type element = .scalar a

theorem kept_kept {dialect : SqlDialect} {changes : Changes} {had : Prop} :
    Kept dialect references tables field type changes a
      (Kept dialect references tables field type changes a had) ↔
        Kept dialect references tables field type changes a had := by
  unfold Kept
  cases changes.listReplacements.lookup field with
  | none =>
    simp only [true_and, reduceCtorEq, false_and, exists_false, or_false]
    tauto
  | some elements => simp only [reduceCtorEq, false_and, false_or]

theorem lists_replacements (hscalar : ScalarList tables field listTable value type keyType)
    {replacements : List (String × List PyValue)} (hnames : (replacements.map Prod.fst).Nodup)
    (h : replacements.foldlM (replaceList isoformat key) s = .ok s') :
    Lists s' field listTable value k a ↔
      ((key = .scalar k → replacements.lookup field = none) ∧ Lists s field listTable value k a ∨
        key = .scalar k ∧ ∃ elements, replacements.lookup field = some elements ∧
          ∃ element ∈ elements, database.dialect.store type element = .scalar a) := by
  induction replacements generalizing s with
  | nil =>
    cases h
    simp
  | cons replacement replacements ih =>
    rw [List.foldlM_cons] at h
    obtain ⟨s₁, hfirst, hrest⟩ := bind_ok h
    rw [List.map_cons, List.nodup_cons] at hnames
    obtain ⟨name, elements⟩ := replacement
    rw [ih hnames.2 hrest]
    by_cases hname : name = field
    · subst hname
      have hnone : replacements.lookup name = none := by
        refine List.lookup_eq_none_iff.mpr fun entry hentry => ?_
        rw [bne_iff_ne]
        rintro rfl
        exact hnames.1 (List.mem_map.mpr ⟨entry, hentry, rfl⟩)
      rw [lists_replaceList hscalar hfirst, hnone, List.lookup_cons_self]
      by_cases hkey : key = .scalar k <;> simp [hkey]
    · rw [lists_of_onlyList (onlyList_replaceList hfirst) hname, List.lookup_cons,
        beq_false_of_ne (Ne.symm hname)]

theorem lists_additions (hof : tables.Of schema childFields)
    (hscalar : ScalarList tables field listTable value type keyType)
    (htype : type ≠ .json) (hkeyType : keyType ≠ .json)
    (hpos : Positioned (s.childRows field) listTable.parentColumn)
    (hrow : ∃ row ∈ s.rows, row tables.schema.storage.key = .scalar k)
    {additions : List (String × PyValue)} (h : additions.foldlM (addElement key) s = .ok s') :
    Lists s' field listTable value k a ↔ Lists s field listTable value k a ∨
      (key = .scalar k ∧ (∃ element, (field, element) ∈ additions ∧
        database.dialect.store type element = .scalar a) ∧ IsStored references tables field a) := by
  induction additions generalizing s with
  | nil =>
    cases h
    simp
  | cons addition additions ih =>
    rw [List.foldlM_cons] at h
    obtain ⟨s₁, hfirst, hrest⟩ := bind_ok h
    have hrows := (onlyList_addElement hfirst).rows
    rw [ih (positioned_addElement hscalar hpos hfirst) (by rwa [hrows]) hrest]
    obtain ⟨name, element⟩ := addition
    by_cases hname : name = field
    · subst hname
      rw [lists_addElement hof hscalar htype hkeyType hpos hrow hfirst]
      simp only [List.mem_cons, Prod.mk.injEq, true_and, or_and_right, exists_or, exists_eq_left]
      tauto
    · rw [lists_of_onlyList (onlyList_addElement hfirst) hname]
      simp only [List.mem_cons, Prod.mk.injEq, Ne.symm hname, false_and, false_or]

theorem lists_removals (hscalar : ScalarList tables field listTable value type keyType)
    {removals : List (String × PyValue)} (h : removals.foldlM (removeElement key) s = .ok s') :
    Lists s' field listTable value k a ↔ Lists s field listTable value k a ∧
      ¬ (key = .scalar k ∧ ∃ element, (field, element) ∈ removals ∧
        database.dialect.store type element = .scalar a) := by
  induction removals generalizing s with
  | nil =>
    cases h
    simp
  | cons removal removals ih =>
    rw [List.foldlM_cons] at h
    obtain ⟨s₁, hfirst, hrest⟩ := bind_ok h
    rw [ih hrest]
    obtain ⟨name, element⟩ := removal
    by_cases hname : name = field
    · subst hname
      rw [lists_removeElement hscalar hfirst]
      simp only [List.mem_cons, Prod.mk.injEq, true_and, or_and_right, exists_or, exists_eq_left]
      rw [and_assoc, ← not_or, ← and_or_left]
    · rw [lists_of_onlyList (onlyList_removeElement hfirst) hname]
      simp only [List.mem_cons, Prod.mk.injEq, Ne.symm hname, false_and, false_or]

/-- **The list of a record after changes are written** to the record of a key. -/
theorem lists_writeChanges (hof : tables.Of schema childFields)
    (hscalar : ScalarList tables field listTable value type keyType)
    (htype : type ≠ .json) (hkeyType : keyType ≠ .json)
    (hpos : Positioned (s.childRows field) listTable.parentColumn)
    (hrow : ∃ row ∈ s.rows, row tables.schema.storage.key = .scalar k) {recordKey : PyValue}
    {changes : Changes} (hnames : (changes.listReplacements.map Prod.fst).Nodup)
    (h : writeChanges isoformat s recordKey changes = .ok s') :
    Lists s' field listTable value k a ↔
      if boundKey database.dialect tables recordKey = .scalar k then
        Kept database.dialect references tables field type changes a
          (Lists s field listTable value k a)
      else Lists s field listTable value k a := by
  obtain ⟨s₀, hvalues, hlists⟩ := writeChanges_cases h
  have hchildren := childRows_writeValues hvalues
  have hsame : Lists s₀ field listTable value k a ↔ Lists s field listTable value k a := by
    rw [Lists, hchildren, Lists]
  have hkeys : ∃ row ∈ s₀.rows, row tables.schema.storage.key = .scalar k := by
    have hmap := keys_writeChanges h
    rw [rows_writeLists hlists] at hmap
    obtain ⟨row, hrow, hk⟩ := hrow
    have hmem : (.scalar k : Value Scalar) ∈
        s₀.rows.map fun row => row tables.schema.storage.key := by
      rw [hmap, ← hk]
      exact List.mem_map_of_mem hrow
    obtain ⟨row', hrow', hk'⟩ := List.mem_map.mp hmem
    exact ⟨row', hrow', hk'⟩
  obtain ⟨s₁, hreplacements, hrest⟩ := bind_ok hlists
  obtain ⟨s₂, hadditions, hremovals⟩ := bind_ok hrest
  have hpos₁ : Positioned (s₁.childRows field) listTable.parentColumn :=
    foldlM_invariant (fun _ _ _ hstep hp => positioned_replaceList hscalar hp hstep)
      hreplacements (hchildren ▸ hpos)
  have hrows₁ : s₁.rows = s₀.rows :=
    foldlM_invariant (p := fun t => t.rows = s₀.rows)
      (fun _ _ _ hstep hp => (onlyList_replaceList hstep).rows.trans hp) hreplacements rfl
  rw [lists_removals hscalar hremovals,
    lists_additions hof hscalar htype hkeyType hpos₁ (by rwa [hrows₁]) hadditions,
    lists_replacements hscalar hnames hreplacements, hsame]
  unfold Kept
  split_ifs with hkey
  · simp only [hkey, true_and, forall_const]
  · simp only [hkey, false_and, false_imp_iff, true_and, or_false, not_false_eq_true, and_true]

/-! ## The steps of an update -/

theorem nodup_assign {A : Type} {entries : List (String × A)} (hnames : (entries.map Prod.fst).Nodup)
    (name : String) (b : A) : ((assign name b entries).map Prod.fst).Nodup := by
  unfold assign
  split_ifs with hsome
  · have hsame : (entries.map fun entry => if entry.1 = name then (name, b) else entry).map
        Prod.fst = entries.map Prod.fst := by
      rw [List.map_map]
      refine List.map_congr_left fun entry _ => ?_
      by_cases hname : entry.1 = name <;> simp [hname]
    rwa [hsame]
  · rw [List.map_append, List.nodup_append]
    refine ⟨hnames, List.nodup_singleton _, ?_⟩
    rintro x hx _ hy rfl
    obtain ⟨entry, hentry, rfl⟩ := List.mem_map.mp hx
    cases List.mem_singleton.mp hy
    exact hsome (by rw [lookup_of_mem hnames hentry]; rfl)

/-- **The changes that some steps come to**, as far as they are of a list. -/
structure Translated (field : String) (steps : List (UpdateOperator × (String × PyValue)))
    (changes : Changes) : Prop where
  names : (changes.listReplacements.map Prod.fst).Nodup
  replaced : ∀ v, (.set, field, v) ∈ steps → (changes.listReplacements.lookup field).isSome
  replacement : ∀ elements, changes.listReplacements.lookup field = some elements →
    ∃ v items, (.set, field, v) ∈ steps ∧ iterate v = .ok items ∧
      elements = items.map convertToColumnValue
  additions : ∀ element, (field, element) ∈ changes.listAdditions ↔
    ∃ v, (.addToSet, field, v) ∈ steps ∧ element = convertToColumnValue v
  removals : ∀ element, (field, element) ∈ changes.listRemovals ↔
    ∃ v, (.pull, field, v) ∈ steps ∧ element = convertToColumnValue v

namespace Translated

variable {steps more : List (UpdateOperator × (String × PyValue))} {changes changes' : Changes}

theorem nil (field : String) : Translated field [] {} :=
  ⟨List.nodup_nil, by simp, by simp, by simp, by simp⟩

theorem step (hscalar : ScalarList tables field listTable value type keyType)
    (ht : Translated field steps changes) {operator : UpdateOperator} {change : String × PyValue}
    (h : translateChange isoformat tables operator changes change = .ok changes') :
    Translated field (steps ++ [(operator, change)]) changes' := by
  have hmore (x : UpdateOperator × (String × PyValue)) :
      x ∈ steps ++ [(operator, change)] ↔ x ∈ steps ∨ x = (operator, change) := by
    rw [List.mem_append, List.mem_singleton]
  have hother (o : UpdateOperator) (ho : o ≠ operator) (v : PyValue) :
      (o, field, v) ∈ steps ++ [(operator, change)] ↔ (o, field, v) ∈ steps := by
    rw [hmore, or_iff_left]
    exact fun heq => ho (congrArg Prod.fst heq)
  have hone (v : PyValue) : (operator, field, v) ∈ steps ++ [(operator, change)] ↔
      (operator, field, v) ∈ steps ∨ change = (field, v) := by
    rw [hmore, Prod.mk.injEq, and_iff_right rfl, eq_comm (a := (field, v))]
  obtain ⟨name, v⟩ := change
  cases operator with
  | set =>
    unfold translateChange at h
    dsimp only at h
    split_ifs at h with hlist
    -- a list is replaced whole, and a field of the record is assigned
    · obtain ⟨items, hitems, h⟩ := bind_ok h
      cases h
      refine ⟨nodup_assign ht.names _ _, fun w hw => ?_, fun elements helements => ?_,
        by simpa only [hother .addToSet (by decide)] using ht.additions,
        by simpa only [hother .pull (by decide)] using ht.removals⟩
      · rw [lookup_assign]
        split_ifs with hname
        · rfl
        · obtain hw | hw := (hone w).mp hw
          · exact ht.replaced w hw
          · exact absurd (congrArg Prod.fst hw).symm hname
      · rw [lookup_assign] at helements
        split_ifs at helements with hname
        · cases helements
          exact ⟨v, items, (hone v).mpr (.inr (by rw [hname])), hitems, rfl⟩
        · obtain ⟨w, items', hw, hrest⟩ := ht.replacement elements helements
          exact ⟨w, items', (hone w).mpr (.inl hw), hrest⟩
    · obtain ⟨written, _, h⟩ := bind_ok h
      cases h
      have hname : name ≠ field := by
        rintro rfl
        exact hlist (by rw [hscalar.lookup]; rfl)
      have hset (w : PyValue) : (.set, field, w) ∈ steps ++ [(.set, name, v)] ↔
          (.set, field, w) ∈ steps := by
        rw [hone, or_iff_left]
        exact fun heq => hname (congrArg Prod.fst heq)
      refine ⟨ht.names, ?_, ?_, ?_, ?_⟩
      · simpa only [hset] using ht.replaced
      · simpa only [hset] using ht.replacement
      · simpa only [hother .addToSet (by decide)] using ht.additions
      · simpa only [hother .pull (by decide)] using ht.removals
  | setOnInsert =>
    -- what is set on insert is kept apart from the lists
    obtain ⟨written, _, h⟩ := bind_ok h
    cases h
    refine ⟨ht.names, ?_, ?_, ?_, ?_⟩
    · simpa only [hother .set (by decide)] using ht.replaced
    · simpa only [hother .set (by decide)] using ht.replacement
    · simpa only [hother .addToSet (by decide)] using ht.additions
    · simpa only [hother .pull (by decide)] using ht.removals
  | inc =>
    obtain ⟨column, _, h⟩ := bind_ok h
    cases h
    refine ⟨ht.names, ?_, ?_, ?_, ?_⟩
    · simpa only [hother .set (by decide)] using ht.replaced
    · simpa only [hother .set (by decide)] using ht.replacement
    · simpa only [hother .addToSet (by decide)] using ht.additions
    · simpa only [hother .pull (by decide)] using ht.removals
  | addToSet =>
    obtain ⟨_, _, h⟩ := bind_ok h
    cases h
    refine ⟨ht.names, ?_, ?_, fun element => ?_, ?_⟩
    · simpa only [hother .set (by decide)] using ht.replaced
    · simpa only [hother .set (by decide)] using ht.replacement
    · simp only [List.mem_append, List.mem_singleton, hone, ht.additions, or_and_right, exists_or,
        Prod.mk.injEq]
      refine or_congr Iff.rfl ⟨?_, ?_⟩
      · rintro ⟨rfl, rfl⟩
        exact ⟨v, ⟨rfl, rfl⟩, rfl⟩
      · rintro ⟨w, ⟨rfl, rfl⟩, rfl⟩
        exact ⟨rfl, rfl⟩
    · simpa only [hother .pull (by decide)] using ht.removals
  | pull =>
    obtain ⟨_, _, h⟩ := bind_ok h
    cases h
    refine ⟨ht.names, ?_, ?_, ?_, fun element => ?_⟩
    · simpa only [hother .set (by decide)] using ht.replaced
    · simpa only [hother .set (by decide)] using ht.replacement
    · simpa only [hother .addToSet (by decide)] using ht.additions
    · simp only [List.mem_append, List.mem_singleton, hone, ht.removals, or_and_right, exists_or,
        Prod.mk.injEq]
      refine or_congr Iff.rfl ⟨?_, ?_⟩
      · rintro ⟨rfl, rfl⟩
        exact ⟨v, ⟨rfl, rfl⟩, rfl⟩
      · rintro ⟨w, ⟨rfl, rfl⟩, rfl⟩
        exact ⟨rfl, rfl⟩

end Translated

theorem translated_translateUpdate (hscalar : ScalarList tables field listTable value type keyType)
    {update : Update} {changes : Changes}
    (h : translateUpdate isoformat tables update = .ok changes) :
    Translated field (stepsOf update) changes := by
  have hfold (steps more : List (UpdateOperator × (String × PyValue))) (changes₀ : Changes)
      (ht : Translated field steps changes₀)
      (hrun : more.foldlM (fun changes step =>
        translateChange isoformat tables step.1 changes step.2) changes₀ = .ok changes) :
      Translated field (steps ++ more) changes := by
    induction more generalizing steps changes₀ with
    | nil =>
      cases hrun
      rwa [List.append_nil]
    | cons step more ih =>
      rw [List.foldlM_cons] at hrun
      obtain ⟨changes₁, hfirst, hrest⟩ := bind_ok hrun
      have hnext := ih (steps ++ [step]) changes₁ (ht.step hscalar hfirst) hrest
      rwa [List.append_assoc] at hnext
  rw [translateUpdate_eq] at h
  exact hfold [] _ _ (.nil field) h

end

end SqlStore

/-! ## A value that is added -/

/-- What an operator of an update gives a field. -/
def valueOf (update : Update) (operator field : String) : Option PyValue :=
  (changesOf update operator).lookup field

/-- Whether a column of a database holds a value as this scalar. -/
def IsHeldAs (dialect : SqlDialect) (type : ColumnType) (v : PyValue) (a : Scalar) : Prop :=
  dialect.store type (convertToColumnValue v) = .scalar a

namespace SqlStore

/-- **When an update adds a value to a list** of these elements: the value is a scalar, which the
column holds as it is and which is of a stored record where it is a reference, or it is there
already; and the same update does not remove it. -/
def Adds (dialect : SqlDialect) (references : References) (tables : SchemaTables) (field : String)
    (type : ColumnType) (update : Update) (v : PyValue) (elements : List (Value Scalar)) : Prop :=
  ∃ a, elementOf type v = some a ∧
    (IsHeldAs dialect type v a ∧ IsStored references tables field a ∨
      match valueOf update "$set" field with
      | none => .scalar a ∈ elements
      | some w => ∃ items, iterate w = .ok items ∧ ∃ item ∈ items, IsHeldAs dialect type item a) ∧
    ∀ w, valueOf update "$pull" field = some w → ¬ IsHeldAs dialect type w a

section

variable {database : SqlDatabase} {references : References} {tables : SchemaTables}
  {schema : Schema} {childFields : List String} {isoformat : ℤ → Option ℤ → String}
  {field : String} {listTable : ListTable} {value : String} {type keyType : ColumnType}
  {s s' : SqlTables database references tables} {k a : Scalar} {update : Update}

theorem mem_stepsOf_iff (hdict : update.IsDict) {name : String} {operator : UpdateOperator}
    (hname : UpdateOperator.ofName name = some operator) {v : PyValue} :
    (operator, field, v) ∈ stepsOf update ↔ valueOf update name field = some v := by
  rw [mem_stepsOf, valueOf, lookup_changesOf_iff hdict]
  constructor
  · rintro ⟨⟨other, changes⟩, hentry, hother, hchange⟩
    cases ofName_inj hother hname
    exact ⟨changes, hentry, hchange⟩
  · rintro ⟨changes, hentry, hchange⟩
    exact ⟨_, hentry, hname, hchange⟩

theorem kept_iff {dialect : SqlDialect} {changes : Changes} (hdict : update.IsDict)
    (ht : Translated field (stepsOf update) changes) {v : PyValue}
    (hadd : valueOf update "$addToSet" field = some v) (had : Prop) :
    Kept dialect references tables field type changes a had ↔
      (IsHeldAs dialect type v a ∧ IsStored references tables field a ∨
        match valueOf update "$set" field with
        | none => had
        | some w => ∃ items, iterate w = .ok items ∧ ∃ item ∈ items, IsHeldAs dialect type item a) ∧
      ∀ w, valueOf update "$pull" field = some w → ¬ IsHeldAs dialect type w a := by
  have hset {w : PyValue} : (.set, field, w) ∈ stepsOf update ↔
      valueOf update "$set" field = some w := mem_stepsOf_iff hdict (by decide)
  have haddToSet {w : PyValue} : (.addToSet, field, w) ∈ stepsOf update ↔
      valueOf update "$addToSet" field = some w := mem_stepsOf_iff hdict (by decide)
  have hpull {w : PyValue} : (.pull, field, w) ∈ stepsOf update ↔
      valueOf update "$pull" field = some w := mem_stepsOf_iff hdict (by decide)
  have hadditions : (∃ element, (field, element) ∈ changes.listAdditions ∧
      dialect.store type element = .scalar a) ↔ IsHeldAs dialect type v a := by
    simp only [ht.additions, haddToSet, hadd, Option.some.injEq, exists_eq_left', exists_eq_left]
    rfl
  have hremovals : (¬ ∃ element, (field, element) ∈ changes.listRemovals ∧
      dialect.store type element = .scalar a) ↔
        ∀ w, valueOf update "$pull" field = some w → ¬ IsHeldAs dialect type w a := by
    simp only [ht.removals, hpull, not_exists, not_and]
    constructor
    · intro h w hw
      exact h _ ⟨w, hw, rfl⟩
    · rintro h _ ⟨w, hw, rfl⟩
      exact h w hw
  unfold Kept
  rw [hadditions, hremovals]
  refine and_congr_left fun _ => ?_
  rw [or_comm]
  refine or_congr_right ?_
  cases hlookup : changes.listReplacements.lookup field with
  | none =>
    have hnone : valueOf update "$set" field = none := by
      rw [← Option.not_isSome_iff_eq_none]
      intro hsome
      obtain ⟨w, hw⟩ := Option.isSome_iff_exists.mp hsome
      have := ht.replaced w (hset.mpr hw)
      rw [hlookup] at this
      cases this
    rw [hnone]
    simp
  | some elements =>
    obtain ⟨w, items, hw, hitems, rfl⟩ := ht.replacement elements hlookup
    rw [hset.mp hw]
    simp only [reduceCtorEq, false_and, false_or, Option.some.injEq, exists_eq_left',
      List.mem_map, exists_exists_and_eq_and, hitems, Except.ok.injEq]
    rfl

theorem null_notMem_elementsOf (hscalar : ScalarList tables field listTable value type keyType)
    (row : Row) : .null ∉ s.stored.elementsOf row field listTable := by
  intro hmem
  rw [StoredRows.mem_elementsOf] at hmem
  obtain ⟨child, hin, -, hnull⟩ := hmem
  rw [getElement, hscalar.noModel, hscalar.valueColumn] at hnull
  have hnotNull := s.notNull.2 _ (mem_of_lookup hscalar.lookup) child hin value
    (by simp [hscalar.primaryKey])
  change child value = .null at hnull
  rw [hnull] at hnotNull
  cases hnotNull

/-- **The lists after changes are written to records one after another.** -/
theorem lists_foldlM (hof : tables.Of schema childFields)
    (hscalar : ScalarList tables field listTable value type keyType)
    (htype : type ≠ .json) (hkeyType : keyType ≠ .json)
    (hpos : Positioned (s.childRows field) listTable.parentColumn)
    (hrow : ∃ row ∈ s.rows, row tables.schema.storage.key = .scalar k) {changes : Changes}
    (hnames : (changes.listReplacements.map Prod.fst).Nodup) {keys : List PyValue}
    (h : keys.foldlM (fun s key => writeChanges isoformat s key changes) s = .ok s') :
    (∃ row ∈ s'.rows, row tables.schema.storage.key = .scalar k) ∧
      (Lists s' field listTable value k a ↔
        if ∃ key ∈ keys, boundKey database.dialect tables key = .scalar k then
          Kept database.dialect references tables field type changes a
            (Lists s field listTable value k a)
        else Lists s field listTable value k a) := by
  induction keys generalizing s with
  | nil =>
    cases h
    exact ⟨hrow, by simp⟩
  | cons key keys ih =>
    rw [List.foldlM_cons] at h
    obtain ⟨s₁, hfirst, hrest⟩ := bind_ok h
    have hkeys := keys_writeChanges hfirst
    have hrow₁ : ∃ row ∈ s₁.rows, row tables.schema.storage.key = .scalar k := by
      obtain ⟨row, hrow, hk⟩ := hrow
      have hmem : (.scalar k : Value Scalar) ∈
          s₁.rows.map fun row => row tables.schema.storage.key := by
        rw [hkeys, ← hk]
        exact List.mem_map_of_mem hrow
      obtain ⟨row', hrow', hk'⟩ := List.mem_map.mp hmem
      exact ⟨row', hrow', hk'⟩
    have hone := lists_writeChanges (a := a) hof hscalar htype hkeyType hpos hrow hnames hfirst
    obtain ⟨hrow', hlists⟩ := ih (positioned_writeChanges hscalar hpos hfirst) hrow₁ hrest
    refine ⟨hrow', ?_⟩
    rw [hlists, hone]
    simp only [List.mem_cons, or_and_right, exists_or, exists_eq_left]
    by_cases hkey : boundKey database.dialect tables key = .scalar k
    · simp only [hkey, true_or, if_true, kept_kept, ite_self]
    · simp only [hkey, false_or, if_false]

end

/-! ## Updates of records -/

section

variable (engine : SqlEngine) {tables : SchemaTables} (now : ℕ → ℤ) (newId : ℕ → String)

/-- **The keys of the stored records that an update writes**: those matched, or the one that took the
place of the record that an upsert was to create. -/
def WritesTo (s : engine.Tables tables) (key : PyValue) : Write → Prop
  | .updateOne filter update shouldUpsert _ =>
    findFirstKey engine (now 0) filter s = .ok (some key) ∨
      shouldUpsert = true ∧ findFirstKey engine (now 0) filter s = .ok none ∧
        findFirstKey engine (now 1) filter s = .ok (some key) ∧ ∃ record violation,
          engine.construct (withUpsertId tables.schema (newId 0) (upsertedValues filter update)) =
            .ok record ∧
          insertRecord engine.isoformat s (newId 1) record = .error (.integrity violation)
  | .updateMany filter _ => ∃ records, findToWrite engine (now 0) filter none s = .ok records ∧
      ∃ record ∈ records, keyOf tables record = key
  | _ => False

variable {engine now newId} {s s' : engine.Tables tables} {filter : Filter} {update : Update}

theorem writes_updateOne {shouldUpsert : Bool} {returning : Returning} {answer : Option Record}
    (h : updateOneBody engine now newId filter update shouldUpsert returning s = .ok (answer, s'))
    {key : PyValue}
    (hkey : WritesTo engine now newId s key (.updateOne filter update shouldUpsert returning)) :
    ∃ changes, translateUpdate engine.isoformat tables update = .ok changes ∧
      writeChanges engine.isoformat s key changes = .ok s' := by
  obtain ⟨changes, htranslate, h⟩ := bind_ok h
  have htranslate := mapError_ok htranslate
  obtain ⟨found, hfound, h⟩ := bind_ok h
  refine ⟨changes, htranslate, ?_⟩
  obtain hfirst | ⟨hupsert, hnone, hsecond, record, violation, hconstruct, hinsert⟩ := hkey
  · cases hfound.symm.trans hfirst
    obtain ⟨before, _, h⟩ := bind_ok h
    obtain ⟨s₁, hwrite, h⟩ := bind_ok h
    have hstate : s₁ = s' := by
      cases returning with
      | before =>
        cases h
        rfl
      | after =>
        obtain ⟨_, _, h⟩ := bind_ok h
        cases h
        rfl
    rw [← hstate]
    exact hwrite
  · cases hfound.symm.trans hnone
    rw [hupsert] at h
    obtain ⟨⟨key', s₁⟩, hupserted, h⟩ := bind_ok h
    have hstate : s₁ = s' := by
      cases returning with
      | before =>
        cases h
        rfl
      | after =>
        obtain ⟨_, _, h⟩ := bind_ok h
        cases h
        rfl
    unfold insertUpsertedRecord at hupserted
    dsimp only at hupserted
    rw [hconstruct] at hupserted
    obtain ⟨_, hrecord, hupserted⟩ := bind_ok hupserted
    cases hrecord
    rw [hinsert] at hupserted
    dsimp only at hupserted
    rw [hsecond] at hupserted
    obtain ⟨_, hrecord, hupserted⟩ := bind_ok hupserted
    cases hrecord
    obtain ⟨changes', hchanges, hupserted⟩ := bind_ok hupserted
    cases htranslate.symm.trans (mapError_ok hchanges)
    obtain ⟨s₂, hwrite, hupserted⟩ := bind_ok hupserted
    cases hupserted
    rw [← hstate]
    exact hwrite

/-- **What an update writes**: the same changes to the records of some keys, one after another. -/
theorem writes_update {write : Write} (hwrite : write.update = some (filter, update))
    {answer : Answer} (h : (SqlStore.write engine now newId write s).result = .ok answer)
    {key : PyValue} (hkey : WritesTo engine now newId s key write) :
    ∃ changes, ∃ keys : List PyValue,
      translateUpdate engine.isoformat tables update = .ok changes ∧ key ∈ keys ∧
      keys.foldlM (fun s key => writeChanges engine.isoformat s key changes) s =
        .ok (SqlStore.write engine now newId write s).state := by
  cases write with
  | insert | insertMany | deleteOne => cases hwrite
  | updateOne filter update shouldUpsert returning =>
    cases hwrite
    rw [show SqlStore.write engine now newId (.updateOne filter update shouldUpsert returning) s =
      _ from inTransaction_eq] at h ⊢
    cases hbody : updateOneBody engine now newId filter update shouldUpsert returning s with
    | error e =>
      rw [hbody] at h
      cases h
    | ok r =>
      obtain ⟨changes, htranslate, hwritten⟩ := writes_updateOne hbody hkey
      refine ⟨changes, [key], htranslate, List.mem_singleton_self _, ?_⟩
      rw [List.foldlM_cons, hwritten]
      rfl
  | updateMany filter update =>
    cases hwrite
    rw [show SqlStore.write engine now newId (.updateMany filter update) s =
      _ from inTransaction_eq] at h ⊢
    cases hbody : updateManyBody engine now filter update s with
    | error e =>
      rw [hbody] at h
      cases h
    | ok r =>
      obtain ⟨changes, htranslate, hrest⟩ := bind_ok hbody
      obtain ⟨before, hbefore, hrest⟩ := bind_ok hrest
      obtain ⟨s₁, hwritten, hrest⟩ := bind_ok hrest
      obtain ⟨after, _, hrest⟩ := bind_ok hrest
      cases hrest
      obtain ⟨records, hrecords, record, hrecord, rfl⟩ := hkey
      cases hbefore.symm.trans hrecords
      refine ⟨changes, before.map (keyOf tables), mapError_ok htranslate,
        List.mem_map_of_mem hrecord, ?_⟩
      rw [List.foldlM_map]
      exact hwritten

/-- Whether the record of a row lists a value, now. -/
def HoldsValue (s : engine.Tables tables) (row : Row) (field : String) (listTable : ListTable)
    (v : PyValue) : Prop :=
  ∃ row' ∈ s.rows, row' tables.schema.storage.key = row tables.schema.storage.key ∧
    readElement (elementOf listTable.elementType v) ∈ s.stored.elementsOf row' field listTable

end

end SqlStore

open SqlStore in
/-- **A value that an update adds to a list.** Where the update raises, it changes nothing. Where it
does not, the list of each record that it wrote holds the value if and only if the database holds the
value as it is and, in a list of references, as that of a stored record, or it was there, or set,
already; and the update does not remove it. -/
theorem added_iff {engine : SqlEngine} {tables : SchemaTables} {now : ℕ → ℤ} {newId : ℕ → String}
    (htables : getTablesOf tables.schema = some tables) (hid : tables.schema.storage.key ≠ rowId)
    (hkeyType : tables.columns.lookup tables.schema.storage.key ≠ some .json) {field : String}
    {listTable : ListTable} (hlookup : tables.listTables.lookup field = some listTable)
    (hmodel : listTable.elementModel = none) (htype : listTable.elementType ≠ .json)
    {s : engine.Tables tables} (hreached : Reached engine.isoformat s) {write : Write}
    {filter : Filter} {update : Update} (hwrite : write.update = some (filter, update))
    (hdict : update.IsDict) {v : PyValue} (hadd : valueOf update "$addToSet" field = some v) :
    let outcome := Database.write tables.schema (SqlStore.write engine now newId) write s
    (∀ e, outcome.result = .error e → outcome.state = s) ∧
    ∀ answer, outcome.result = .ok answer → ∀ row ∈ s.rows, ∀ key,
      WritesTo engine now newId s key write →
      boundKey engine.database.dialect tables key = row tables.schema.storage.key →
      (HoldsValue outcome.state row field listTable v ↔
        Adds engine.database.dialect engine.references tables field listTable.elementType update v
          (s.stored.elementsOf row field listTable)) := by
  intro outcome
  have hunchanged : outcome.Unchanged (fun _ => True) s :=
    unchanged_database fun _ => SqlStore.unchanged_write now newId write s
  -- a write that raises is rolled back
  refine ⟨fun e he => hunchanged e he trivial, ?_⟩
  cases hcheck : Database.check tables.schema write with
  | error e =>
    have houtcome : outcome = .refuse (.find (.refused e)) s := by
      simp only [outcome, Database.write, hcheck]
    rw [houtcome]
    intro _ h
    cases h
  | ok =>
    have houtcome : outcome = SqlStore.write engine now newId write s := by
      simp only [outcome, Database.write, hcheck]
    rw [houtcome]
    intro answer hok row hrow key hkey hbound
    obtain ⟨childFields, hof⟩ := getTablesOf_spec htables
    obtain ⟨_, element, value, keyType, -, -, hcolumn, hscalar⟩ :=
      scalarList_of_lookup hof hlookup hmodel
    have helementType : getColumnType element = listTable.elementType := by
      rw [ListTable.elementType, hscalar.valueColumn]
      exact hscalar.typeOf.symm
    rw [helementType] at hscalar
    have hkeyType' : keyType ≠ .json := fun h => hkeyType (h ▸ hcolumn)
    obtain ⟨k, hk⟩ : ∃ k, row tables.schema.storage.key = .scalar k :=
      ⟨_, eq_scalarOf (s.typed.1 row hrow _ (mem_of_lookup hcolumn)).1 hkeyType'
        (s.notNull.1 row hrow)⟩
    obtain ⟨changes, keys, htranslate, hmem, hrun⟩ := writes_update hwrite hok hkey
    have htranslated := translated_translateUpdate hscalar htranslate
    have hpos := positioned_of_reached hof hscalar hcolumn hkeyType' hid hreached
    rw [hk] at hbound
    -- a change of the list comes to its steps, one element after another
    have hfold (a : Scalar) := lists_foldlM (a := a) hof hscalar htype hkeyType' hpos
      ⟨row, hrow, hk⟩ htranslated.names hrun
    unfold HoldsValue Adds
    cases helement : elementOf listTable.elementType v with
    | none =>
      simp only [readElement, null_notMem_elementsOf hscalar, and_false, exists_false,
        reduceCtorEq, false_and]
    | some a =>
      simp only [readElement, Option.some.injEq, exists_eq_left']
      obtain ⟨⟨row', hrow', hk'⟩, hlists⟩ := hfold a
      rw [if_pos ⟨key, hmem, hbound⟩, kept_iff hdict htranslated hadd] at hlists
      rw [mem_elementsOf_iff hscalar hk, ← hlists]
      constructor
      · rintro ⟨other, _, hother, hin⟩
        exact (mem_elementsOf_iff hscalar (hother.trans hk)).mp hin
      · intro hin
        exact ⟨row', hrow', hk'.trans hk.symm, (mem_elementsOf_iff hscalar hk').mpr hin⟩

/-! ## The roles of a user -/

/-- A schema of users with roles, which are stored in a schema of their own. -/
def roledSchema : Schema where
  name := "User"
  fields := [("email", .scalar .str), ("roles", .generic .list [.scalar .str])]
  allowsExtra := false
  storage := { table := "auth_users", key := "email", references := ["roles"] }
  undotted := by decide
  expiresAt := by decide

/-- The tables of the users. -/
def roledTables : SchemaTables := (getTablesOf roledSchema).get (by decide +kernel)

/-- The table of their roles. -/
def roleTable : ListTable := (roledTables.listTables.lookup "roles").get (by decide +kernel)

/-- SQLite, where one role is stored. -/
def roledEngine : SqlEngine where
  database := sqlite
  references := fun _ v =>
    match v with
    | .scalar (.text role) => role == "admin"
    | _ => false
  text := byCodePoint
  plan := fun order => Sorting.byMerging (compareRows byCodePoint order)
  lower := String.toLower
  isoformat := fun _ _ => ""
  validate := fun v =>
    match v with
    | .document fields => .ok [("email", readKey (Value.get "email" fields))]
    | _ => .ok []
  construct := .ok

/-- The store after a user is inserted, with no roles. -/
def roledInsert : Except WriteError (roledEngine.Tables roledTables) :=
  SqlStore.insertRecord roledEngine.isoformat SqlStore.empty ""
    [("email", .scalar (.str "ann")), ("roles", .sequence .list [])]

/-- The tables after it. -/
def roledStore : roledEngine.Tables roledTables := roledInsert.toOption.get (by decide +kernel)

/-- A role is added to the user. -/
def addRole (role : PyValue) : Write :=
  .updateOne [.field "email" (.scalar (.str "ann"))] [("$addToSet", [("roles", role)])] false .before

/-- The outcome of that. -/
def addedRole (role : PyValue) : Outcome CallError (roledEngine.Tables roledTables) Answer :=
  Database.write roledTables.schema
    (SqlStore.write roledEngine (fun _ => 0) (fun _ => "")) (addRole role) roledStore

/-- Whether a write is answered. -/
def isAnswered (result : Except CallError Answer) : Bool :=
  match result with
  | .ok _ => true
  | .error _ => false

theorem exists_answer {result : Except CallError Answer} (h : isAnswered result = true) :
    ∃ answer, result = .ok answer := by
  cases result with
  | ok answer => exact ⟨answer, rfl⟩
  | error e => cases h

/-- Whether the user that the update finds is this one. -/
def isUserFound : Bool :=
  match SqlStore.findFirstKey roledEngine 0 [.field "email" (.scalar (.str "ann"))] roledStore with
  | .ok (some key) =>
    isChildOf (boundKey .sqlite roledTables key) (.scalar (.text "ann"))
  | _ => false

theorem exists_userFound : ∃ key,
    SqlStore.findFirstKey roledEngine 0 [.field "email" (.scalar (.str "ann"))] roledStore =
      .ok (some key) ∧ boundKey .sqlite roledTables key = .scalar (.text "ann") := by
  have hfound : isUserFound = true := by decide +kernel
  unfold isUserFound at hfound
  split at hfound
  · rename_i key hkey
    exact ⟨key, hkey, eq_of_isChildOf hfound⟩
  · cases hfound

theorem roledTables_schema : roledTables.schema = roledSchema := by
  have htables : getTablesOf roledSchema = some roledTables := (Option.some_get _).symm
  obtain ⟨_, hof⟩ := getTablesOf_spec htables
  exact hof.schema_eq

theorem reached_roledStore : SqlStore.Reached roledEngine.isoformat roledStore :=
  .insert .empty (eq_ok_of_toOption (by decide +kernel))

theorem exists_userRow : ∃ row ∈ roledStore.rows, row "email" = .scalar (.text "ann") := by
  have hany : (roledStore.rows.any fun row =>
      isChildOf (row "email") (.scalar (.text "ann"))) = true := by decide +kernel
  obtain ⟨row, hrow, hk⟩ := List.any_eq_true.mp hany
  exact ⟨row, hrow, eq_of_isChildOf hk⟩

/-- A role that is stored is added. -/
theorem added_iff_admin : ∃ row ∈ roledStore.rows,
    SqlStore.HoldsValue (addedRole (.scalar (.str "admin"))).state row "roles" roleTable
      (.scalar (.str "admin")) := by
  obtain ⟨row, hrow, hk⟩ := exists_userRow
  refine ⟨row, hrow, ?_⟩
  obtain ⟨key, hfound, hkey⟩ := exists_userFound
  obtain ⟨answer, hanswer⟩ : ∃ answer,
      (addedRole (.scalar (.str "admin"))).result = .ok answer :=
    exists_answer (by decide +kernel)
  have htables : getTablesOf roledTables.schema = some roledTables := by
    rw [roledTables_schema]
    exact (Option.some_get _).symm
  have hname : roledTables.schema.storage.key = "email" := by rw [roledTables_schema]; rfl
  obtain ⟨-, hadded⟩ := @added_iff roledEngine roledTables (fun _ => 0) (fun _ => "") htables
    (by rw [hname]; decide) (by rw [hname]; decide +kernel) "roles" roleTable
    (Option.some_get _).symm (by decide +kernel) (by decide +kernel) roledStore reached_roledStore
    (addRole (.scalar (.str "admin"))) _ _ rfl (by constructor <;> simp) (.scalar (.str "admin")) rfl
  refine (hadded answer hanswer row hrow key (.inl hfound) ?_).mpr ?_
  · rw [hname, hk]
    exact hkey
  · exact ⟨.text "admin", rfl, .inl ⟨rfl, fun _ => rfl⟩, fun w hw => by cases hw⟩

/-- **A role that is not stored is not added**, and neither is None, though the update is accepted and
raises nothing. -/
theorem role_not_added :
    SqlStore.Reached roledEngine.isoformat roledStore ∧
      ∀ role : PyValue, role = .scalar (.str "root") ∨ role = .none →
        Database.check roledSchema (addRole role) = .ok () ∧
        (∃ answer, (addedRole role).result = .ok answer) ∧
        ∀ row ∈ roledStore.rows,
          ¬ SqlStore.HoldsValue (addedRole role).state row "roles" roleTable role := by
  have hempty {role : PyValue}
      (h : ∀ row ∈ (addedRole role).state.rows,
        ((addedRole role).state.stored.elementsOf row "roles" roleTable).length = 0) :
      ∀ row ∈ roledStore.rows,
        ¬ SqlStore.HoldsValue (addedRole role).state row "roles" roleTable role := by
    rintro row - ⟨row', hrow', -, hin⟩
    rw [List.length_eq_zero_iff.mp (h row' hrow')] at hin
    cases hin
  refine ⟨reached_roledStore, ?_⟩
  rintro role (rfl | rfl)
  · exact ⟨by decide +kernel, exists_answer (by decide +kernel), hempty (by decide +kernel)⟩
  · exact ⟨by decide +kernel, exists_answer (by decide +kernel), hempty (by decide +kernel)⟩

end Mss
