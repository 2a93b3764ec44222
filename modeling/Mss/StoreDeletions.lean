import Mss.Deletions

/-!
# Deletions from a store, and its sweeps

A deletion from one schema's table acts on the others that hold its keys: a column that held one that
is gone is NULL, a list has lost it, and where it was itself a key the deletion is refused. A sweep
deletes what has expired from the table of every schema, which every read leaves out by its own instant:
where no schema holds keys of one whose records expire, no read can tell whether a sweep ran before it.

* `StoredSchema.Keeps`: what a deletion leaves of a schema; `StoredSchema.Loses`: what it leaves of
  another one that holds its keys.
* `SqlStore.deleteFrom_cases`: a deletion from a store.
* **`deletes_matched`**: a deletion of many deletes the matched records and counts them.
* **`reads_unswept`**: after any sweeps before it, a read answers what it would without them.
-/

namespace Mss

open Storage

variable {database : SqlDatabase}

/-! ## The schemas of a store -/

/-- **A store that was set up**: its schemas have tables, each a table of another name. -/
structure Store.IsSetUp (store : Store database) : Prop where
  accepted : ∀ t ∈ store, getTablesOf t.tables.schema = some t.tables
  apart : (store.map StoredSchema.table).Nodup

theorem Store.IsSetUp.eq_of_table {store : Store database} (h : store.IsSetUp)
    {t u : StoredSchema database} (ht : t ∈ store) (hu : u ∈ store) (htable : t.table = u.table) :
    t = u :=
  List.inj_on_of_nodup_map h.apart ht hu htable

theorem Store.IsSetUp.tables_eq {store : Store database} (h : store.IsSetUp)
    {t u : StoredSchema database} (ht : t ∈ store) (hu : u.tables ∈ store.map StoredSchema.tables)
    (htable : t.table = u.table) : t.tables = u.tables := by
  obtain ⟨own, hown, hsame⟩ := List.mem_map.mp hu
  have hnames : own.table = u.table :=
    congrArg (fun tables : SchemaTables => tables.schema.storage.table) hsame
  rw [h.eq_of_table ht hown (htable.trans hnames.symm), hsame]

namespace StoredSchema

/-- **What a deletion from its table leaves of a schema**: the rows that are kept. -/
def Keeps (keep : Row → Bool) (t t' : StoredSchema database) : Prop :=
  ∃ references stored, t' = { t with references, stored } ∧
    Trimmed keep t.read stored.stored.toStoredRows

theorem Keeps.trans {keep keep' : Row → Bool} {t t' t'' : StoredSchema database}
    (h : t.Keeps keep t') (h' : t'.Keeps keep' t'') :
    t.Keeps (fun row => keep row && keep' row) t'' := by
  obtain ⟨_, _, rfl, htrim⟩ := h
  obtain ⟨references, stored, rfl, htrim'⟩ := h'
  exact ⟨references, stored, rfl, htrim.trans htrim'⟩

/-- Whether a row, or a child row of it, holds one of the keys that are gone. -/
def Holds (table : String) (gone : Value Scalar → Bool) (t : StoredSchema database) (row : Row) :
    Prop :=
  (∃ column, t.isForeignKey table column = true ∧ gone (row column) = true) ∨
    ∃ list ∈ t.tables.listTables, t.refersTo table list.1 = true ∧
      ∃ child ∈ t.stored.childRows list.1,
        isChildOf (row t.tables.schema.storage.key) (child list.2.parentColumn) = true ∧
        ∃ column ∈ list.2.valueColumn, gone (child column) = true

/-- Whether the key of a row is one of those that are gone. -/
def KeyIsGone (table : String) (gone : Value Scalar → Bool) (t : StoredSchema database) : Prop :=
  t.isForeignKey table t.tables.schema.storage.key = true ∧
    ∃ row ∈ t.stored.rows, gone (row t.tables.schema.storage.key) = true

/-- **What a deletion from another table leaves of a schema**: as many rows, none of which holds a key
that is gone, and every record that held none as it was. -/
structure Loses (table : String) (gone : Value Scalar → Bool) (t t' : StoredSchema database) :
    Prop where
  tables : t'.tables = t.tables
  target : t'.target = t.target
  length : t'.stored.rows.length = t.stored.rows.length
  holdsNone : ∀ row ∈ t'.stored.rows, ¬ t'.Holds table gone row
  kept : ∀ row ∈ t.stored.rows, ¬ t.Holds table gone row →
    row ∈ t'.stored.rows ∧ t'.read.recordOf row = t.read.recordOf row

end StoredSchema

namespace SqlStore

/-! ## `ON DELETE` -/

section

variable {table : String} {gone : Value Scalar → Bool} {t : StoredSchema database}
  {childFields : List String}

/-- A row after `SET NULL`. -/
def nulled (table : String) (gone : Value Scalar → Bool) (t : StoredSchema database) (row : Row) :
    Row := fun column =>
  if t.isForeignKey table column && gone (row column) then .null else row column

variable (table gone t) in
theorem nulled_cases (row : Row) (column : String) :
    nulled table gone t row column = .null ∨ nulled table gone t row column = row column := by
  unfold nulled
  split_ifs
  · exact .inl rfl
  · exact .inr rfl

theorem nulled_rowId (row : Row) : nulled table gone t row rowId = row rowId := by
  simp [nulled, StoredSchema.isForeignKey]

theorem clashes_nulled {columns : List Column} {a b : Row}
    (h : clashes database columns a b = false) :
    clashes database columns (nulled table gone t a) (nulled table gone t b) = false := by
  unfold clashes at h ⊢
  rw [List.all_eq_false] at h ⊢
  obtain ⟨column, hcolumn, hapart⟩ := h
  refine ⟨column, hcolumn, fun hclash => hapart ?_⟩
  have hread (row : Row) : database.read column (nulled table gone t row) = .null ∨
      database.read column (nulled table gone t row) = database.read column row := by
    unfold SqlDatabase.read
    rcases nulled_cases table gone t row column.name with hnull | hsame
    · rw [hnull]
      exact .inl (by split_ifs <;> rfl)
    · rw [hsame]
      exact .inr rfl
  rcases hread a with ha | ha
  · rw [ha] at hclash
    cases hclash
  · rcases hread b with hb | hb
    · rw [hb, isChildOf_comm] at hclash
      cases hclash
    · rwa [ha, hb] at hclash

theorem mem_childRowsOnDelete (hof : t.tables.Of t.tables.schema childFields)
    {list : String × ListTable} (hlist : list ∈ t.tables.listTables) {child : Row} :
    child ∈ (rowsOnDelete table gone t).childRows list.1 ↔ child ∈ t.stored.childRows list.1 ∧
      ¬ (t.refersTo table list.1 = true ∧ ∃ column ∈ list.2.valueColumn,
        gone (child column) = true) := by
  have hlookup : t.tables.listTables.lookup list.1 = some list.2 := lookup_of_mem hof.names hlist
  simp only [rowsOnDelete, hlookup, List.mem_filter]
  cases list.2.valueColumn <;> cases t.refersTo table list.1 <;> simp

theorem typed_rowsOnDelete (hof : t.tables.Of t.tables.schema childFields) :
    (rowsOnDelete table gone t).Typed database t.tables := by
  refine ⟨fun row hrow column hcolumn => ?_, fun list hlist child hchild =>
    t.stored.typed.2 list hlist child ((mem_childRowsOnDelete hof hlist).mp hchild).1⟩
  obtain ⟨old, hold, rfl⟩ := List.mem_map.mp hrow
  change Fits column.2 (nulled table gone t old column.1) ∧
    inRange (nulled table gone t old column.1) = true
  rcases nulled_cases table gone t old column.1 with hnull | hsame
  · rw [hnull]
    exact ⟨.inr (.inl rfl), rfl⟩
  · rw [hsame]
    exact t.stored.typed.1 old hold column hcolumn

theorem key_nulled (hkey : ¬ t.KeyIsGone table gone) {row : Row} (hrow : row ∈ t.stored.rows) :
    nulled table gone t row t.tables.schema.storage.key = row t.tables.schema.storage.key := by
  refine if_neg fun hgone => hkey ?_
  rw [Bool.and_eq_true] at hgone
  exact ⟨hgone.1, row, hrow, hgone.2⟩

theorem notNull_rowsOnDelete (hof : t.tables.Of t.tables.schema childFields)
    (hkey : ¬ t.KeyIsGone table gone) : (rowsOnDelete table gone t).NotNull t.tables := by
  refine ⟨fun row hrow => ?_, fun list hlist child hchild =>
    t.stored.notNull.2 list hlist child ((mem_childRowsOnDelete hof hlist).mp hchild).1⟩
  obtain ⟨old, hold, rfl⟩ := List.mem_map.mp hrow
  change isNullValue (nulled table gone t old t.tables.schema.storage.key) = false
  -- only a key that is gone itself would be set to NULL
  rw [key_nulled hkey hold]
  exact t.stored.notNull.1 old hold

theorem unique_rowsOnDelete (hof : t.tables.Of t.tables.schema childFields) :
    (rowsOnDelete table gone t).Unique database t.tables := by
  refine ⟨?_, fun columns hcolumns => ?_, fun list hlist => ?_⟩
  · refine List.pairwise_map.mpr (t.stored.unique.1.imp fun {a b} hlt => ?_)
    change rowIdOf (nulled table gone t a) < rowIdOf (nulled table gone t b)
    rwa [rowIdOf, rowIdOf, nulled_rowId, nulled_rowId]
  · exact List.pairwise_map.mpr ((t.stored.unique.2.1 columns hcolumns).imp clashes_nulled)
  · have hlookup : t.tables.listTables.lookup list.1 = some list.2 := lookup_of_mem hof.names hlist
    simp only [rowsOnDelete, hlookup]
    exact (t.stored.unique.2.2 list hlist).filter _

/-- The keys that a schema may refer to, less those that are gone. -/
def referencesLeft (table : String) (gone : Value Scalar → Bool) (t : StoredSchema database) :
    References := fun field value =>
  t.references field value && !(field != rowId && t.refersTo table field && gone value)

theorem foreignKeys_rowsOnDelete (hof : t.tables.Of t.tables.schema childFields)
    (hkey : ¬ t.KeyIsGone table gone) :
    (rowsOnDelete table gone t).ForeignKeys (referencesLeft table gone t) t.tables := by
  refine ⟨fun list hlist child hchild => ?_, fun field hfield hcolumn row hrow => ?_,
    fun list hlist hfield child hchild column hcolumn => ?_⟩
  · have hkept := ((mem_childRowsOnDelete hof hlist).mp hchild).1
    obtain ⟨parent, hparent, hparentOf⟩ := t.stored.foreignKeys.1 list hlist child hkept
    refine ⟨_, List.mem_map_of_mem hparent, ?_⟩
    change isChildOf (nulled table gone t parent _) _ = true
    rwa [key_nulled hkey hparent]
  · obtain ⟨old, hold, rfl⟩ := List.mem_map.mp hrow
    have hbefore := t.stored.foreignKeys.2.1 field hfield hcolumn old hold
    change isReference (referencesLeft table gone t) field (nulled table gone t old field) = true
    by_cases hnull : (t.isForeignKey table field && gone (old field)) = true
    · rw [nulled, if_pos hnull]
      rfl
    · rw [nulled, if_neg hnull]
      rw [Bool.not_eq_true] at hnull
      unfold StoredSchema.isForeignKey at hnull
      rw [hcolumn, Bool.and_true] at hnull
      simp only [isReference, referencesLeft, hnull, Bool.not_false, Bool.and_true]
      exact hbefore
  · obtain ⟨hkept, hstays⟩ := (mem_childRowsOnDelete hof hlist).mp hchild
    have hbefore := t.stored.foreignKeys.2.2 list hlist hfield child hkept column hcolumn
    have hnull : (list.1 != rowId && t.refersTo table list.1 && gone (child column)) = false := by
      rw [← Bool.not_eq_true]
      intro hgone
      simp only [Bool.and_eq_true] at hgone
      exact hstays ⟨hgone.1.2, column, hcolumn, hgone.2⟩
    simp only [isReference, referencesLeft, hnull, Bool.not_false, Bool.and_true]
    exact hbefore

theorem onDelete_ok (hof : t.tables.Of t.tables.schema childFields)
    (hkey : ¬ t.KeyIsGone table gone) : ∃ t', onDelete table gone t = .ok t' ∧
      ∃ references stored, t' = { t with references, stored } ∧
        stored.toRawTables = rowsOnDelete table gone t := by
  obtain ⟨stored, hstored, hraw⟩ := @execute_ok database (referencesLeft table gone t) t.tables _
    (typed_rowsOnDelete hof) (notNull_rowsOnDelete hof hkey) (unique_rowsOnDelete hof)
    (foreignKeys_rowsOnDelete hof hkey)
  refine ⟨{ t with references := referencesLeft table gone t, stored }, ?_, _, stored, rfl, hraw⟩
  change (execute (rowsOnDelete table gone t) >>= fun stored =>
    Except.ok { t with references := referencesLeft table gone t, stored }) = _
  rw [hstored]
  rfl

theorem onDelete_refused (hof : t.tables.Of t.tables.schema childFields)
    (hkey : t.KeyIsGone table gone) : onDelete table gone t = .error (.integrity .notNull) := by
  have hnull : ¬ (rowsOnDelete table gone t).NotNull t.tables := by
    obtain ⟨hforeign, row, hrow, hgone⟩ := hkey
    intro hnotNull
    have hkey := hnotNull.1 _ (List.mem_map_of_mem hrow)
    rw [hforeign, hgone] at hkey
    cases hkey
  unfold onDelete
  simp only [execute, dif_pos (typed_rowsOnDelete hof), dif_neg hnull]
  rfl

variable {references : References} {stored : SqlTables database references t.tables}

/-- **Nothing acts on a schema that does not refer** to the table. -/
theorem keeps_of_refersToNone (hnone : ∀ field, t.refersTo table field = false)
    (hraw : stored.toRawTables = rowsOnDelete table gone t) :
    t.Keeps (fun _ => true) { t with references, stored } := by
  have hrows : stored.rows = t.stored.rows := by
    rw [hraw]
    refine (List.map_congr_left fun row _ => ?_).trans (List.map_id _)
    funext column
    simp [StoredSchema.isForeignKey, hnone]
  have hchildRows : stored.childRows = t.stored.childRows := by
    rw [hraw]
    funext field
    simp only [rowsOnDelete, hnone, Bool.false_and, Bool.not_false]
    cases t.tables.listTables.lookup field <;> simp
  have hkept : Trimmed (fun _ => true) t.read t.read := trimmed_refl t.stored fun _ _ => rfl
  obtain ⟨hkeptRows, hkeptChildren⟩ := hkept
  refine ⟨references, stored, rfl, hrows.trans hkeptRows, fun list hlist => ?_⟩
  change stored.childRows list.1 = (t.stored.childRows list.1).filter
    (isChildOfAny t.tables list.2 stored.rows)
  rw [hchildRows, hrows]
  exact hkeptChildren list hlist

theorem ownRows_onDelete (hof : t.tables.Of t.tables.schema childFields)
    {list : String × ListTable} (hlist : list ∈ t.tables.listTables) {row : Row}
    (hholds : ¬ t.Holds table gone row) :
    ((rowsOnDelete table gone t).childRows list.1).filter (fun child =>
        isChildOf (row t.tables.schema.storage.key) (child list.2.parentColumn)) =
      (t.stored.childRows list.1).filter fun child =>
        isChildOf (row t.tables.schema.storage.key) (child list.2.parentColumn) := by
  have hlookup : t.tables.listTables.lookup list.1 = some list.2 := lookup_of_mem hof.names hlist
  simp only [rowsOnDelete, hlookup]
  rw [List.filter_filter]
  refine List.filter_congr fun child hchild => ?_
  cases hparent : isChildOf (row t.tables.schema.storage.key) (child list.2.parentColumn) with
  | false => rfl
  | true =>
    -- none of the record's child rows refers to what is gone, so that it keeps them all
    rw [Bool.true_and, Bool.not_eq_true', ← Bool.not_eq_true, Bool.and_eq_true, Option.any_eq_true]
    rintro ⟨hrefers, column, hcolumn, hgone⟩
    exact hholds (.inr ⟨list, hlist, hrefers, child, hchild, hparent, column, hcolumn, hgone⟩)

theorem loses_of_onDelete (hof : t.tables.Of t.tables.schema childFields)
    (hraw : stored.toRawTables = rowsOnDelete table gone t) (hnull : gone .null = false) :
    t.Loses table gone { t with references, stored } := by
  -- only the columns that refer to the table are set to NULL
  have hrows : stored.rows = t.stored.rows.map (nulled table gone t) :=
    congrArg RawTables.rows hraw
  have hchildren {list : String × ListTable} (hlist : list ∈ t.tables.listTables) (child : Row) :
      child ∈ stored.childRows list.1 ↔ child ∈ t.stored.childRows list.1 ∧
        ¬ (t.refersTo table list.1 = true ∧ ∃ column ∈ list.2.valueColumn,
          gone (child column) = true) := by
    rw [hraw]
    exact mem_childRowsOnDelete hof hlist
  refine ⟨rfl, rfl, ?_, fun row hrow hholds => ?_, fun row hrow hholds => ?_⟩
  · change stored.rows.length = t.stored.rows.length
    rw [hrows, List.length_map]
  · change row ∈ stored.rows at hrow
    rw [hrows] at hrow
    obtain ⟨old, hold, rfl⟩ := List.mem_map.mp hrow
    rcases hholds with ⟨column, hforeign, hgone⟩ | ⟨list, hlist, hrefers, child, hchild, -, hgone⟩
    · change t.isForeignKey table column = true at hforeign
      -- a column that still held a key that is gone would have been set to NULL
      unfold nulled at hgone
      split_ifs at hgone with hold
      · rw [hnull] at hgone
        cases hgone
      · exact hold (by rw [hforeign, hgone]; rfl)
    · exact ((hchildren hlist child).mp hchild).2 ⟨hrefers, hgone⟩
  · have hsame : nulled table gone t row = row := by
      funext column
      refine if_neg fun hgone => hholds (.inl ⟨column, ?_⟩)
      rwa [Bool.and_eq_true] at hgone
    refine ⟨?_, ?_⟩
    · change row ∈ stored.rows
      rw [hrows]
      exact List.mem_map.mpr ⟨row, hrow, hsame⟩
    · refine recordOf_congr fun list hlist => ?_
      unfold StoredRows.elementsOf
      change ((((stored.childRows list.1).filter _).mergeSort _).map _) = _
      rw [hraw, ownRows_onDelete hof hlist hholds]
      rfl

end

/-! ## A deletion from a store -/

section

variable {store : Store database} {table : String} {clause : Clause}

theorem isGone_iff (hstore : store.IsSetUp) {t : StoredSchema database} (ht : t ∈ store)
    {value : Value Scalar} : isGone t.table clause store value = true ↔
      ∃ row ∈ t.stored.rows, clause.eval database t.read row = .yes ∧
        isChildOf (row t.tables.schema.storage.key) value = true := by
  simp only [isGone, List.any_eq_true, Bool.and_eq_true, beq_iff_eq]
  constructor
  · rintro ⟨u, hu, htable, row, hrow, hgone⟩
    obtain rfl := hstore.eq_of_table hu ht htable
    exact ⟨row, hrow, hgone⟩
  · rintro ⟨row, hrow, hgone⟩
    exact ⟨t, ht, rfl, row, hrow, hgone⟩

theorem isGone_null : isGone table clause store .null = false := by
  rw [← Bool.not_eq_true]
  intro hgone
  obtain ⟨t, -, hgone⟩ := List.any_eq_true.mp hgone
  rw [Bool.and_eq_true, List.any_eq_true] at hgone
  obtain ⟨-, row, -, hrow⟩ := hgone
  rw [Bool.and_eq_true, isChildOf_comm] at hrow
  cases hrow.2

/-- What a deletion from a table does to a schema of the store. -/
def Acts (table : String) (clause : Clause) (gone : Value Scalar → Bool)
    (t t' : StoredSchema database) : Prop :=
  if t.table = table then t.Keeps (fun row => !(clause.eval database t.read row == .yes)) t'
  else ∃ references stored, t' = { t with references, stored } ∧
    stored.toRawTables = rowsOnDelete table gone t

theorem keeps_deleteWhere {t : StoredSchema database}
    (haccepted : getTablesOf t.tables.schema = some t.tables) (clause : Clause) :
    ∃ stored, deleteWhere clause t.stored = .ok stored ∧
      t.Keeps (fun row => !(clause.eval database t.read row == .yes)) { t with stored } := by
  obtain ⟨childFields, hof⟩ := getTablesOf_spec haccepted
  obtain ⟨stored, hdelete, htrim⟩ := trimmed_deleteRows hof
    (fun row => clause.eval database t.read row == .yes) t.stored
  exact ⟨stored, hdelete, t.references, stored, rfl, htrim⟩

/-- **A deletion from a store** is refused where a key of another schema is one of those that are gone.
Otherwise it acts on every schema. -/
theorem deleteFrom_cases (hstore : store.IsSetUp) (table : String) (clause : Clause) :
    ((∃ t ∈ store, t.table ≠ table ∧ t.KeyIsGone table (isGone table clause store)) ∧
      deleteFrom table clause store = .error (.integrity .notNull)) ∨
    (¬ (∃ t ∈ store, t.table ≠ table ∧ t.KeyIsGone table (isGone table clause store)) ∧
      ∃ store', deleteFrom table clause store = .ok store' ∧
        List.Forall₂ (Acts table clause (isGone table clause store)) store store') := by
  -- its own table loses rows, and every other schema follows its references
  let act (t : StoredSchema database) : Except WriteError (StoredSchema database) :=
    if t.table = table then do return { t with stored := ← deleteWhere clause t.stored }
    else onDelete table (isGone table clause store) t
  have hacts : ∀ t ∈ store, ¬ (t.table ≠ table ∧ t.KeyIsGone table (isGone table clause store)) →
      ∃ t', act t = .ok t' ∧ Acts table clause (isGone table clause store) t t' := by
    intro t ht hkey
    unfold Acts
    by_cases htable : t.table = table
    · obtain ⟨stored, hdelete, hkeeps⟩ := keeps_deleteWhere (hstore.accepted t ht) clause
      refine ⟨{ t with stored }, ?_, by rwa [if_pos htable]⟩
      simp only [act, if_pos htable, hdelete]
      rfl
    · obtain ⟨childFields, hof⟩ := getTablesOf_spec (hstore.accepted t ht)
      obtain ⟨t', honDelete, hraw⟩ := onDelete_ok hof fun hgone => hkey ⟨htable, hgone⟩
      exact ⟨t', by simpa only [act, if_neg htable] using honDelete, by rwa [if_neg htable]⟩
  by_cases hkey : ∃ t ∈ store, t.table ≠ table ∧ t.KeyIsGone table (isGone table clause store)
  · refine .inl ⟨hkey, mapM_eq_error ?_ fun t ht => ?_⟩
    · obtain ⟨t, ht, htable, hgone⟩ := hkey
      obtain ⟨childFields, hof⟩ := getTablesOf_spec (hstore.accepted t ht)
      exact ⟨t, ht, (if_neg htable).trans (onDelete_refused hof hgone)⟩
    · by_cases hthis : t.table ≠ table ∧ t.KeyIsGone table (isGone table clause store)
      · obtain ⟨childFields, hof⟩ := getTablesOf_spec (hstore.accepted t ht)
        exact .inl ((if_neg hthis.1).trans (onDelete_refused hof hthis.2))
      · obtain ⟨t', ht', -⟩ := hacts t ht hthis
        exact .inr ⟨t', ht'⟩
  · obtain ⟨store', hdelete, hforall⟩ := exists_mapM fun t ht =>
      hacts t ht fun hthis => hkey ⟨t, ht, hthis⟩
    exact .inr ⟨hkey, store', hdelete, hforall.imp fun _ _ h => h.2⟩

end

end SqlStore

/-! ## Deletions of many -/

section

/-- **What a deletion of many leaves of the schema**: the records that are not matched, as they were,
none of which the filter counts. -/
structure StoredSchema.LeavesUnmatched (engine : SqlEngine) (instant : ℤ) (filter : Filter)
    (isMatched : Row → Bool) (t t' : StoredSchema engine.database) : Prop where
  tables : t'.tables = t.tables
  target : t'.target = t.target
  rows : t'.stored.rows = t.stored.rows.filter fun row => !isMatched row
  kept : ∀ row ∈ t'.stored.rows, t'.read.recordOf row = t.read.recordOf row
  countsNone : SqlStore.count engine.lower engine.database t'.read instant filter = .ok 0

theorem leavesUnmatched_of_keeps {engine : SqlEngine} {instant : ℤ} {filter : Filter}
    {t t' : StoredSchema engine.database} {clause : Clause}
    (hclause : translateFilter engine.lower t.tables instant filter = .ok clause)
    (hkeeps : t.Keeps (fun row => !(clause.eval engine.database t.read row == .yes)) t') :
    t.LeavesUnmatched engine instant filter
      (fun row => clause.eval engine.database t.read row == .yes) t' := by
  obtain ⟨references, stored, rfl, htrim⟩ := hkeeps
  have hyields := @yields_stable_filter engine.lower engine.database t.tables instant filter
  rw [hclause] at hyields
  -- a row that is left still fails the clause
  have hnone : matchedRows engine.database stored.stored.toStoredRows clause = [] := by
    refine List.filter_eq_nil_iff.mpr fun row hrow => ?_
    rw [hyields.1 _ _ _ htrim row hrow]
    rw [htrim.rows] at hrow
    simpa using (List.mem_filter.mp hrow).2
  refine ⟨rfl, rfl, htrim.rows, fun row hrow => htrim.recordOf hrow, ?_⟩
  change SqlStore.count engine.lower engine.database stored.stored.toStoredRows instant filter = _
  unfold SqlStore.count
  rw [hclause]
  change Except.ok (matchedRows engine.database stored.stored.toStoredRows clause).length = _
  rw [hnone]
  rfl

/-- **A deletion of many** raises what a count does, and it is refused where a record of another schema
has the key of a matched one as its own; then nothing is written. Otherwise it deletes as many records
as a count finds, the matched ones, and no record of another schema holds the key of one any more.
Every other record is as it was. Where the clause agrees with the dialect, the unexpired records that
match the filter are the matched ones. -/
theorem deletes_matched (engine : SqlEngine) (now : ℕ → ℤ) {store : Store engine.database}
    (hstore : store.IsSetUp) {t : StoredSchema engine.database} (ht : t ∈ store) (filter : Filter) :
    match SqlStore.count engine.lower engine.database t.read (now 0) filter with
    | .error e => SqlStore.deleteMany engine now t filter store = .refuse (.find e) store
    | .ok n => ∃ (isMatched : Row → Bool) (gone : Value Scalar → Bool),
        n = t.stored.rows.countP isMatched ∧
        (Agrees engine.lower engine.database t.tables (now 0) filter → ∀ row ∈ t.stored.rows,
          (isMatched row = true ↔ Filter.Matches engine.database.same (t.read.recordOf row) filter ∧
            Unexpired t.tables.schema (now 0) (t.read.recordOf row))) ∧
        (∀ value, gone value = true ↔ ∃ row ∈ t.stored.rows, isMatched row = true ∧
          isChildOf (row t.tables.schema.storage.key) value = true) ∧
        ((∃ u ∈ store, u.table ≠ t.table ∧ u.KeyIsGone t.table gone) →
          SqlStore.deleteMany engine now t filter store = .refuse (.integrity .notNull) store) ∧
        (¬ (∃ u ∈ store, u.table ≠ t.table ∧ u.KeyIsGone t.table gone) →
          ∃ store', SqlStore.deleteMany engine now t filter store = ⟨.ok n, store'⟩ ∧
            List.Forall₂ (fun u u' =>
              (u.table = t.table → u.LeavesUnmatched engine (now 0) filter isMatched u') ∧
              (u.table ≠ t.table → u.Loses t.table gone u')) store store') := by
  unfold SqlStore.count SqlStore.deleteMany transact SqlStore.deleteManyBody
  cases hclause : translateFilter engine.lower t.tables (now 0) filter with
  | error e => rfl
  | ok clause =>
    refine ⟨fun row => clause.eval engine.database t.read row == .yes,
      SqlStore.isGone t.table clause store, List.countP_eq_length_filter.symm, ?_, fun value => ?_, ?_⟩
    · rintro ⟨clause', hclause', hmeans⟩ row hrow
      obtain rfl : clause = clause' := Except.ok.inj (hclause.symm.trans hclause')
      rw [beq_iff_eq]
      exact hmeans t.read row hrow
    · simpa only [beq_iff_eq] using SqlStore.isGone_iff hstore ht
    · rcases SqlStore.deleteFrom_cases hstore t.table clause with
        ⟨hkey, hrefused⟩ | ⟨hkey, store', hdelete, hacts⟩
      · refine ⟨fun _ => ?_, fun hnone => absurd hkey hnone⟩
        simp only [Except.mapError, bind, Except.bind, hrefused]
      · refine ⟨fun hsome => absurd hsome hkey, fun _ => ⟨store', ?_, ?_⟩⟩
        · simp only [Except.mapError, bind, Except.bind, hdelete]
          rfl
        · refine forall₂_imp_mem hacts fun u hu u' hact => ?_
          unfold SqlStore.Acts at hact
          constructor
          · intro htable
            rw [if_pos htable] at hact
            obtain rfl := hstore.eq_of_table hu ht htable
            exact leavesUnmatched_of_keeps hclause hact
          · intro htable
            rw [if_neg htable] at hact
            obtain ⟨references, stored, rfl, hraw⟩ := hact
            obtain ⟨childFields, hof⟩ := getTablesOf_spec (hstore.accepted u hu)
            exact SqlStore.loses_of_onDelete hof hraw SqlStore.isGone_null

/-! ### An owner of a pet -/

/-- The schema that the pets refer to. -/
def ownerSchema : Schema where
  name := "_Owner"
  fields := [("id", .scalar .id), ("email", .scalar .str)]
  allowsExtra := false
  storage := { table := "owners", key := "id", unique := [["email"]], caseInsensitive := ["email"] }
  undotted := by decide
  expiresAt := by decide

def ownerTables : SchemaTables := (getTablesOf ownerSchema).get (by decide +kernel)

/-- An owner. -/
def storedOwner : StoredSchema petEngine.database where
  tables := ownerTables
  target := fun _ => none
  references := petEngine.references
  stored := (SqlStore.insertRecord petEngine.isoformat SqlStore.empty (petId 1)
    [("id", .none), ("email", .scalar (.str "ann@lab.se"))]).toOption.get (by decide +kernel)

/-- Her pet, which has her for a friend. -/
def storedPet : StoredSchema petEngine.database where
  tables := petTables
  target := fun _ => some "owners"
  references := petEngine.references
  stored := (SqlStore.insertRecord petEngine.isoformat SqlStore.empty (petId 2)
    [("id", .none), ("name", .scalar (.str "a")), ("age", .scalar (.int 0)),
      ("owner_id", .scalar (.str (petId 1))),
      ("friend_ids", .sequence .list [.scalar (.str (petId 1))]),
      ("stats", .dict [("walks", .scalar (.int 0))]), ("expires_at", .none)]).toOption.get
    (by decide +kernel)

theorem isSetUp_ownedPet : Store.IsSetUp [storedOwner, storedPet] := by
  have howner : getTablesOf ownerSchema = some ownerTables := (Option.some_get _).symm
  have hpet : getTablesOf petSchema = some petTables := (Option.some_get _).symm
  refine ⟨fun t ht => ?_, by decide +kernel⟩
  rcases List.mem_pair.mp ht with rfl | rfl
  · exact howner
  · exact hpet

theorem count_owner : SqlStore.count petEngine.lower petEngine.database storedOwner.read 0
    [.field "email" (.scalar (.str "ANN@lab.se"))] = .ok 1 := by
  decide +kernel

theorem not_keyIsGone_pet (gone : Value Scalar → Bool) :
    ¬ ∃ u ∈ [storedOwner, storedPet], u.table ≠ storedOwner.table ∧
      u.KeyIsGone storedOwner.table gone := by
  have hkey : storedPet.isForeignKey storedOwner.table storedPet.tables.schema.storage.key = false := by
    decide +kernel
  rintro ⟨u, hu, htable, hforeign, -⟩
  rcases List.mem_pair.mp hu with rfl | rfl
  · exact htable rfl
  · rw [hkey] at hforeign
    cases hforeign

theorem length_owner : storedOwner.stored.rows.length = 1 := by
  decide +kernel

theorem exists_owner : ∃ row ∈ storedOwner.stored.rows,
    row storedOwner.tables.schema.storage.key = .scalar (.text (petId 1)) := by
  decide +kernel

/-- The owner is deleted, and her pet stays without one. -/
theorem deletes_matched_owner : ∃ owners' pets' : StoredSchema petEngine.database,
    SqlStore.deleteMany petEngine (fun _ => 0) storedOwner
      [.field "email" (.scalar (.str "ANN@lab.se"))] [storedOwner, storedPet] =
        ⟨.ok 1, [owners', pets']⟩ ∧
      owners'.stored.rows = [] ∧ pets'.stored.rows.length = 1 ∧
      ∀ row ∈ pets'.stored.rows, isChildOf (.scalar (.text (petId 1))) (row "owner_id") = false := by
  have hdeletes := deletes_matched petEngine (fun _ => 0) isSetUp_ownedPet List.mem_cons_self
    [.field "email" (.scalar (.str "ANN@lab.se"))]
  rw [count_owner] at hdeletes
  obtain ⟨isMatched, gone, hone, -, hgone, -, hdelete⟩ := hdeletes
  obtain ⟨store', hdeleted, hleft⟩ := hdelete (not_keyIsGone_pet gone)
  have hall := List.countP_eq_length.mp (hone.symm.trans length_owner.symm)
  have hapart : storedPet.table ≠ storedOwner.table := by decide +kernel
  have hforeign : storedPet.isForeignKey storedOwner.table "owner_id" = true := by decide +kernel
  cases hleft with
  | cons howner hrest =>
    cases hrest with
    | cons hpet hnone =>
      cases hnone
      have hloses := hpet.2 hapart
      refine ⟨_, _, hdeleted, ?_, hloses.length.trans (by decide +kernel), fun row hrow => ?_⟩
      · rw [(howner.1 rfl).rows]
        exact List.filter_eq_nil_iff.mpr fun row hrow => by simp [hall row hrow]
      · obtain ⟨ownerRow, hownerRow, hkey⟩ := exists_owner
        rw [← Bool.not_eq_true, ← hkey]
        intro hchild
        refine hloses.holdsNone row hrow (.inl ⟨"owner_id", ?_, (hgone _).mpr
          ⟨ownerRow, hownerRow, hall ownerRow hownerRow, hchild⟩⟩)
        unfold StoredSchema.isForeignKey StoredSchema.refersTo at hforeign ⊢
        rwa [hloses.tables, hloses.target]

end

/-! ## Sweeps before a read -/

namespace Store

/-- **No schema holds keys of one whose records expire.** -/
def RefersToLasting (store : Store database) : Prop :=
  ∀ t ∈ store, ∀ u ∈ store, u.tables.schema.storage.expires ≠ none →
    ∀ field, t.refersTo u.table field = false

theorem RefersToLasting.refersToNone {store : Store database} (h : store.RefersToLasting)
    {t u : StoredSchema database} (ht : t ∈ store) (hu : u.tables ∈ store.map StoredSchema.tables)
    (hexpires : u.tables.schema.storage.expires ≠ none) (field : String) :
    t.refersTo u.table field = false := by
  obtain ⟨own, hown, hsame⟩ := List.mem_map.mp hu
  rw [← hsame] at hexpires
  have hnone := h t ht own hown hexpires field
  unfold StoredSchema.table at hnone ⊢
  rwa [hsame] at hnone

/-- The same schemas, of other rows. -/
def Alike (store store' : Store database) : Prop :=
  List.Forall₂ (fun t t' => t'.tables = t.tables ∧ t'.target = t.target) store store'

/-- What is left of each schema of a store. -/
def Keeps (keep : SchemaTables → Row → Bool) (store store' : Store database) : Prop :=
  List.Forall₂ (fun t t' => t.Keeps (keep t.tables) t') store store'

variable {store store' store'' : Store database} {keep keep' : SchemaTables → Row → Bool}

theorem Keeps.alike (h : store.Keeps keep store') : store.Alike store' := by
  refine List.Forall₂.imp (fun t t' hkeeps => ?_) h
  obtain ⟨references, stored, rfl, -⟩ := hkeeps
  exact ⟨rfl, rfl⟩

theorem Keeps.trans (h : store.Keeps keep store') (h' : store'.Keeps keep' store'') :
    store.Keeps (fun tables row => keep tables row && keep' tables row) store'' := by
  refine forall₂_trans h h' fun t t' t'' hfirst hsecond => ?_
  obtain ⟨references, stored, rfl, htrim⟩ := hfirst
  exact StoredSchema.Keeps.trans ⟨references, stored, rfl, htrim⟩ hsecond

theorem Keeps.congr (h : store.Keeps keep store')
    (hkeep : ∀ t ∈ store, ∀ row, keep t.tables row = keep' t.tables row) :
    store.Keeps keep' store' := by
  refine forall₂_imp_mem h fun t ht t' hkeeps => ?_
  obtain ⟨references, stored, rfl, htrim⟩ := hkeeps
  exact ⟨references, stored, rfl, htrim.congr fun row _ => hkeep t ht row⟩

theorem keeps_refl (hkeep : ∀ t ∈ store, ∀ row ∈ t.stored.rows, keep t.tables row = true) :
    store.Keeps keep store :=
  List.forall₂_same.mpr fun t ht =>
    ⟨t.references, t.stored, rfl, SqlStore.trimmed_refl t.stored (hkeep t ht)⟩

namespace Alike

theorem exists_mem (h : store.Alike store') {t' : StoredSchema database} (ht' : t' ∈ store') :
    ∃ t ∈ store, t'.tables = t.tables ∧ t'.target = t.target := by
  induction h with
  | nil => cases ht'
  | cons htarget _ ih =>
    rcases List.mem_cons.mp ht' with rfl | hrest
    · exact ⟨_, List.mem_cons_self, htarget⟩
    · obtain ⟨t, ht, hsame⟩ := ih hrest
      exact ⟨t, List.mem_cons_of_mem _ ht, hsame⟩

theorem map_tables (h : store.Alike store') :
    store'.map StoredSchema.tables = store.map StoredSchema.tables := by
  induction h with
  | nil => rfl
  | cons hsame _ ih => rw [List.map_cons, List.map_cons, ih, hsame.1]

theorem isSetUp (h : store.Alike store') (hstore : store.IsSetUp) : store'.IsSetUp := by
  constructor
  · intro t' ht'
    obtain ⟨t, ht, htables, -⟩ := h.exists_mem ht'
    rw [htables]
    exact hstore.accepted t ht
  · have hmap (store : Store database) : store.map StoredSchema.table =
        (store.map StoredSchema.tables).map fun tables => tables.schema.storage.table := by
      rw [List.map_map]
      rfl
    rw [hmap, h.map_tables, ← hmap]
    exact hstore.apart

theorem refersToLasting (h : store.Alike store') (hlasting : store.RefersToLasting) :
    store'.RefersToLasting := by
  intro t' ht' u' hu' hexpires field
  obtain ⟨t, ht, htables, htarget⟩ := h.exists_mem ht'
  obtain ⟨u, hu, hschema, -⟩ := h.exists_mem hu'
  rw [hschema] at hexpires
  have hnone := hlasting t ht u hu hexpires field
  unfold StoredSchema.refersTo StoredSchema.table at hnone ⊢
  rwa [htables, htarget, hschema]

end Alike

end Store

namespace SqlStore

section

variable {store : Store database}

/-- **A deletion of what has expired in one schema** leaves the rows of it that have not, and all
others. -/
theorem keeps_deleteExpiredOf (hstore : store.IsSetUp) (hlasting : store.RefersToLasting) (now : ℤ)
    {u : StoredSchema database} (hu : u.tables ∈ store.map StoredSchema.tables) :
    ∃ store', deleteExpiredOf now store u = .ok store' ∧
      store.Keeps (fun tables row => tables.schema.storage.table != u.table ||
        isLive tables now row) store' := by
  unfold deleteExpiredOf
  cases hfield : u.tables.schema.storage.expires with
  | none =>
    refine ⟨store, rfl, Store.keeps_refl fun t ht row _ => ?_⟩
    by_cases htable : t.table = u.table
    · rw [hstore.tables_eq ht hu htable, isLive, hfield]
      exact Bool.or_true _
    · exact Bool.or_eq_true_iff.mpr (.inl (bne_iff_ne.mpr htable))
  | some field =>
    obtain ⟨own, hown, hsame⟩ := List.mem_map.mp hu
    obtain ⟨childFields, hof⟩ := getTablesOf_spec (hstore.accepted own hown)
    rw [hsame] at hof
    have hcolumn : (u.tables.columns.lookup field).isNone = false := by
      have hsome := hof.expires field hfield
      simpa using Option.isSome_iff_ne_none.mp hsome
    dsimp only
    rw [hcolumn, if_neg Bool.false_ne_true]
    have hexpires : u.tables.schema.storage.expires ≠ none := by simp [hfield]
    have hnone (t : StoredSchema database) (ht : t ∈ store) : ∀ name, t.refersTo u.table name = false :=
      hlasting.refersToNone ht hu hexpires
    rcases deleteFrom_cases hstore u.table (expiredClause field now) with
      ⟨⟨t, ht, -, hforeign, -⟩, -⟩ | ⟨-, store', hdelete, hacts⟩
    · simp [StoredSchema.isForeignKey, hnone t ht] at hforeign
    · refine ⟨store', hdelete, forall₂_imp_mem hacts fun t ht t' hact => ?_⟩
      unfold Acts at hact
      split_ifs at hact with htable
      · obtain ⟨references, stored, rfl, htrim⟩ := hact
        refine ⟨references, stored, rfl, htrim.congr fun row hrow => ?_⟩
        have hsame : t.tables = u.tables := hstore.tables_eq ht hu htable
        have hfield' : t.tables.schema.storage.expires = some field := by rw [hsame, hfield]
        rw [← hsame] at hof
        rw [eval_expiredClause hof hfield' hrow, Bool.not_not, ← htable]
        simp [isLive, hfield', StoredSchema.table]
      · obtain ⟨references, stored, rfl, hraw⟩ := hact
        obtain ⟨_, _, heq, htrim⟩ := keeps_of_refersToNone (hnone t ht) hraw
        cases heq
        refine ⟨references, stored, rfl, htrim.congr fun row _ => ?_⟩
        exact (Bool.or_eq_true_iff.mpr (.inl (bne_iff_ne.mpr htable))).symm

theorem keeps_foldlM_deleteExpiredOf (hstore : store.IsSetUp) (hlasting : store.RefersToLasting)
    (now : ℤ) {schemas : List (StoredSchema database)}
    (hschemas : ∀ u ∈ schemas, u.tables ∈ store.map StoredSchema.tables) :
    ∃ store', schemas.foldlM (deleteExpiredOf now) store = .ok store' ∧
      store.Keeps (fun tables row => schemas.all fun u =>
        tables.schema.storage.table != u.table || isLive tables now row) store' := by
  induction schemas generalizing store with
  | nil => exact ⟨store, rfl, Store.keeps_refl fun _ _ _ _ => rfl⟩
  | cons u schemas ih =>
    obtain ⟨hu, hrest⟩ := List.forall_mem_cons.mp hschemas
    obtain ⟨store₁, hfirst, hkeeps⟩ := keeps_deleteExpiredOf hstore hlasting now hu
    have halike : store.Alike store₁ := hkeeps.alike
    obtain ⟨store', hlast, hkeeps'⟩ := ih (halike.isSetUp hstore) (halike.refersToLasting hlasting)
      (by rwa [halike.map_tables])
    refine ⟨store', ?_, hkeeps.trans hkeeps'⟩
    rw [List.foldlM_cons, hfirst]
    exact hlast

/-- **A sweep** leaves the rows of every schema that have not expired. -/
theorem keeps_deleteExpiredRecords (hstore : store.IsSetUp) (hlasting : store.RefersToLasting)
    (now : ℤ) : ∃ store', deleteExpiredRecords store now = .ok store' ∧
      store.Keeps (fun tables row => isLive tables now row) store' := by
  have hschemas : ∀ u ∈ store, u.tables ∈ store.map StoredSchema.tables :=
    fun u hu => List.mem_map_of_mem hu
  obtain ⟨store', hswept, hkeeps⟩ := keeps_foldlM_deleteExpiredOf hstore hlasting now hschemas
  refine ⟨store', hswept, hkeeps.congr fun t ht row => ?_⟩
  rw [Bool.eq_iff_iff, List.all_eq_true]
  constructor
  · intro hall
    simpa [StoredSchema.table] using hall t ht
  · intro hlive u _
    rw [hlive, Bool.or_true]

/-- **Sweeps, one after another,** leave the rows that had not expired at any. -/
theorem keeps_sweepAt (hstore : store.IsSetUp) (hlasting : store.RefersToLasting)
    (instants : List ℤ) : ∃ store', sweepAt instants store = .ok store' ∧
      store.Keeps (fun tables row => instants.all fun now => isLive tables now row) store' := by
  induction instants generalizing store with
  | nil => exact ⟨store, rfl, Store.keeps_refl fun _ _ _ _ => rfl⟩
  | cons now instants ih =>
    obtain ⟨store₁, hfirst, hkeeps⟩ := keeps_deleteExpiredRecords hstore hlasting now
    have halike : store.Alike store₁ := hkeeps.alike
    obtain ⟨store', hrest, hkeeps'⟩ := ih (halike.isSetUp hstore) (halike.refersToLasting hlasting)
    refine ⟨store', ?_, hkeeps.trans hkeeps'⟩
    rw [sweepAt, List.foldlM_cons, hfirst]
    exact hrest

end

end SqlStore

/-- **No read can tell whether sweeps ran before it**, where no schema holds keys of one whose records
expire: they raise nothing, they leave the rows of every schema that had not expired at any of them,
and every read at an instant that none of them is past answers what it would without them. -/
theorem reads_unswept {R : Type} {store : Store database} (hstore : store.IsSetUp)
    (hlasting : store.RefersToLasting) (lower : String → String) {text : TextOrder}
    (plan : SqlPlan text) (validate : Value Scalar → Except ValidationError R) (instants : List ℤ) :
    ∃ store', SqlStore.sweepAt instants store = .ok store' ∧
      List.Forall₂ (fun t t' => t'.tables = t.tables ∧
        t'.stored.rows = t.stored.rows.filter (fun row =>
          instants.all fun instant => SqlStore.isLive t.tables instant row) ∧
        ∀ now, (∀ instant ∈ instants, instant ≤ now) →
          SqlStore.reads lower database validate plan t'.read now =
            SqlStore.reads lower database validate plan t.read now) store store' := by
  obtain ⟨store', hswept, hkeeps⟩ := SqlStore.keeps_sweepAt hstore hlasting instants
  refine ⟨store', hswept, forall₂_imp_mem hkeeps fun t ht t' hleft => ?_⟩
  obtain ⟨references, stored, rfl, htrim⟩ := hleft
  obtain ⟨childFields, hof⟩ := getTablesOf_spec (hstore.accepted t ht)
  refine ⟨rfl, htrim.rows, fun now hnow => reads_trimmed hof htrim fun row _ hgone => ?_⟩
  obtain ⟨instant, hinstant, hexpired⟩ := List.all_eq_false.mp hgone
  rw [Bool.not_eq_true, SqlStore.isLive] at hexpired
  cases hfield : t.tables.schema.storage.expires with
  | none =>
    rw [hfield] at hexpired
    cases hexpired
  | some field =>
    rw [hfield] at hexpired
    exact ⟨field, rfl, isUnexpired_mono (hnow instant hinstant) hexpired⟩

/-- The tables of a nonce that expires at 10. -/
def storedNonce : StoredSchema petEngine.database :=
  ⟨nonceTables, fun _ => none, petEngine.references, heldNonce⟩

/-- A sweep at its expiry deletes the nonce, which no read sees from then on. -/
theorem reads_unswept_nonce : ∃ t', SqlStore.sweepAt [5, 10] [storedNonce] = .ok [t'] ∧
    t'.stored.rows = [] ∧
    SqlStore.reads petEngine.lower petEngine.database petEngine.validate petEngine.plan t'.read 10 =
      SqlStore.reads petEngine.lower petEngine.database petEngine.validate petEngine.plan
        storedNonce.read 10 := by
  have htables : getTablesOf nonceSchema = some nonceTables := (Option.some_get _).symm
  have hstore : Store.IsSetUp [storedNonce] :=
    ⟨List.forall_mem_singleton.mpr htables, List.nodup_singleton _⟩
  have hlasting : Store.RefersToLasting [storedNonce] := by
    intro t ht u _ _ field
    obtain rfl := List.mem_singleton.mp ht
    rfl
  obtain ⟨store', hswept, hleft⟩ := reads_unswept hstore hlasting petEngine.lower
    petEngine.plan petEngine.validate [5, 10]
  cases hleft with
  | cons hnonce hnone =>
    cases hnone
    obtain ⟨-, hrows, hreads⟩ := hnonce
    exact ⟨_, hswept, hrows.trans (List.isEmpty_iff.mp (by decide +kernel)), hreads 10 (by decide)⟩

end Mss
