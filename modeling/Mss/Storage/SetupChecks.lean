import Mss.Lib.Verdicts
import Mss.Storage.TableSetup

/-!
# What the tables of a schema are checked for

The tables of a schema are built by calls that raise, here and there, for what is wrong with its
storage or with that of a schema it references. Some of it is refused with a message; the rest, which
nothing looks for, crashes the call that meets it. What is met, in which order, is read off the
schemas alone.

* `childFieldsOf`, `keptFields`, `columnNames`, `tableNames`: the tables and their columns, by name.
* **`checks`**, `verdict`: what is met, in the order of the calls.
* `harsher_checks`: more names taken, more crashes.
* **`says_getTablesOf`**: the tables of a schema are built as its checks say.
-/

namespace Mss.Setup

open Storage Verdict

variable {σ : Type}

/-! ## The tables and their columns, by name -/

section Names

variable (c : SchemaClass σ)

/-- The list fields kept in child tables. -/
def childFieldsOf : List String :=
  c.storage.indexedLists ++
    c.storage.references.filter fun field => (c.fields.lookup field).any FieldType.isListField

/-- The fields kept in columns of the schema's own table. -/
def keptFields : Fields := c.fields.filter fun field => field.1 ∉ childFieldsOf c

/-- The columns of the schema's own table. -/
def columnNames : List String := rowId :: (keptFields c).map Prod.fst

/-- The tables of a schema. -/
def tableNames : List String := c.storage.table :: (childFieldsOf c).map (childTableName c)

/-- The fields of a list field's elements, if they are models. -/
def elementModelOf (field : String) : Option Fields :=
  (c.fields.lookup field).bind fun annotation =>
    (getElementField annotation).bind fun element => element.findNestedModel.map Prod.snd

/-- The columns of a child table. -/
def childColumnNames (field : String) : List String :=
  parentColumnName c :: match elementModelOf c field with
    | some fields => position :: fields.map Prod.fst
    | none => [getSingular field, position]

end Names

/-! ## The checks of a schema by itself -/

section Checks

variable (c : SchemaClass σ)

/-- A unique group: a list field in it is refused, and unless it is the key alone its fields have
columns. -/
def uniqueChecks (fields : List String) : List Verdict :=
  if fields.any (· ∈ childFieldsOf c) then [refuse]
  else if fields = [c.storage.key] then []
  else [passIf (∀ field ∈ fields, field ∈ columnNames c)]

/-- An indexed group: unless it is the key alone or has dotted fields, its fields have columns. -/
def indexChecks (fields : List String) : List Verdict :=
  if fields.map stripDashes = [c.storage.key] ∨ (fields.map stripDashes).any isDotted then []
  else [passIf (∀ field ∈ fields, stripDashes field ∈ columnNames c)]

/-- An indexed group with dotted fields: all of them are fields of one list of models, or it is
refused, and each of them is dotted and has a column. -/
def elementIndexChecks (fields : List String) : List Verdict :=
  match (fields.map listOfPath).dedup with
  | [list] =>
    if list ∈ childFieldsOf c ∧ (elementModelOf c list).isSome then
      [passIf (∀ field ∈ fields, (elementPath field).toOption.isSome),
        passIf (∀ field ∈ fields, ∀ name ∈ (elementPath field).toOption,
          name ∈ childColumnNames c list)]
    else [refuse]
  | _ => [refuse]

end Checks

section Calls

variable {c : SchemaClass σ}

theorem says_column (table : Table) (name : String) :
    Says SetupError.isRefusal (table.column name) [passIf (name ∈ table.names)] fun _ => True := by
  unfold Table.column Table.names
  cases hfind : table.columns.find? (·.name = name) with
  | some column =>
    have hmem : name ∈ table.columns.map (·.name) := by
      have hname : column.name = name := by simpa using List.find?_some hfind
      rw [← hname]
      exact List.mem_map_of_mem (List.mem_of_find?_eq_some hfind)
    exact .passed hmem trivial
  | none =>
    refine .failed (fun hmem => ?_) rfl
    obtain ⟨column, hcolumn, hname⟩ := List.mem_map.mp hmem
    exact absurd hname (by simpa using List.find?_eq_none.mp hfind column hcolumn)

theorem says_modelField (c : SchemaClass σ) (field : String) :
    Says SetupError.isRefusal (c.modelField field) [passIf (c.fields.lookup field).isSome]
      fun annotation => c.fields.lookup field = some annotation := by
  unfold SchemaClass.modelField
  cases hlookup : c.fields.lookup field with
  | some annotation => exact .passed rfl rfl
  | none => exact .failed (by simp) rfl

/-- **The list fields kept in child tables.** -/
theorem says_getChildFields (c : SchemaClass σ) :
    Says SetupError.isRefusal (getChildFields c)
      (c.storage.references.flatMap fun field => [passIf (c.fields.lookup field).isSome])
      (· = childFieldsOf c) := by
  refine (Says.mapM (r := fun field x => x.1 = field ∧ c.fields.lookup field = some x.2)
    fun field _ => (says_modelField c field).map fun _ h => ⟨rfl, h⟩).bind_ok fun xs hxs => ?_
  unfold childFieldsOf
  congr 1
  generalize c.storage.references = references at hxs ⊢
  induction hxs with
  | nil => rfl
  | @cons field x fields xs hx _ ih =>
    obtain ⟨rfl, hx⟩ := hx
    rw [List.filter_cons, List.filter_cons, hx]
    by_cases hlist : x.2.isListField = true
    · simp [hlist, ih]
    · simp [hlist, ih]

theorem says_defineTable (taken : List String) (name : String) (columns : List Column) :
    Says SetupError.isRefusal (defineTable taken name columns)
      [passIf (name ∉ taken), passIf (columns.map (·.name)).Nodup]
      (·.names = columns.map (·.name)) := by
  unfold defineTable
  by_cases htaken : name ∈ taken
  · rw [if_pos htaken]
    simp [Says, passIf, htaken, SetupError.isRefusal]
  · rw [if_neg htaken]
    by_cases hnodup : (columns.map (·.name)).Nodup
    · rw [if_pos hnodup]
      simp [Says, passIf, htaken, hnodup, Table.names]
    · rw [if_neg hnodup]
      simp [Says, passIf, htaken, hnodup, SetupError.isRefusal]

/-! ### Constraints and indexes -/

theorem says_addUniqueConstraint {table : Table} (htable : table.names = columnNames c)
    (fields : List String) :
    Says SetupError.isRefusal (addUniqueConstraint table fields)
      [passIf (∀ field ∈ fields, field ∈ columnNames c)] (·.names = columnNames c) := by
  unfold addUniqueConstraint
  rw [htable]
  cases hfind : fields.find? (· ∉ columnNames c) with
  | some field =>
    have hmissing : field ∉ columnNames c := by simpa using List.find?_some hfind
    exact .failed (fun hall => hmissing (hall field (List.mem_of_find?_eq_some hfind))) rfl
  | none => exact .passed (by simpa using hfind) htable

theorem says_addUnique {table : Table} (htable : table.names = columnNames c)
    (fields : List String) :
    Says SetupError.isRefusal (addUnique c (childFieldsOf c) table fields) (uniqueChecks c fields)
      (·.names = columnNames c) := by
  unfold addUnique uniqueChecks
  by_cases hlist : fields.any (· ∈ childFieldsOf c) = true
  · rw [if_pos hlist, if_pos hlist]
    exact .refuse rfl
  · rw [if_neg hlist, if_neg hlist]
    by_cases hkey : fields = [c.storage.key]
    · rw [if_pos hkey, if_pos hkey]
      exact .ok htable
    · rw [if_neg hkey, if_neg hkey]
      split
      · next field =>
        by_cases hcase : field ∈ c.storage.caseInsensitive
        · have hcolumn := says_column table field
          rw [htable] at hcolumn
          rw [if_pos hcase, passIf_congr (q := field ∈ columnNames c) (by simp)]
          exact hcolumn.map fun _ _ => htable
        · rw [if_neg hcase]
          exact says_addUniqueConstraint htable [field]
      · exact says_addUniqueConstraint htable fields

theorem says_addIndex {table : Table} (htable : table.names = columnNames c)
    (fields : List String) :
    Says SetupError.isRefusal (addIndex c table fields) (indexChecks c fields)
      (·.names = columnNames c) := by
  unfold addIndex indexChecks
  dsimp only
  by_cases hskip : fields.map stripDashes = [c.storage.key] ∨
    (fields.map stripDashes).any isDotted = true
  · rw [if_pos hskip, if_pos hskip]
    exact .ok htable
  · rw [if_neg hskip, if_neg hskip]
    refine Says.bind_ok (.forall_mem (Says.mapM (r := fun _ _ => True) fun field _ => ?_))
      fun _ _ => htable
    have hcolumn := says_column table (stripDashes field)
    rw [htable] at hcolumn
    exact hcolumn.map fun _ _ => trivial

theorem says_addExpiry {table : Table} (htable : table.names = columnNames c) :
    Says SetupError.isRefusal (addExpiry c table)
      (c.storage.expires.toList.flatMap fun field => [passIf (field ∈ columnNames c)])
      (·.names = columnNames c) := by
  unfold addExpiry
  cases c.storage.expires with
  | none => exact .ok htable
  | some field =>
    have hcolumn := says_column table field
    rw [htable] at hcolumn
    exact hcolumn.map fun _ _ => htable

/-! ### Child tables -/

theorem says_elementOf (c : SchemaClass σ) (field : String) :
    Says SetupError.isRefusal (elementOf c field)
      [passIf (((c.fields.lookup field).bind getElementField).isSome)]
      fun element => elementModelOf c field = element.findNestedModel.map Prod.snd := by
  cases hbind : (c.fields.lookup field).bind getElementField with
  | none =>
    have hread : ∃ e, elementOf c field = .error e ∧ e.isRefusal = false := by
      unfold elementOf SchemaClass.modelField
      cases hlookup : c.fields.lookup field with
      | none => exact ⟨_, rfl, rfl⟩
      | some annotation =>
        rw [hlookup] at hbind
        simp only [bind, Except.bind, show getElementField annotation = none from hbind]
        exact ⟨_, rfl, rfl⟩
    obtain ⟨e, hread, he⟩ := hread
    rw [hread]
    exact .failed (by simp) he
  | some element =>
    obtain ⟨type, hlookup, helement⟩ := Option.bind_eq_some_iff.mp hbind
    have hread : elementOf c field = .ok element := by
      unfold elementOf SchemaClass.modelField
      rw [hlookup]
      simp only [bind, Except.bind, helement]
      rfl
    rw [hread]
    refine .passed rfl ?_
    unfold elementModelOf
    rw [← Option.bind_assoc, hbind]
    rfl

theorem says_defineChild {taken : List String} {field : String} {columns : List Column}
    (hcolumns : columns.map (·.name) = childColumnNames c field) :
    Says SetupError.isRefusal (defineTable taken (childTableName c field) columns)
      [passIf (childTableName c field ∉ taken), passIf (childColumnNames c field).Nodup]
      (·.names = childColumnNames c field) := by
  rw [← hcolumns]
  exact says_defineTable taken _ columns

/-- What an index on elements reads of a child table. -/
def listTableView (x : String × ListTable) : String × Option Fields × List String :=
  (x.1, x.2.elementModel, x.2.table.names)

/-- The child tables of some list fields. -/
def ListTablesOf (c : SchemaClass σ) (fields : List String)
    (listTables : List (String × ListTable)) : Prop :=
  listTables.map listTableView =
    fields.map fun field => (field, elementModelOf c field, childColumnNames c field)

theorem lookup_listTables {fields : List String} {listTables : List (String × ListTable)}
    (h : ListTablesOf c fields listTables) (list : String) :
    (listTables.lookup list).map (fun listTable => (listTable.elementModel, listTable.table.names)) =
      if list ∈ fields then some (elementModelOf c list, childColumnNames c list) else none := by
  have hview := lookup_map (fun _ (listTable : ListTable) =>
    (listTable.elementModel, listTable.table.names)) listTables list
  rw [← hview]
  change (listTables.map listTableView).lookup list = _
  rw [h]
  by_cases hmem : list ∈ fields
  · rw [if_pos hmem, List.lookup_graph _ hmem]
  · rw [if_neg hmem, List.lookup_eq_none_iff]
    intro x hx
    obtain ⟨field, hfield, rfl⟩ := List.mem_map.mp hx
    simpa using fun heq : list = field => hmem (heq ▸ hfield)

theorem says_elementPaths (fields : List String) :
    Says SetupError.isRefusal (fields.mapM elementPath)
      [passIf (∀ field ∈ fields, (elementPath field).toOption.isSome)]
      (List.Forall₂ (fun field name => elementPath field = .ok name) fields) := by
  refine .forall_mem (Says.mapM fun field _ => ?_)
  cases hpath : elementPath field with
  | ok name => exact .passed rfl rfl
  | error e =>
    have he : e.isRefusal = false := by
      unfold elementPath at hpath
      split at hpath
      · cases hpath
        rfl
      · cases hpath
    exact .failed (by simp [Except.toOption]) he

theorem says_elementColumns {fields names : List String}
    (h : List.Forall₂ (fun field name => elementPath field = .ok name) fields names)
    (table : Table) :
    Says SetupError.isRefusal (names.mapM table.column)
      [passIf (∀ field ∈ fields, ∀ name ∈ (elementPath field).toOption, name ∈ table.names)]
      fun _ => True := by
  have hiff : (∀ field ∈ fields, ∀ name ∈ (elementPath field).toOption, name ∈ table.names) ↔
      ∀ name ∈ names, name ∈ table.names := by
    refine forall_iff_of_forall₂ h fun field _ name hname => ?_
    rw [hname]
    exact ⟨fun hall => hall name rfl, fun hmem name' h => by cases h; exact hmem⟩
  rw [passIf_congr hiff]
  exact (Says.forall_mem (Says.mapM fun name _ => says_column table name)).mono fun _ _ => trivial

theorem says_addElementIndex {listTables : List (String × ListTable)}
    (hlists : ListTablesOf c (childFieldsOf c) listTables) (fields : List String) :
    Says SetupError.isRefusal (addElementIndex listTables fields) (elementIndexChecks c fields)
      (ListTablesOf c (childFieldsOf c)) := by
  unfold addElementIndex elementIndexChecks
  generalize (fields.map listOfPath).dedup = lists
  obtain _ | ⟨list, _ | ⟨other, others⟩⟩ := lists
  · exact .refuse rfl
  · dsimp only
    have hlookup := lookup_listTables hlists list
    cases hfound : listTables.lookup list with
    | none =>
      have hnot : list ∉ childFieldsOf c := by
        intro hmem
        rw [hfound, if_pos hmem] at hlookup
        cases hlookup
      rw [if_neg fun h => hnot h.1]
      exact .refuse rfl
    | some listTable =>
      have hmem : list ∈ childFieldsOf c := by
        by_contra hnot
        rw [hfound, if_neg hnot] at hlookup
        cases hlookup
      rw [hfound, if_pos hmem] at hlookup
      obtain ⟨hmodel, hnames⟩ := Prod.mk.inj (Option.some.inj hlookup)
      dsimp only
      rw [hmodel]
      by_cases hscalar : (elementModelOf c list).isNone = true
      · rw [if_pos hscalar, if_neg (by simp_all)]
        exact .refuse rfl
      · rw [if_neg hscalar, if_pos ⟨hmem, by simpa [Option.isSome_iff_ne_none] using hscalar⟩,
          ← hnames, ← List.singleton_append]
        refine (says_elementPaths fields).bind fun names hnames => ?_
        refine (says_elementColumns hnames listTable.table).bind_ok fun columns _ => ?_
        unfold ListTablesOf
        rw [← hlists, List.map_map]
        refine List.map_congr_left fun x _ => ?_
        change listTableView (if x.1 = list then _ else x) = listTableView x
        split_ifs with hx
        · rfl
        · rfl
  · exact .refuse rfl

end Calls

/-! ## The checks of a schema among others -/

variable [DecidableEq σ] (classes : σ → SchemaClass σ)

/-- A field references no schema, or another one whose key has a column. -/
def CanReference (s : σ) (field : String) : Prop :=
  ∀ t ∈ (classes s).referenced field, t ≠ s ∧ (classes t).storage.key ∈ columnNames (classes t)

instance (s : σ) (field : String) : Decidable (CanReference classes s field) :=
  inferInstanceAs (Decidable (∀ t ∈ (classes s).referenced field, _))

/-- A list field: its elements are of one type, a scalar may be a reference, the key has a column,
and the child table has a name of its own and columns that differ. -/
def listTableChecks (s : σ) (taken : List String) (field : String) : List Verdict :=
  let c := classes s
  passIf (((c.fields.lookup field).bind getElementField).isSome) ::
    (if (elementModelOf c field).isNone then [passIf (CanReference classes s field)] else []) ++
    [passIf (c.storage.key ∈ columnNames c), passIf (childTableName c field ∉ taken),
      passIf (childColumnNames c field).Nodup]

/-- The list fields, each after the ones before it. -/
def listTablesChecks (s : σ) : List String → List String → List Verdict
  | _, [] => []
  | taken, field :: fields =>
    listTableChecks classes s taken field ++
      listTablesChecks s (taken ++ [childTableName (classes s) field]) fields

/-- **What is met while the tables of a schema are built**, with some names taken. -/
def checks (taken : List String) (s : σ) : List Verdict :=
  let c := classes s
  (c.storage.references.flatMap fun field => [passIf (c.fields.lookup field).isSome]) ++
    ((keptFields c).flatMap fun field => [passIf (CanReference classes s field.1)]) ++
    [passIf (c.storage.table ∉ taken), passIf (columnNames c).Nodup] ++
    c.storage.unique.flatMap (uniqueChecks c) ++
    c.storage.indexes.flatMap (indexChecks c) ++
    (c.storage.expires.toList.flatMap fun field => [passIf (field ∈ columnNames c)]) ++
    listTablesChecks classes s (taken ++ [c.storage.table]) (childFieldsOf c) ++
    (c.storage.indexes.filter (·.any isDotted)).flatMap (elementIndexChecks c)

/-- What building the tables of a schema comes to, with some names taken. -/
def verdict (taken : List String) (s : σ) : Verdict := overall (checks classes taken s)

/-! ## More names taken -/

section Taken

variable {classes} {taken taken' : List String} {s : σ}

theorem harsher_notMem (h : taken ⊆ taken') (name : String) :
    passIf (name ∉ taken) = passIf (name ∉ taken') ∨
      passIf (name ∉ taken) = pass ∧ passIf (name ∉ taken') = crash :=
  Harsher.passIf fun hname hmem => hname (h hmem)

theorem harsher_listTablesChecks (h : taken ⊆ taken') (fields : List String) :
    Harsher (listTablesChecks classes s taken fields) (listTablesChecks classes s taken' fields) := by
  induction fields generalizing taken taken' with
  | nil => exact .refl []
  | cons field fields ih =>
    have hthis : Harsher (listTableChecks classes s taken field)
        (listTableChecks classes s taken' field) :=
      (Harsher.refl _).append (.cons (.inl rfl) (.cons (harsher_notMem h _) (Harsher.refl _)))
    exact hthis.append (ih (List.append_subset.mpr
      ⟨List.subset_append_of_subset_left _ h, List.subset_append_right _ _⟩))

/-- **More names taken, more crashes.** -/
theorem harsher_checks (h : taken ⊆ taken') :
    Harsher (checks classes taken s) (checks classes taken' s) := by
  have htable : Harsher
      [passIf ((classes s).storage.table ∉ taken), passIf (columnNames (classes s)).Nodup]
      [passIf ((classes s).storage.table ∉ taken'), passIf (columnNames (classes s)).Nodup] :=
    .cons (harsher_notMem h _) (Harsher.refl _)
  have hafter : taken ++ [(classes s).storage.table] ⊆ taken' ++ [(classes s).storage.table] :=
    List.append_subset.mpr ⟨List.subset_append_of_subset_left _ h, List.subset_append_right _ _⟩
  have hlists : Harsher
      (listTablesChecks classes s (taken ++ [(classes s).storage.table]) (childFieldsOf (classes s)))
      (listTablesChecks classes s (taken' ++ [(classes s).storage.table]) (childFieldsOf (classes s))) :=
    harsher_listTablesChecks hafter _
  exact ((((((Harsher.refl _).append htable).append (.refl _)).append (.refl _)).append
    (.refl _)).append hlists).append (.refl _)

end Taken

/-! ## The calls are as their checks say -/

/-- The tables of the schemas that a schema references are built, and its own are not. -/
structure Ready (built : List (SchemaTables σ)) (s : σ) : Prop where
  names : ∀ x ∈ built, x.table.names = columnNames (classes x.schema)
  earlier : ∀ field ∈ (classes s).storage.references, (classes s).target field ≠ s →
    (classes s).target field ∈ built.map (·.schema)
  fresh : s ∉ built.map (·.schema)

section References

variable {classes} {built : List (SchemaTables σ)} {s : σ}

theorem says_getForeignKey (h : Ready classes built s) (field : String) (onDelete : OnDelete) :
    Says SetupError.isRefusal (getForeignKey classes built (classes s) field onDelete)
      [passIf (CanReference classes s field)] fun _ => True := by
  unfold getForeignKey
  cases hfield : (classes s).referenced field with
  | none =>
    have hcan : CanReference classes s field := by
      intro t ht
      rw [hfield] at ht
      cases ht
    exact .passed hcan trivial
  | some t =>
    dsimp only
    have hcan : CanReference classes s field ↔
        t ≠ s ∧ (classes t).storage.key ∈ columnNames (classes t) := by
      constructor
      · intro hall
        exact hall t hfield
      · intro ht u hu
        rw [hfield] at hu
        cases hu
        exact ht
    have htarget : field ∈ (classes s).storage.references ∧ (classes s).target field = t := by
      unfold SchemaClass.referenced at hfield
      split_ifs at hfield with hmem
      exact ⟨hmem, Option.some.inj hfield⟩
    cases hfind : built.find? (·.schema = t) with
    | none =>
      -- the schema is the one whose tables are being built
      have hself : t = s := by
        by_contra hne
        obtain ⟨x, hx, hschema⟩ :=
          List.mem_map.mp (h.earlier field htarget.1 (by rw [htarget.2]; exact hne))
        rw [htarget.2] at hschema
        exact absurd hschema (by simpa using List.find?_eq_none.mp hfind x hx)
      exact .failed (fun hall => (hcan.mp hall).1 hself) rfl
    | some x =>
      have hx := List.mem_of_find?_eq_some hfind
      have hschema : x.schema = t := by simpa using List.find?_some hfind
      have hother : t ≠ s := by
        rintro rfl
        exact h.fresh (hschema ▸ List.mem_map_of_mem hx)
      have hkey : (classes t).storage.key ∈ x.table.names ↔ CanReference classes s field := by
        rw [h.names x hx, hschema, hcan]
        exact ⟨fun hmem => ⟨hother, hmem⟩, And.right⟩
      rw [← passIf_congr hkey]
      exact (says_column x.table _).map fun _ _ => trivial

theorem says_columns (h : Ready classes built s) (kept : Fields) :
    Says SetupError.isRefusal (kept.mapM (getColumn classes built (classes s)))
      (kept.flatMap fun field => [passIf (CanReference classes s field.1)])
      fun columns => columns.map (·.name) = kept.map Prod.fst := by
  have hcolumn : ∀ field ∈ kept, Says SetupError.isRefusal (getColumn classes built (classes s) field)
      [passIf (CanReference classes s field.1)] fun column => column.name = field.1 := by
    intro field _
    unfold getColumn
    exact (says_getForeignKey h field.1 .setNull).bind_ok fun _ _ => rfl
  refine (Says.mapM hcolumn).mono fun columns hcolumns => ?_
  clear hcolumn
  induction hcolumns with
  | nil => rfl
  | cons hname _ ih => rw [List.map_cons, List.map_cons, hname, ih]

/-- **The child table of a list field.** -/
theorem says_getListTable (h : Ready classes built s) {table : Table}
    (htable : table.names = columnNames (classes s)) (taken : List String) (field : String) :
    Says SetupError.isRefusal (getListTable classes built (classes s) table taken field)
      (listTableChecks classes s taken field) fun listTable => listTableView (field, listTable) =
        (field, elementModelOf (classes s) field, childColumnNames (classes s) field) := by
  have hkey := says_column table (classes s).storage.key
  rw [htable] at hkey
  unfold getListTable listTableChecks
  refine (says_elementOf (classes s) field).bind fun element hmodel => ?_
  cases hnested : element.findNestedModel with
  | some nested =>
    have hfields : elementModelOf (classes s) field = some nested.2 := by
      rw [hmodel, hnested]
      rfl
    rw [hfields]
    refine hkey.bind fun key _ => ?_
    refine (says_defineChild (c := classes s) ?_).bind_ok fun child hchild => ?_
    · simp [childColumnNames, hfields, parentColumnOf]
    · rw [← hchild]
      rfl
  | none =>
    have hfields : elementModelOf (classes s) field = none := by
      rw [hmodel, hnested]
      rfl
    rw [hfields]
    refine (says_getForeignKey h field .cascade).bind fun foreignKey _ => ?_
    refine hkey.bind fun key _ => ?_
    refine (says_defineChild (c := classes s) ?_).bind_ok fun child hchild => ?_
    · simp [childColumnNames, hfields, parentColumnOf]
    · rw [← hchild]
      rfl

/-- **The child tables of list fields.** -/
theorem says_getListTables (h : Ready classes built s) {table : Table}
    (htable : table.names = columnNames (classes s)) (taken fields : List String) :
    Says SetupError.isRefusal (getListTables classes built (classes s) table taken fields)
      (listTablesChecks classes s taken fields) (ListTablesOf (classes s) fields) := by
  induction fields generalizing taken with
  | nil => exact .ok rfl
  | cons field fields ih =>
    refine (says_getListTable h htable taken field).bind fun listTable hview => ?_
    refine (ih (taken ++ [childTableName (classes s) field])).bind_ok fun listTables hviews => ?_
    unfold ListTablesOf
    rw [List.map_cons, List.map_cons, hview, hviews]

/-- **The tables of a schema are built as its checks say.** -/
theorem says_getTablesOf (h : Ready classes built s) (taken : List String) :
    Says SetupError.isRefusal (getTablesOf classes built taken s) (checks classes taken s) fun x =>
      x.1.schema = s ∧ x.1.table.names = columnNames (classes s) ∧
        x.2 = taken ++ tableNames (classes s) := by
  unfold getTablesOf checks
  simp only [List.append_assoc]
  refine (says_getChildFields (classes s)).bind fun childFields hchildFields => ?_
  subst hchildFields
  refine (says_columns h (keptFields (classes s))).bind fun columns hcolumns => ?_
  have hnames : (rowIdColumn :: columns).map (·.name) = columnNames (classes s) := by
    rw [List.map_cons, hcolumns]
    rfl
  have hdefine := says_defineTable taken (classes s).storage.table (rowIdColumn :: columns)
  rw [hnames] at hdefine
  refine hdefine.bind fun table htable => ?_
  refine (Says.foldlM (fun _ htable fields _ => says_addUnique htable fields) htable).bind
    fun table htable => ?_
  refine (Says.foldlM (fun _ htable fields _ => says_addIndex htable fields) htable).bind
    fun table htable => ?_
  refine (says_addExpiry htable).bind fun table htable => ?_
  refine (says_getListTables h htable (taken ++ [(classes s).storage.table]) _).bind
    fun listTables hlists => ?_
  exact (Says.foldlM (fun _ hlists fields _ => says_addElementIndex hlists fields) hlists).bind_ok
    fun _ _ => ⟨rfl, htable, rfl⟩

end References

end Mss.Setup
