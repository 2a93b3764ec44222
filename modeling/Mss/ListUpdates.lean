import Mss.SqlWrites
import Mss.FilterAgreement

/-!
# Lists kept in child tables

A list of scalars that has a child table is a list: what updates make of it is what they make of a
plain list in MongoDB's terms, in the same order.

* `Positioned`, **`positioned_of_reached`**: the rows of a record's list stand in the order of their
  places, in every state the store reaches; `exists_listIs`: so they are those of a child table.
* `Changes.ofList`, **`ofList_translateUpdate`**: the changes of one list.
* `applyUpdate`: what an update makes of a plain list.
* `holds_writeChanges`: the list of a record after the changes are written.
* **`lists_refine`**: the lists read after any updates, whose elements are scalars of the list's type.
-/

namespace Mss

open Storage

namespace SqlStore

variable {database : SqlDatabase} {references : References} {tables : SchemaTables}
  {schema : Schema} {childFields : List String} {isoformat : ℤ → Option ℤ → String}

/-! ## Places -/

/-- **The states that a store reaches**: it inserts and deletes records, and changes them; and child
rows are deleted with the records they reference. -/
inductive Reached (isoformat : ℤ → Option ℤ → String) :
    SqlTables database references tables → Prop
  | empty : Reached isoformat empty
  | insert {s s' newId record} : Reached isoformat s →
      insertRecord isoformat s newId record = .ok s' → Reached isoformat s'
  | write {s s' key changes} : Reached isoformat s →
      writeChanges isoformat s key changes = .ok s' → Reached isoformat s'
  | delete {s s' test} : Reached isoformat s → deleteRows s test = .ok s' → Reached isoformat s'
  | cascade {s s' : SqlTables database references tables} : Reached isoformat s →
      (∀ field, (s'.childRows field).Sublist (s.childRows field)) → Reached isoformat s'

variable {field : String} {listTable : ListTable} {value : String} {type keyType : ColumnType}
  {s s' : SqlTables database references tables} {key : Value Scalar}

/-- **The rows of a record's list stand at growing places.** -/
structure Positioned (children : List Row) (parentColumn : String) : Prop where
  growing : children.Pairwise fun a b =>
    isChildOf (a parentColumn) (b parentColumn) = true → positionOf a < positionOf b
  nonneg : ∀ row ∈ children, 0 ≤ positionOf row

namespace Positioned

variable {children more : List Row} {parentColumn : String}

theorem sublist (h : Positioned children parentColumn) (hsub : more.Sublist children) :
    Positioned more parentColumn :=
  ⟨h.growing.sublist hsub, fun row hrow => h.nonneg row (hsub.subset hrow)⟩

theorem append (h : Positioned children parentColumn) (hmore : Positioned more parentColumn)
    (hafter : ∀ a ∈ children, ∀ b ∈ more,
      isChildOf (a parentColumn) (b parentColumn) = true → positionOf a < positionOf b) :
    Positioned (children ++ more) parentColumn := by
  refine ⟨List.pairwise_append.mpr ⟨h.growing, hmore.growing, hafter⟩, fun row hrow => ?_⟩
  obtain hrow | hrow := List.mem_append.mp hrow
  · exact h.nonneg row hrow
  · exact hmore.nonneg row hrow

end Positioned

theorem elementRow_columns (hscalar : ScalarList tables field listTable value type keyType)
    (dialect : SqlDialect) (element : PyValue) (place : ℤ) :
    (elementRow dialect listTable key element place) listTable.parentColumn = key ∧
      positionOf (elementRow dialect listTable key element place) = place := by
  have hnodup := hscalar.nodup
  simp only [List.nodup_cons, List.mem_cons, List.not_mem_nil, or_false, not_or] at hnodup
  obtain ⟨⟨hvalue, hplace⟩, hvalue', -⟩ := hnodup
  simp only [elementRow, hscalar.valueColumn, Option.getD_some]
  constructor
  · simp [rowOf, Value.get]
  · simp [rowOf, positionOf, Value.get, List.lookup_cons, beq_false_of_ne (Ne.symm hplace),
      beq_false_of_ne (Ne.symm hvalue')]

theorem positioned_elementRows (hscalar : ScalarList tables field listTable value type keyType)
    (dialect : SqlDialect) (elements : List PyValue) :
    Positioned (elements.zipIdx.map fun element =>
      elementRow dialect listTable key element.1 element.2) listTable.parentColumn := by
  constructor
  · rw [List.pairwise_map]
    have hindex : elements.zipIdx.Pairwise fun x y => x.2 < y.2 := by
      have hrange : (elements.zipIdx.map Prod.snd).Pairwise (· < ·) := by
        rw [List.zipIdx_map_snd]
        exact List.pairwise_lt_range'
      exact List.pairwise_map.mp hrange
    refine hindex.imp fun {x y} hlt _ => ?_
    rw [(elementRow_columns hscalar dialect x.1 x.2).2, (elementRow_columns hscalar dialect y.1 y.2).2]
    exact Int.ofNat_lt.mpr hlt
  · intro row hrow
    obtain ⟨x, _, rfl⟩ := List.mem_map.mp hrow
    rw [(elementRow_columns hscalar dialect x.1 x.2).2]
    exact Int.natCast_nonneg _

theorem lt_nextPlace {children : List Row} {row : Row} (h : row ∈ children) :
    positionOf row < nextPlace children := by
  have hmem : positionOf row ∈ children.map positionOf := List.mem_map_of_mem h
  unfold nextPlace
  cases hmax : (children.map positionOf).max? with
  | none =>
    rw [List.max?_eq_none_iff] at hmax
    rw [hmax] at hmem
    cases hmem
  | some m => exact Int.lt_add_one_of_le ((List.max?_eq_some_iff.mp hmax).2 _ hmem)

theorem nextPlace_nonneg {children : List Row} (h : ∀ row ∈ children, 0 ≤ positionOf row) :
    0 ≤ nextPlace children := by
  cases children with
  | nil => exact le_refl _
  | cons row rows => exact (h row List.mem_cons_self).trans (lt_nextPlace List.mem_cons_self).le

theorem positioned_insertChildren (hscalar : ScalarList tables field listTable value type keyType)
    (hpos : Positioned (s.childRows field) listTable.parentColumn)
    (hothers : ∀ child ∈ s.childRows field, isChildOf key (child listTable.parentColumn) = false)
    {elements : List PyValue} {children : List Row}
    (hchildren : getChildRows database.dialect isoformat listTable key elements = .ok children)
    (h : insertChildren s field children = .ok s') :
    Positioned (s'.childRows field) listTable.parentColumn := by
  have hrows : s'.childRows field = s.childRows field ++ children := by
    rw [raw_insertChildren h]
    exact Function.update_self _ _ _
  rw [getChildRows, hscalar.noModel] at hchildren
  cases hchildren
  rw [hrows]
  refine hpos.append (positioned_elementRows hscalar _ elements) fun a ha b hb hab => ?_
  obtain ⟨x, _, rfl⟩ := List.mem_map.mp hb
  rw [(elementRow_columns hscalar _ x.1 x.2).1, isChildOf_comm, hothers a ha] at hab
  cases hab

theorem childRows_deleteChildren {test : Row → Bool}
    (h : deleteChildren s field listTable key test = .ok s') :
    s'.childRows field = (s.childRows field).filter fun child =>
      !(isChildOf key (child listTable.parentColumn) && test child) := by
  rw [raw_deleteChildren h]
  exact Function.update_self _ _ _

theorem positioned_replaceList (hscalar : ScalarList tables field listTable value type keyType)
    (hpos : Positioned (s.childRows field) listTable.parentColumn)
    {replacement : String × List PyValue}
    (h : replaceList isoformat key s replacement = .ok s') :
    Positioned (s'.childRows field) listTable.parentColumn := by
  by_cases hname : field = replacement.1
  · subst hname
    obtain ⟨lt, hlookup, h⟩ := bind_ok h
    obtain rfl : listTable = lt :=
      Option.some.inj (hscalar.lookup.symm.trans (listTableOf_ok hlookup))
    obtain ⟨s₁, hdelete, h⟩ := bind_ok h
    have hrows := childRows_deleteChildren hdelete
    have herased : Positioned (s₁.childRows replacement.1) listTable.parentColumn := by
      rw [hrows]
      exact hpos.sublist List.filter_sublist
    split_ifs at h
    · cases h
      exact herased
    · obtain ⟨children, hchildren, h⟩ := bind_ok h
      refine positioned_insertChildren hscalar herased (fun child hchild => ?_)
        (mapError_ok hchildren) h
      rw [hrows] at hchild
      simpa using (List.mem_filter.mp hchild).2
  · rw [(onlyList_replaceList h).others field hname]
    exact hpos

theorem positioned_addElement (hscalar : ScalarList tables field listTable value type keyType)
    (hpos : Positioned (s.childRows field) listTable.parentColumn)
    {addition : String × PyValue} (h : addElement key s addition = .ok s') :
    Positioned (s'.childRows field) listTable.parentColumn := by
  by_cases hname : field = addition.1
  · subst hname
    obtain ⟨lt, hlookup, hinsert | ⟨rfl, _⟩⟩ := addElement_cases h
    · obtain rfl : listTable = lt := Option.some.inj (hscalar.lookup.symm.trans hlookup)
      have hrows : s'.childRows addition.1 = s.childRows addition.1 ++
          [addedRow s key addition.1 listTable addition.2] := by
        rw [raw_insertChildren hinsert]
        exact Function.update_self _ _ _
      have hcolumns : (addedRow s key addition.1 listTable addition.2) listTable.parentColumn = key ∧
          positionOf (addedRow s key addition.1 listTable addition.2) =
            nextPlace (childrenOf s addition.1 listTable key) :=
        elementRow_columns hscalar database.dialect addition.2 _
      obtain ⟨hparent, hplace⟩ := hcolumns
      rw [hrows]
      refine hpos.append ⟨List.pairwise_singleton _ _, fun row hrow => ?_⟩ fun a ha b hb hab => ?_
      · rw [List.mem_singleton] at hrow
        rw [hrow, hplace]
        exact nextPlace_nonneg fun row hrow => hpos.nonneg row (List.mem_filter.mp hrow).1
      · rw [List.mem_singleton] at hb
        rw [hb, hparent, isChildOf_comm] at hab
        rw [hb, hplace]
        exact lt_nextPlace (List.mem_filter.mpr ⟨ha, hab⟩)
    · exact hpos
  · rw [(onlyList_addElement h).others field hname]
    exact hpos

theorem positioned_removeElement (hscalar : ScalarList tables field listTable value type keyType)
    (hpos : Positioned (s.childRows field) listTable.parentColumn)
    {removal : String × PyValue} (h : removeElement key s removal = .ok s') :
    Positioned (s'.childRows field) listTable.parentColumn := by
  by_cases hname : field = removal.1
  · subst hname
    obtain ⟨lt, hlookup, h⟩ := bind_ok h
    rw [childRows_deleteChildren h]
    exact hpos.sublist List.filter_sublist
  · rw [(onlyList_removeElement h).others field hname]
    exact hpos

theorem positioned_writeLists (hscalar : ScalarList tables field listTable value type keyType)
    (hpos : Positioned (s.childRows field) listTable.parentColumn) {changes : Changes}
    (h : writeLists isoformat key changes s = .ok s') :
    Positioned (s'.childRows field) listTable.parentColumn := by
  obtain ⟨s₁, hreplacements, h⟩ := bind_ok h
  obtain ⟨s₂, hadditions, hremovals⟩ := bind_ok h
  refine foldlM_invariant (fun _ _ _ hstep hp => positioned_removeElement hscalar hp hstep)
    hremovals ?_
  refine foldlM_invariant (fun _ _ _ hstep hp => positioned_addElement hscalar hp hstep)
    hadditions ?_
  exact foldlM_invariant (fun _ _ _ hstep hp => positioned_replaceList hscalar hp hstep)
    hreplacements hpos

/-- **The parts of an update that is written**: its columns, then its lists. -/
theorem writeChanges_cases {key : PyValue} {changes : Changes}
    (h : writeChanges isoformat s key changes = .ok s') :
    ∃ s₁, writeValues (boundKey database.dialect tables key)
        (changes.values.filter fun change => change.1 != tables.schema.storage.key) s = .ok s₁ ∧
      writeLists isoformat (boundKey database.dialect tables key) changes s₁ = .ok s' := by
  simp only [writeChanges] at h
  split_ifs at h
  exact bind_ok h

theorem childRows_writeValues {values : List (String × ColumnChange)}
    (h : writeValues key values s = .ok s') : s'.childRows = s.childRows := by
  unfold writeValues at h
  split_ifs at h
  · cases h
    rfl
  · rw [toRaw_of_execute h]

theorem rows_writeLists {changes : Changes} (h : writeLists isoformat key changes s = .ok s') :
    s'.rows = s.rows := by
  obtain ⟨s₁, hreplacements, h⟩ := bind_ok h
  obtain ⟨s₂, hadditions, hremovals⟩ := bind_ok h
  have hstep {X : Type} {f : SqlTables database references tables → X →
      Except WriteError (SqlTables database references tables)}
      (hf : ∀ a x a', f a x = .ok a' → a'.rows = a.rows) {xs : List X}
      {a a' : SqlTables database references tables} (hfold : xs.foldlM f a = .ok a') :
      a'.rows = a.rows :=
    foldlM_invariant (p := fun b => b.rows = a.rows)
      (fun b x b' hb hrows => (hf b x b' hb).trans hrows) hfold rfl
  calc s'.rows = s₂.rows := hstep (fun _ _ _ hf => (onlyList_removeElement hf).rows) hremovals
    _ = s₁.rows := hstep (fun _ _ _ hf => (onlyList_addElement hf).rows) hadditions
    _ = s.rows := hstep (fun _ _ _ hf => (onlyList_replaceList hf).rows) hreplacements

theorem positioned_writeChanges (hscalar : ScalarList tables field listTable value type keyType)
    (hpos : Positioned (s.childRows field) listTable.parentColumn) {key : PyValue}
    {changes : Changes} (h : writeChanges isoformat s key changes = .ok s') :
    Positioned (s'.childRows field) listTable.parentColumn := by
  obtain ⟨s₁, hvalues, hlists⟩ := writeChanges_cases h
  exact positioned_writeLists hscalar (childRows_writeValues hvalues ▸ hpos) hlists

theorem onlyList_insertList {record : Record} {list : String × ListTable}
    (h : insertList isoformat record s list = .ok s') : OnlyList list.1 s s' := by
  obtain ⟨elements, _, h⟩ := bind_ok h
  split_ifs at h
  · cases h
    exact .refl _ _
  · obtain ⟨children, _, h⟩ := bind_ok h
    exact OnlyList.of_raw (raw_insertChildren h)

theorem positioned_insertLists (hof : tables.Of schema childFields)
    (hscalar : ScalarList tables field listTable value type keyType) {record : Record}
    {lists : List (String × ListTable)} (hmem : ∀ list ∈ lists, list ∈ tables.listTables)
    (hnodup : (lists.map Prod.fst).Nodup)
    (hpos : Positioned (s.childRows field) listTable.parentColumn)
    (hnone : field ∈ lists.map Prod.fst → ∀ child ∈ s.childRows field,
      isChildOf (boundKey database.dialect tables (record.get tables.schema.storage.key))
        (child listTable.parentColumn) = false)
    (h : lists.foldlM (insertList isoformat record) s = .ok s') :
    Positioned (s'.childRows field) listTable.parentColumn := by
  induction lists generalizing s with
  | nil =>
    cases h
    exact hpos
  | cons list lists ih =>
    rw [List.foldlM_cons] at h
    obtain ⟨s₁, hfirst, hrest⟩ := bind_ok h
    rw [List.map_cons, List.nodup_cons] at hnodup
    have hmem' := fun l hl => hmem l (List.mem_cons_of_mem _ hl)
    by_cases hname : list.1 = field
    · refine ih hmem' hnodup.2 ?_ (fun hin => absurd (hname ▸ hin) hnodup.1) hrest
      obtain ⟨elements, _, hfirst⟩ := bind_ok hfirst
      split_ifs at hfirst
      · cases hfirst
        exact hpos
      · obtain ⟨children, hchildren, hfirst⟩ := bind_ok hfirst
        rw [hname] at hfirst
        have htable : list.2 = listTable :=
          eq_of_name hof (hmem list List.mem_cons_self) (hname ▸ hscalar.lookup)
        rw [htable] at hchildren
        exact positioned_insertChildren hscalar hpos
          (hnone (by rw [List.map_cons, hname]; exact List.mem_cons_self))
          (mapError_ok hchildren) hfirst
    · have hsame := (onlyList_insertList hfirst).others field (Ne.symm hname)
      refine ih hmem' hnodup.2 (hsame ▸ hpos) (fun hin => ?_) hrest
      rw [hsame]
      exact hnone (List.mem_cons_of_mem _ hin)

/-- **A new record has no child rows before its lists are inserted**: those there are belong to the
records there are, and its key is another. -/
theorem positioned_insertRecord (hof : tables.Of schema childFields)
    (hscalar : ScalarList tables field listTable value type keyType)
    (hcolumn : tables.columns.lookup tables.schema.storage.key = some keyType)
    (htype : keyType ≠ .json) (hid : tables.schema.storage.key ≠ rowId)
    (hpos : Positioned (s.childRows field) listTable.parentColumn) {newId : String}
    {record : Record} (h : insertRecord isoformat s newId record = .ok s') :
    Positioned (s'.childRows field) listTable.parentColumn := by
  obtain ⟨s₁, hinsert, hlists⟩ := bind_ok h
  have hraw := toRaw_of_execute hinsert
  refine positioned_insertLists hof hscalar (fun _ hl => hl) hof.names (by rw [hraw]; exact hpos)
    (fun _ child hchild => ?_) hlists
  rw [← recordRow_key hof hcolumn htype hid (withId tables.schema newId record)
    (nextRowId s.rows), isChildOf_comm]
  rw [hraw] at hchild
  exact childRows_apart hinsert (mem_of_lookup hscalar.lookup) hchild

theorem sublist_deleteRows {test : Row → Bool} (h : deleteRows s test = .ok s') (field : String) :
    (s'.childRows field).Sublist (s.childRows field) := by
  rw [toRaw_of_execute h]
  dsimp only
  split
  · exact List.Sublist.refl _
  · exact List.filter_sublist

/-- **In every state that a store reaches, the rows of a list stand at growing places.** -/
theorem positioned_of_reached (hof : tables.Of schema childFields)
    (hscalar : ScalarList tables field listTable value type keyType)
    (hcolumn : tables.columns.lookup tables.schema.storage.key = some keyType)
    (htype : keyType ≠ .json) (hid : tables.schema.storage.key ≠ rowId)
    (h : Reached isoformat s) : Positioned (s.childRows field) listTable.parentColumn := by
  induction h with
  | empty => exact ⟨.nil, by simp [empty]⟩
  | insert _ hinsert ih => exact positioned_insertRecord hof hscalar hcolumn htype hid ih hinsert
  | write _ hwrite ih => exact positioned_writeChanges hscalar ih hwrite
  | delete _ hdelete ih => exact ih.sublist (sublist_deleteRows hdelete field)
  | cascade _ hsub ih => exact ih.sublist (hsub field)

/-- The scalar that a column holds. -/
def scalarOf : Value Scalar → Scalar
  | .scalar a => a
  | _ => .bool false

/-- The row of a child table that a row is. -/
def childRowOf (listTable : ListTable) (value : String) (row : Row) : ChildRow Scalar Scalar :=
  ⟨scalarOf (row listTable.parentColumn), scalarOf (row value), (positionOf row).toNat⟩

theorem eq_scalarOf {x : Value Scalar} (hfits : Fits type x) (htype : type ≠ .json)
    (hnull : isNullValue x = false) : x = .scalar (scalarOf x) := by
  obtain rfl | ⟨a, rfl, _⟩ := hfits.cases htype
  · cases hnull
  · rfl

/-- **The child rows of a list of scalars are those of a child table.** -/
theorem exists_listIs (hscalar : ScalarList tables field listTable value type keyType)
    (htype : type ≠ .json) (hkeyType : keyType ≠ .json)
    (hpos : Positioned (s.childRows field) listTable.parentColumn) :
    ∃ t, ListIs s field listTable value t := by
  have hmem := mem_of_lookup hscalar.lookup
  have hrow (row : Row) (hrow : row ∈ s.childRows field) :
      IsChildRow listTable value row (childRowOf listTable value row) := by
    have hcolumns := (s.typed.2 _ hmem row hrow).2
    have hnotNull := s.notNull.2 _ hmem row hrow
    simp only [hscalar.columns, hscalar.primaryKey, List.mem_cons, List.not_mem_nil, or_false,
      forall_eq_or_imp, forall_eq] at hcolumns hnotNull
    exact ⟨eq_scalarOf hcolumns.1.1 hkeyType hnotNull.1, eq_scalarOf hcolumns.2.1.1 htype hnotNull.2,
      (Int.toNat_of_nonneg (hpos.nonneg row hrow)).symm⟩
  have hrows : List.Forall₂ (IsChildRow listTable value) (s.childRows field)
      ((s.childRows field).map (childRowOf listTable value)) := by
    rw [List.forall₂_map_right_iff, List.forall₂_same]
    exact hrow
  refine ⟨⟨_, (pairwise_primaryKey hscalar hrows).mp (s.unique.2.2 _ hmem), ?_⟩, hrows⟩
  rw [List.pairwise_map]
  refine hpos.growing.imp_of_mem fun {a b} ha hb hlt heq => ?_
  have hparent : isChildOf (a listTable.parentColumn) (b listTable.parentColumn) = true := by
    rw [(hrow a ha).parent, (hrow b hb).parent, isChildOf_scalar]
    exact decide_eq_true heq
  exact (Int.toNat_lt_toNat (lt_of_le_of_lt (hpos.nonneg a ha) (hlt hparent))).mpr (hlt hparent)

/-! ## The changes of one list -/

/-- A change of a list, as SQL writes it. -/
inductive ListChange
  | replace (elements : List PyValue)
  | add (element : PyValue)
  | remove (element : PyValue)

/-- The entries of a field. -/
def entriesOf {A : Type} (field : String) (entries : List (String × A)) : List A :=
  (entries.filter fun entry => entry.1 = field).map Prod.snd

/-- The changes of a list, in the order they are written. -/
def ofList (changes : Changes) (field : String) : List ListChange :=
  (entriesOf field changes.listReplacements).map .replace ++
    (entriesOf field changes.listAdditions).map .add ++
    (entriesOf field changes.listRemovals).map .remove

/-- The changes of an operator, one after another. -/
def stepsOfOperator (entry : String × FieldChanges) : List (UpdateOperator × (String × PyValue)) :=
  match UpdateOperator.ofName entry.1 with
  | none => []
  | some operator => entry.2.map (Prod.mk operator)

/-- The changes of an update, one after another. -/
def stepsOf (update : Update) : List (UpdateOperator × (String × PyValue)) :=
  update.flatMap stepsOfOperator

/-- The changes that an update makes to a field. -/
def changesOfField (field : String) (update : Update) : List (UpdateOperator × PyValue) :=
  ((stepsOf update).filter fun step => step.2.1 = field).map fun step => (step.1, step.2.2)

/-- What SQL makes of a change of a list. -/
inductive IsListChange : UpdateOperator × PyValue → ListChange → Prop
  | set {v items} : iterate v = .ok items →
      IsListChange (.set, v) (.replace (items.map convertToColumnValue))
  | addToSet {v} : IsListChange (.addToSet, v) (.add (convertToColumnValue v))
  | pull {v} : IsListChange (.pull, v) (.remove (convertToColumnValue v))

theorem translateUpdate_eq (update : Update) :
    translateUpdate isoformat tables update = (stepsOf update).foldlM
      (fun changes step => translateChange isoformat tables step.1 changes step.2) {} := by
  have hgeneral (changes : Changes) : update.foldlM (translateChanges isoformat tables) changes =
      (stepsOf update).foldlM
        (fun changes step => translateChange isoformat tables step.1 changes step.2) changes := by
    induction update generalizing changes with
    | nil => rfl
    | cons entry update ih =>
      rw [List.foldlM_cons, stepsOf, List.flatMap_cons, List.foldlM_append]
      have hfirst : translateChanges isoformat tables changes entry =
          (stepsOfOperator entry).foldlM
            (fun changes step => translateChange isoformat tables step.1 changes step.2) changes := by
        unfold translateChanges stepsOfOperator
        cases UpdateOperator.ofName entry.1 with
        | none => rfl
        | some operator => rw [List.foldlM_map]
      rw [hfirst]
      exact bind_congr ih
  exact hgeneral {}

theorem entriesOf_append {A : Type} (field : String) (l m : List (String × A)) :
    entriesOf field (l ++ m) = entriesOf field l ++ entriesOf field m := by
  rw [entriesOf, List.filter_append, List.map_append]
  rfl

theorem entriesOf_singleton_self {A : Type} (field : String) (a : A) :
    entriesOf field [(field, a)] = [a] := by
  simp [entriesOf]

theorem entriesOf_singleton_ne {A : Type} {field name : String} (h : name ≠ field) (a : A) :
    entriesOf field [(name, a)] = [] := by
  simp [entriesOf, h]

theorem entriesOf_assign_ne {A : Type} {field name : String} (h : name ≠ field) (a : A)
    (entries : List (String × A)) :
    entriesOf field (assign name a entries) = entriesOf field entries := by
  have hmap (entries : List (String × A)) :
      entriesOf field (entries.map fun entry => if entry.1 = name then (name, a) else entry) =
        entriesOf field entries := by
    unfold entriesOf
    induction entries with
    | nil => rfl
    | cons entry entries ih =>
      rw [List.map_cons, List.filter_cons, List.filter_cons]
      by_cases hname : entry.1 = name
      · have hne : entry.1 ≠ field := hname ▸ h
        simpa only [hname, if_true, h, decide_false, Bool.false_eq_true, if_false] using ih
      · rw [if_neg hname]
        by_cases hfield : entry.1 = field
        · simp only [hfield, decide_true, if_true, List.map_cons, ih]
        · simpa only [hfield, decide_false, Bool.false_eq_true, if_false] using ih
  unfold assign
  split_ifs
  · exact hmap entries
  · rw [entriesOf_append, entriesOf_singleton_ne h, List.append_nil]

theorem entriesOf_assign_self {A : Type} {field : String} (a : A) {entries : List (String × A)}
    (h : entriesOf field entries = []) : entriesOf field (assign field a entries) = [a] := by
  have hnone : entries.lookup field = none := by
    refine List.lookup_eq_none_iff.mpr fun entry hentry => ?_
    rw [bne_iff_ne]
    rintro rfl
    have hmem : entry.2 ∈ entriesOf entry.1 entries :=
      List.mem_map_of_mem (List.mem_filter.mpr ⟨hentry, decide_eq_true rfl⟩)
    rw [h] at hmem
    cases hmem
  rw [assign, hnone, Option.isSome_none, if_neg Bool.false_ne_true, entriesOf_append, h,
    entriesOf_singleton_self]
  rfl

theorem getColumn_list (hscalar : ScalarList tables field listTable value type keyType) :
    ∃ e, getColumn tables field = .error e := by
  simp [getColumn, hscalar.lookup]

theorem convertToWrittenValue_list (hof : tables.Of schema childFields)
    (hscalar : ScalarList tables field listTable value type keyType) (v : PyValue) :
    ∃ e, convertToWrittenValue isoformat tables field v = .error e := by
  obtain ⟨e, he⟩ := getColumn_list hscalar
  have hjson : tables.jsonFields.contains field = false := by
    rw [Bool.eq_false_iff]
    intro hcontains
    have hcolumn := hof.jsonColumn field (by simpa using hcontains)
    by_cases hid : field = rowId
    · -- the column of that name holds numbers
      rw [hid, hof.columns_eq, List.lookup_cons_self] at hcolumn
      cases hcolumn
    · rw [hof.lookup_columns hid, if_pos (hof.lookup_listTables hscalar.lookup).1] at hcolumn
      cases hcolumn
  refine ⟨e, ?_⟩
  rw [convertToWrittenValue, hjson, he]
  rfl

/-- **What one change of an update does to the changes of a list.** -/
theorem ofList_translateChange (hof : tables.Of schema childFields)
    (hscalar : ScalarList tables field listTable value type keyType)
    {operator : UpdateOperator} {changes changes' : Changes} {change : String × PyValue}
    (h : translateChange isoformat tables operator changes change = .ok changes') :
    (change.1 ≠ field → ofList changes' field = ofList changes field) ∧
    (change.1 = field → ofList changes field = [] →
      ∃ c, IsListChange (operator, change.2) c ∧ ofList changes' field = [c]) := by
  obtain ⟨name, v⟩ := change
  have hempty : ofList changes field = [] → entriesOf field changes.listReplacements = [] ∧
      entriesOf field changes.listAdditions = [] ∧ entriesOf field changes.listRemovals = [] := by
    simp [ofList]
  -- a change of another field names no element of this one
  cases operator with
  | set =>
    simp only [translateChange] at h
    split_ifs at h with hlist
    · obtain ⟨items, hitems, h⟩ := bind_ok h
      cases h
      refine ⟨fun hne => ?_, ?_⟩
      · simp only [ofList, entriesOf_assign_ne hne]
      · rintro rfl hnone
        obtain ⟨h₁, h₂, h₃⟩ := hempty hnone
        refine ⟨_, .set hitems, ?_⟩
        simp only [ofList, entriesOf_assign_self _ h₁, h₂, h₃, List.map_nil, List.map_cons,
          List.append_nil]
    · obtain ⟨written, _, h⟩ := bind_ok h
      cases h
      refine ⟨fun _ => rfl, ?_⟩
      rintro rfl _
      exact absurd (by simp [hscalar.lookup]) hlist
  | setOnInsert =>
    obtain ⟨written, hwritten, h⟩ := bind_ok h
    cases h
    refine ⟨fun _ => rfl, ?_⟩
    rintro rfl _
    obtain ⟨e, he⟩ := convertToWrittenValue_list hof hscalar v
    cases hwritten.symm.trans he
  | inc =>
    obtain ⟨column, hcolumn, h⟩ := bind_ok h
    cases h
    refine ⟨fun _ => rfl, ?_⟩
    rintro rfl _
    obtain ⟨e, he⟩ := getColumn_list hscalar
    cases hcolumn.symm.trans he
  | addToSet =>
    obtain ⟨_, _, h⟩ := bind_ok h
    cases h
    refine ⟨fun hne => ?_, ?_⟩
    · simp only [ofList, entriesOf_append, entriesOf_singleton_ne hne, List.append_nil]
    · rintro rfl hnone
      obtain ⟨h₁, h₂, h₃⟩ := hempty hnone
      refine ⟨_, .addToSet, ?_⟩
      simp only [ofList, entriesOf_append, entriesOf_singleton_self, h₁, h₂, h₃, List.map_nil,
        List.nil_append, List.map_cons, List.append_nil]
  | pull =>
    obtain ⟨_, _, h⟩ := bind_ok h
    cases h
    refine ⟨fun hne => ?_, ?_⟩
    · simp only [ofList, entriesOf_append, entriesOf_singleton_ne hne, List.append_nil]
    · rintro rfl hnone
      obtain ⟨h₁, h₂, h₃⟩ := hempty hnone
      refine ⟨_, .pull, ?_⟩
      simp only [ofList, entriesOf_append, entriesOf_singleton_self, h₁, h₂, h₃, List.map_nil,
        List.nil_append, List.map_cons]

/-- **An update that changes a list at most once** is translated into that change of it. -/
theorem ofList_translateUpdate (hof : tables.Of schema childFields)
    (hscalar : ScalarList tables field listTable value type keyType) {update : Update}
    {changes : Changes} (honce : (changesOfField field update).length ≤ 1)
    (h : translateUpdate isoformat tables update = .ok changes) :
    List.Forall₂ IsListChange (changesOfField field update) (ofList changes field) := by
  rw [translateUpdate_eq] at h
  have hgeneral : ∀ (steps : List (UpdateOperator × (String × PyValue))) (before : Changes),
      ((steps.filter fun step => step.2.1 = field).map fun step => (step.1, step.2.2)).length +
        (ofList before field).length ≤ 1 →
      steps.foldlM (fun changes step => translateChange isoformat tables step.1 changes step.2)
        before = .ok changes →
      ∃ cs, List.Forall₂ IsListChange
        ((steps.filter fun step => step.2.1 = field).map fun step => (step.1, step.2.2)) cs ∧
        ofList changes field = ofList before field ++ cs := by
    intro steps
    induction steps with
    | nil =>
      rintro before _ hsteps
      cases hsteps
      exact ⟨[], .nil, (List.append_nil _).symm⟩
    | cons step steps ih =>
      intro before hlength hsteps
      rw [List.foldlM_cons] at hsteps
      obtain ⟨next, hfirst, hrest⟩ := bind_ok hsteps
      obtain ⟨hne, hself⟩ := ofList_translateChange hof hscalar hfirst
      by_cases hname : step.2.1 = field
      · simp only [List.filter_cons, hname, decide_true, if_true, List.map_cons,
          List.length_cons] at hlength ⊢
        have hnone : ofList before field = [] := List.length_eq_zero_iff.mp (by omega)
        obtain ⟨c, hc, hnext⟩ := hself hname hnone
        obtain ⟨cs, hcs, hchanges⟩ := ih next (by rw [hnext]; simpa [hnone] using hlength) hrest
        exact ⟨c :: cs, .cons hc hcs, by rw [hchanges, hnext, hnone]; rfl⟩
      · simp only [List.filter_cons, hname, decide_false, Bool.false_eq_true, if_false] at hlength ⊢
        obtain ⟨cs, hcs, hchanges⟩ := ih next (by rw [hne hname]; exact hlength) hrest
        exact ⟨cs, hcs, by rw [hchanges, hne hname]⟩
  have hnone : ofList {} field = [] := rfl
  obtain ⟨cs, hcs, hchanges⟩ := hgeneral _ {} (by rw [hnone]; exact honce) h
  rw [hchanges, hnone]
  exact hcs

/-! ## The list of a record -/

/-- **The record of a key is stored, and its list is this one.** -/
def Holds (s : SqlTables database references tables) (field : String) (listTable : ListTable)
    (value : String) (k : Scalar) (l : List (Option Scalar)) : Prop :=
  (∃ row ∈ s.rows, row tables.schema.storage.key = .scalar k) ∧
    ∃ t, ListIs s field listTable value t ∧ (t.elements k).map some = l

/-- A change that SQL writes as the database gets it: scalars, distinct where they are a list's, and
those added are of stored records where they are references; no NULL is there to be removed. -/
inductive Writes (dialect : SqlDialect) (isStored : Scalar → Prop) (type : ColumnType) :
    ListChange → ListWrite (Option Scalar) → Prop
  | replace {elements} {vs : List Scalar} :
      elements.map (dialect.store type) = vs.map .scalar → vs.Nodup →
      (∀ a ∈ vs, isStored a) →
      Writes dialect isStored type (.replace elements) (.set (vs.map some))
  | add {element a} : dialect.store type element = .scalar a → isStored a →
      Writes dialect isStored type (.add element) (.add (some a))
  | remove {element a} : dialect.store type element = .scalar a →
      Writes dialect isStored type (.remove element) (.pull (some a))
  | removeNull {element} : dialect.store type element = .null →
      Writes dialect isStored type (.remove element) (.pull none)

/-- A reference of the field is to a stored record. -/
def IsStored (references : References) (tables : SchemaTables) (field : String) (a : Scalar) : Prop :=
  field ∈ tables.schema.storage.references → references field (.scalar a) = true

section

variable {k : Scalar} {l : List (Option Scalar)}

theorem holds_of_onlyList {name : String} (h : OnlyList name s s') (hname : name ≠ field)
    (hs : Holds s field listTable value k l) : Holds s' field listTable value k l := by
  obtain ⟨hrow, t, hlist, hl⟩ := hs
  refine ⟨h.rows ▸ hrow, t, ?_, hl⟩
  rw [ListIs, h.others field (Ne.symm hname)]
  exact hlist

theorem holds_replaceList (hscalar : ScalarList tables field listTable value type keyType)
    {isStored : Scalar → Prop} {elements : List PyValue} {w : ListWrite (Option Scalar)}
    (hw : Writes database.dialect isStored type (.replace elements) w)
    (h : replaceList isoformat (.scalar k) s (field, elements) = .ok s')
    (hs : Holds s field listTable value k l) :
    Holds s' field listTable value k (w.apply l) := by
  obtain ⟨hrow, t, hlist, -⟩ := hs
  cases hw with
  | replace helements hvs _ =>
    refine ⟨(onlyList_replaceList h).rows ▸ hrow, _,
      listIs_replaceList hscalar hlist helements hvs h, ?_⟩
    rw [ChildTable.elements_replace, if_pos rfl]
    rfl

theorem holds_addElement (hof : tables.Of schema childFields)
    (hscalar : ScalarList tables field listTable value type keyType) {element : PyValue}
    {w : ListWrite (Option Scalar)}
    (hw : Writes database.dialect (IsStored references tables field) type (.add element) w)
    (h : addElement (.scalar k) s (field, element) = .ok s')
    (hs : Holds s field listTable value k l) :
    Holds s' field listTable value k (w.apply l) := by
  obtain ⟨hrow, t, hlist, rfl⟩ := hs
  cases hw with
  | add helement hstored =>
    refine ⟨(onlyList_addElement h).rows ▸ hrow, _,
      listIs_addElement hof hscalar hlist helement hrow hstored h, ?_⟩
    rw [ChildTable.elements_add, if_pos rfl]
    exact (ListWrite.apply_map (Option.some_injective _) _ (.add _)).symm

theorem childRows_removeNull (hscalar : ScalarList tables field listTable value type keyType)
    {key : Value Scalar} {element : PyValue} (hnull : database.dialect.store type element = .null)
    (h : removeElement key s (field, element) = .ok s') : s'.childRows field = s.childRows field := by
  obtain ⟨lt, hlookup, h⟩ := bind_ok h
  obtain rfl : listTable = lt :=
    Option.some.inj (hscalar.lookup.symm.trans (listTableOf_ok hlookup))
  rw [childRows_deleteChildren h]
  refine List.filter_eq_self.mpr fun row _ => ?_
  simp only [hscalar.valueColumn, Option.getD_some, hscalar.typeOf, hnull]
  cases row value <;> simp [isChildOf]

theorem holds_removeElement (hscalar : ScalarList tables field listTable value type keyType)
    {isStored : Scalar → Prop} {element : PyValue} {w : ListWrite (Option Scalar)}
    (hw : Writes database.dialect isStored type (.remove element) w)
    (h : removeElement (.scalar k) s (field, element) = .ok s')
    (hs : Holds s field listTable value k l) :
    Holds s' field listTable value k (w.apply l) := by
  obtain ⟨hrow, t, hlist, rfl⟩ := hs
  have hrow' := (onlyList_removeElement h).rows ▸ hrow
  cases hw with
  | remove helement =>
    refine ⟨hrow', _, listIs_removeElement hscalar hlist helement h, ?_⟩
    rw [ChildTable.elements_remove, if_pos rfl]
    exact (ListWrite.apply_map (Option.some_injective _) _ (.pull _)).symm
  | removeNull hnull =>
    refine ⟨hrow', t, ?_, (List.filter_eq_self.mpr fun a ha => ?_).symm⟩
    · rw [ListIs, childRows_removeNull hscalar hnull h]
      exact hlist
    · obtain ⟨b, _, rfl⟩ := List.mem_map.mp ha
      simp

/-- **A loop over the writes to lists** makes of one list what its own writes make of it. -/
theorem holds_foldlM {X : Type} {isStored : Scalar → Prop}
    {f : SqlTables database references tables → String × X →
      Except WriteError (SqlTables database references tables)} {toChange : X → ListChange}
    (honly : ∀ s x s', f s x = .ok s' → OnlyList x.1 s s')
    (hsame : ∀ s x s' w l, Writes database.dialect isStored type (toChange x) w →
      f s (field, x) = .ok s' → Holds s field listTable value k l →
      Holds s' field listTable value k (w.apply l))
    {xs : List (String × X)} {ws : List (ListWrite (Option Scalar))}
    (hws : List.Forall₂ (Writes database.dialect isStored type)
      ((entriesOf field xs).map toChange) ws)
    (h : xs.foldlM f s = .ok s') (hs : Holds s field listTable value k l) :
    Holds s' field listTable value k (ws.foldl ListWrite.apply l) := by
  induction xs generalizing s ws l with
  | nil =>
    cases h
    cases hws
    exact hs
  | cons x xs ih =>
    rw [List.foldlM_cons] at h
    obtain ⟨s₁, hfirst, hrest⟩ := bind_ok h
    obtain ⟨name, x⟩ := x
    by_cases hname : name = field
    · subst hname
      rw [show entriesOf name ((name, x) :: xs) = x :: entriesOf name xs by simp [entriesOf],
        List.map_cons] at hws
      cases hws with
      | cons hw hws =>
        rw [List.foldl_cons]
        exact ih hws hrest (hsame _ _ _ _ _ hw hfirst hs)
    · rw [show entriesOf field ((name, x) :: xs) = entriesOf field xs by
        simp [entriesOf, hname]] at hws
      exact ih hws hrest (holds_of_onlyList (honly _ _ _ hfirst) hname hs)

theorem forall₂_append_left {A B : Type} {R : A → B → Prop} {l₁ l₂ : List A} {m : List B}
    (h : List.Forall₂ R (l₁ ++ l₂) m) :
    ∃ m₁ m₂, m = m₁ ++ m₂ ∧ List.Forall₂ R l₁ m₁ ∧ List.Forall₂ R l₂ m₂ := by
  induction l₁ generalizing m with
  | nil => exact ⟨[], m, rfl, .nil, h⟩
  | cons a l₁ ih =>
    cases h with
    | cons hab htail =>
      obtain ⟨m₁, m₂, rfl, h₁, h₂⟩ := ih htail
      exact ⟨_ :: m₁, m₂, rfl, .cons hab h₁, h₂⟩

/-- **The list of a record after its lists are written.** -/
theorem holds_writeLists (hof : tables.Of schema childFields)
    (hscalar : ScalarList tables field listTable value type keyType) {changes : Changes}
    {ws : List (ListWrite (Option Scalar))}
    (hws : List.Forall₂ (Writes database.dialect (IsStored references tables field) type)
      (ofList changes field) ws)
    (h : writeLists isoformat (.scalar k) changes s = .ok s')
    (hs : Holds s field listTable value k l) :
    Holds s' field listTable value k (ws.foldl ListWrite.apply l) := by
  obtain ⟨s₁, hreplacements, h⟩ := bind_ok h
  obtain ⟨s₂, hadditions, hremovals⟩ := bind_ok h
  obtain ⟨ws₁₂, ws₃, rfl, hws₁₂, hws₃⟩ := forall₂_append_left hws
  obtain ⟨ws₁, ws₂, rfl, hws₁, hws₂⟩ := forall₂_append_left hws₁₂
  rw [List.foldl_append, List.foldl_append]
  refine holds_foldlM (fun _ _ _ h => onlyList_removeElement h)
    (fun _ _ _ _ _ hw h hs => holds_removeElement hscalar hw h hs) hws₃ hremovals ?_
  refine holds_foldlM (fun _ _ _ h => onlyList_addElement h)
    (fun _ _ _ _ _ hw h hs => holds_addElement hof hscalar hw h hs) hws₂ hadditions ?_
  exact holds_foldlM (fun _ _ _ h => onlyList_replaceList h)
    (fun _ _ _ _ _ hw h hs => holds_replaceList hscalar hw h hs) hws₁ hreplacements hs

theorem holds_writeValues {key : Value Scalar} {values : List (String × ColumnChange)}
    (hkey : values.lookup tables.schema.storage.key = none)
    (h : writeValues key values s = .ok s') (hs : Holds s field listTable value k l) :
    Holds s' field listTable value k l := by
  unfold writeValues at h
  split_ifs at h
  · cases h
    exact hs
  · have hraw := toRaw_of_execute h
    obtain ⟨⟨row, hrow, hk⟩, t, hlist, hl⟩ := hs
    refine ⟨?_, t, ?_, hl⟩
    · rw [hraw]
      refine ⟨_, List.mem_map_of_mem hrow, ?_⟩
      split_ifs
      · rw [changedRow, hkey]
        exact hk
      · exact hk
    · rw [ListIs, hraw]
      exact hlist

/-- **The list of a record after an update is written.** -/
theorem holds_writeChanges (hof : tables.Of schema childFields)
    (hscalar : ScalarList tables field listTable value type keyType) {key : PyValue}
    (hkey : boundKey database.dialect tables key = .scalar k) {changes : Changes}
    {ws : List (ListWrite (Option Scalar))}
    (hws : List.Forall₂ (Writes database.dialect (IsStored references tables field) type)
      (ofList changes field) ws)
    (h : writeChanges isoformat s key changes = .ok s')
    (hs : Holds s field listTable value k l) :
    Holds s' field listTable value k (ws.foldl ListWrite.apply l) := by
  obtain ⟨s₁, hvalues, hlists⟩ := writeChanges_cases h
  rw [hkey] at hvalues hlists
  refine holds_writeLists hof hscalar hws hlists (holds_writeValues ?_ hvalues hs)
  rw [lookup_filter (fun name => name != tables.schema.storage.key)]
  simp

end

/-! ## Updates of a plain list -/

/-- The element that a value is: a scalar, or null. -/
def elementOf (type : ColumnType) : PyValue → Option Scalar
  | .scalar s => some (s.toScalar.asType type)
  | _ => none

/-- A change of a list in MongoDB's terms. -/
def writeOf (type : ColumnType) : UpdateOperator × PyValue → Option (ListWrite (Option Scalar))
  | (.set, v) => some (.set (v.items.map (elementOf type)))
  | (.addToSet, v) => some (.add (elementOf type v))
  | (.pull, v) => some (.pull (elementOf type v))
  | _ => none

/-- **What an update makes of a plain list**: `$set` replaces it, `$addToSet` appends what is absent,
`$pull` removes every equal element. -/
def applyUpdate (type : ColumnType) (field : String) (l : List (Option Scalar)) (update : Update) :
    List (Option Scalar) :=
  ((changesOfField field update).filterMap (writeOf type)).foldl ListWrite.apply l

/-- The elements that a change names. -/
def operandsOf : UpdateOperator × PyValue → List PyValue
  | (.set, v) => v.items
  | (_, v) => [v]

/-- **The updates in question**: each changes the list at most once, sets it to distinct elements, and
refers to stored records. -/
structure IsListUpdate (references : References) (tables : SchemaTables) (field : String)
    (type : ColumnType) (update : Update) : Prop where
  once : (changesOfField field update).length ≤ 1
  distinct : ∀ change ∈ changesOfField field update, change.1 = .set →
    ((operandsOf change).map (elementOf type)).Nodup
  stored : ∀ change ∈ changesOfField field update, change.1 ≠ .pull →
    ∀ v ∈ operandsOf change, ∀ a ∈ elementOf type v, IsStored references tables field a

/-- Whether a value is a scalar of the list's type, which the database gets as it is. -/
def isOwnElement (dialect : SqlDialect) (type : ColumnType) : PyValue → Bool
  | .scalar s => (s.toScalar.asType type).kind == type && isKept dialect (.scalar s)
  | _ => false

/-- Whether it is a list, a tuple or a set. -/
def PyValue.isSequence : PyValue → Bool
  | .sequence _ _ => true
  | _ => false

/-- **Whether a change names scalars of the list's type**: a list is set to a list of them, and what
is removed may be None too. -/
def namesOwnElements (dialect : SqlDialect) (type : ColumnType) : UpdateOperator × PyValue → Bool
  | (.set, v) => PyValue.isSequence v && v.items.all (isOwnElement dialect type)
  | (.pull, v) => v.isNone || isOwnElement dialect type v
  | (_, v) => isOwnElement dialect type v

/-- **Whether every change of the list names scalars of its type.** -/
def hasOwnElements (dialect : SqlDialect) (type : ColumnType) (field : String) (update : Update) :
    Bool :=
  (changesOfField field update).all (namesOwnElements dialect type)

theorem store_of_isOwnElement {dialect : SqlDialect} {v : PyValue}
    (h : isOwnElement dialect type v = true) :
    ∃ a, elementOf type v = some a ∧ a.kind = type ∧
      dialect.store type (convertToColumnValue v) = .scalar a := by
  cases v with
  | scalar s =>
    obtain ⟨hkind, hkept⟩ := Bool.and_eq_true_iff.mp h
    refine ⟨s.toScalar.asType type, rfl, by simpa using hkind, ?_⟩
    rw [convertToColumnValue, SqlDialect.store, SqlDialect.bindAs, bind_convert hkept]
  | none | sequence | dict => cases h

theorem store_items {dialect : SqlDialect} {items : List PyValue}
    (h : ∀ v ∈ items, isOwnElement dialect type v = true) :
    ∃ vs : List Scalar, items.map (elementOf type) = vs.map some ∧
      (items.map convertToColumnValue).map (dialect.store type) = vs.map .scalar := by
  induction items with
  | nil => exact ⟨[], rfl, rfl⟩
  | cons v items ih =>
    obtain ⟨hv, hitems⟩ := List.forall_mem_cons.mp h
    obtain ⟨a, ha, -, hstore⟩ := store_of_isOwnElement hv
    obtain ⟨vs, hvs, hstores⟩ := ih hitems
    refine ⟨a :: vs, ?_, ?_⟩
    · rw [List.map_cons, List.map_cons, ha, hvs]
    · rw [List.map_cons, List.map_cons, List.map_cons, hstore, hstores]

/-- **A change of a list is written as it is meant.** -/
theorem writes_of_own {isStored : Scalar → Prop} {dialect : SqlDialect}
    {change : UpdateOperator × PyValue} {c : ListChange} (hc : IsListChange change c)
    (hown : namesOwnElements dialect type change = true)
    (hdistinct : change.1 = .set → ((operandsOf change).map (elementOf type)).Nodup)
    (hstored : change.1 ≠ .pull →
      ∀ v ∈ operandsOf change, ∀ a ∈ elementOf type v, isStored a) :
    ∃ w, Writes dialect isStored type c w ∧ writeOf type change = some w := by
  cases hc with
  | @set v items hitems =>
    obtain ⟨hsequence, hown⟩ := Bool.and_eq_true_iff.mp hown
    cases v with
    | sequence t is =>
      obtain rfl : is = items := Except.ok.inj hitems
      obtain ⟨vs, hvs, hstores⟩ := store_items (List.all_eq_true.mp hown)
      have hnodup : vs.Nodup := List.Nodup.of_map some (hvs ▸ hdistinct rfl)
      have hin (a : Scalar) (ha : a ∈ vs) : isStored a := by
        have hmem : some a ∈ is.map (elementOf type) := hvs ▸ List.mem_map_of_mem ha
        obtain ⟨v, hv, hva⟩ := List.mem_map.mp hmem
        exact hstored (fun h => by cases h) v hv a hva
      exact ⟨_, .replace hstores hnodup hin, congrArg (fun l => some (ListWrite.set l)) hvs⟩
    | none | scalar _ | dict _ => cases hsequence
  | @addToSet v =>
    obtain ⟨a, ha, -, hstore⟩ := store_of_isOwnElement hown
    have hin := hstored (fun h => by cases h) v List.mem_cons_self a ha
    exact ⟨_, .add hstore hin, congrArg (fun x => some (ListWrite.add x)) ha⟩
  | @pull v =>
    obtain hnone | hown := Bool.or_eq_true_iff.mp hown
    · cases v with
      | none => exact ⟨_, .removeNull rfl, rfl⟩
      | scalar _ | sequence _ _ | dict _ => cases hnone
    · obtain ⟨a, ha, -, hstore⟩ := store_of_isOwnElement hown
      exact ⟨_, .remove hstore, congrArg (fun x => some (ListWrite.pull x)) ha⟩

theorem writes_of_hasOwnElements {dialect : SqlDialect} {change : Update} {cs : List ListChange}
    (hcs : List.Forall₂ IsListChange (changesOfField field change) cs)
    (hupdate : IsListUpdate references tables field type change)
    (hown : hasOwnElements dialect type field change = true) :
    ∃ ws, List.Forall₂ (Writes dialect (IsStored references tables field) type) cs ws ∧
      (changesOfField field change).filterMap (writeOf type) = ws := by
  have hgeneral : ∀ (steps : List (UpdateOperator × PyValue)) (cs : List ListChange),
      (∀ c ∈ steps, c ∈ changesOfField field change) → List.Forall₂ IsListChange steps cs →
      ∃ ws, List.Forall₂ (Writes dialect (IsStored references tables field) type) cs ws ∧
        steps.filterMap (writeOf type) = ws := by
    intro steps cs hmem hall
    induction hall with
    | nil => exact ⟨[], .nil, rfl⟩
    | @cons c lc steps cs hc _ ih =>
      obtain ⟨hin, hrest⟩ := List.forall_mem_cons.mp hmem
      obtain ⟨ws, hws, hfilter⟩ := ih hrest
      obtain ⟨w, hw, hwrite⟩ := writes_of_own hc (List.all_eq_true.mp hown c hin)
        (hupdate.distinct c hin) (hupdate.stored c hin)
      exact ⟨w :: ws, .cons hw hws, by rw [List.filterMap_cons_some hwrite, hfilter]⟩
  exact hgeneral _ _ (fun _ hc => hc) hcs

/-! ## Runs -/

section

variable {k : Scalar} {l : List (Option Scalar)}

theorem holds_update (hof : tables.Of schema childFields)
    (hscalar : ScalarList tables field listTable value type keyType) {key : PyValue}
    (hkey : boundKey database.dialect tables key = .scalar k) {change : Update}
    (hupdate : IsListUpdate references tables field type change)
    (hown : hasOwnElements database.dialect type field change = true)
    (h : update isoformat key s change = .ok s') (hs : Holds s field listTable value k l) :
    Holds s' field listTable value k (applyUpdate type field l change) := by
  obtain ⟨changes, hchanges, h⟩ := bind_ok h
  have htranslated := ofList_translateUpdate hof hscalar hupdate.once (mapError_ok hchanges)
  obtain ⟨ws, hws, hfilter⟩ := writes_of_hasOwnElements htranslated hupdate hown
  rw [applyUpdate, hfilter]
  exact holds_writeChanges hof hscalar hkey hws h hs

theorem holds_updates (hof : tables.Of schema childFields)
    (hscalar : ScalarList tables field listTable value type keyType) {key : PyValue}
    (hkey : boundKey database.dialect tables key = .scalar k) {updates : List Update}
    (hupdates : ∀ change ∈ updates, IsListUpdate references tables field type change ∧
      hasOwnElements database.dialect type field change = true)
    (h : updates.foldlM (update isoformat key) s = .ok s')
    (hs : Holds s field listTable value k l) :
    Holds s' field listTable value k (updates.foldl (applyUpdate type field) l) := by
  induction updates generalizing s l with
  | nil =>
    cases h
    exact hs
  | cons change updates ih =>
    rw [List.foldlM_cons] at h
    obtain ⟨s₁, hfirst, hrest⟩ := bind_ok h
    obtain ⟨⟨hupdate, hown⟩, hupdates⟩ := List.forall_mem_cons.mp hupdates
    rw [List.foldl_cons]
    exact ih hupdates hrest (holds_update hof hscalar hkey hupdate hown hfirst hs)

/-! ## Updates that are written -/

/-- What an update of one list is translated into. -/
def onlyChange (field : String) : ListChange → Changes
  | .replace elements => { listReplacements := [(field, elements)] }
  | .add element => { listAdditions := [(field, element)] }
  | .remove element => { listRemovals := [(field, element)] }

/-- **An update that changes nothing but a list**, with numbers of 64 bits. -/
structure ChangesOnlyList (field : String) (type : ColumnType) (update : Update) : Prop where
  only : ∀ step ∈ stepsOf update, step.2.1 = field ∧
    (step.1 = .set ∨ step.1 = .addToSet ∨ step.1 = .pull)
  inRange : ∀ change ∈ changesOfField field update, ∀ v ∈ operandsOf change, ∀ a ∈ elementOf type v,
    inRange (.scalar a) = true

/-- The elements that an update names. -/
def elementsNamed (field : String) (update : Update) : List PyValue :=
  (changesOfField field update).flatMap operandsOf

variable (isoformat) in
theorem translateChange_list (hscalar : ScalarList tables field listTable value type keyType)
    {dialect : SqlDialect} {change : UpdateOperator × PyValue}
    (hoperator : change.1 = .set ∨ change.1 = .addToSet ∨ change.1 = .pull)
    (hown : namesOwnElements dialect type change = true) :
    ∃ c, IsListChange change c ∧ translateChange isoformat tables change.1 {} (field, change.2) =
      .ok (onlyChange field c) := by
  have htable : getScalarListTable tables field = .ok listTable := by
    rw [getScalarListTable, hscalar.lookup]
    simp [hscalar.noModel]
  obtain ⟨operator, v⟩ := change
  obtain rfl | rfl | rfl := hoperator
  · cases v with
    | sequence t items =>
      refine ⟨_, @IsListChange.set _ items rfl, ?_⟩
      rw [translateChange, if_pos (by simp [hscalar.lookup])]
      rfl
    | none | scalar _ | dict _ => cases hown
  · refine ⟨_, .addToSet, ?_⟩
    rw [translateChange, htable]
    rfl
  · refine ⟨_, .pull, ?_⟩
    rw [translateChange, htable]
    rfl

/-- What the columns take of a new element. -/
def IsTaken (references : References) (tables : SchemaTables) (field : String) (type : ColumnType)
    (a : Scalar) : Prop :=
  IsStored references tables field a ∧ a.kind = type ∧ inRange (.scalar a) = true

theorem taken_key (hcolumn : (tables.schema.storage.key, keyType) ∈ tables.columns)
    (hrow : ∃ row ∈ s.rows, row tables.schema.storage.key = .scalar k) :
    Fits keyType (.scalar k) ∧ inRange (.scalar k) = true := by
  obtain ⟨row, hmem, hk⟩ := hrow
  have htyped := s.typed.1 row hmem _ hcolumn
  rwa [hk] at htyped

section

variable {t : ChildTable Scalar Scalar}

theorem listTableOf_eq (hscalar : ScalarList tables field listTable value type keyType) :
    listTableOf tables field = .ok listTable := by
  rw [listTableOf, hscalar.lookup]

theorem typedRow_elementRows (hscalar : ScalarList tables field listTable value type keyType)
    (hk : Fits keyType (.scalar k) ∧ inRange (.scalar k) = true) {elements : List PyValue}
    {vs : List Scalar} (helements : elements.map (database.dialect.store type) = vs.map .scalar)
    (htaken : ∀ a ∈ vs, IsTaken references tables field type a) (hlength : vs.length ≤ 2 ^ 31) :
    ∀ child ∈ elements.zipIdx.map fun element =>
      elementRow database.dialect listTable (.scalar k) element.1 element.2,
      TypedRow database listTable child := by
  intro child hchild
  obtain ⟨⟨element, place⟩, hmem, rfl⟩ := List.mem_map.mp hchild
  have hplace : place < elements.length := List.snd_lt_of_mem_zipIdx hmem
  have hsame : elements.length = vs.length := by simpa using congrArg List.length helements
  have hstore : database.dialect.store type element ∈ vs.map Value.scalar := by
    rw [← helements]
    exact List.mem_map_of_mem (List.fst_mem_of_mem_zipIdx hmem)
  obtain ⟨a, ha, hstore⟩ := List.mem_map.mp hstore
  obtain ⟨-, hkind, hrange⟩ := htaken a ha
  exact typedRow_elementRow hscalar hstore.symm hkind hrange hk.1 hk.2 (by omega)

variable (isoformat) in
theorem replaceList_ok (hof : tables.Of schema childFields)
    (hscalar : ScalarList tables field listTable value type keyType)
    (hcolumn : (tables.schema.storage.key, keyType) ∈ tables.columns)
    (hlist : ListIs s field listTable value t)
    (hrow : ∃ row ∈ s.rows, row tables.schema.storage.key = .scalar k) {elements : List PyValue}
    {vs : List Scalar} (helements : elements.map (database.dialect.store type) = vs.map .scalar)
    (hvs : vs.Nodup) (htaken : ∀ a ∈ vs, IsTaken references tables field type a)
    (hlength : vs.length ≤ 2 ^ 31) :
    ∃ s', replaceList isoformat (.scalar k) s (field, elements) = .ok s' := by
  obtain ⟨s₁, hdelete⟩ := deleteChildren_ok s field listTable (.scalar k) fun _ => true
  have herased : ListIs s₁ field listTable value (t.erase k) :=
    listIs_deleteChildren hlist (fun row r hr => by
      rw [Bool.and_true]
      exact hr.isChildOf_parent k) hdelete
  have hrow₁ : ∃ row ∈ s₁.rows, row tables.schema.storage.key = .scalar k := by
    rw [(OnlyList.of_raw (raw_deleteChildren hdelete)).rows]
    exact hrow
  obtain ⟨s', hinsert⟩ := insertChildren_ok hof hscalar herased
    (forall₂_elementRows hscalar helements k 0)
    (typedRow_elementRows hscalar (taken_key hcolumn hrow) helements htaken hlength) hrow₁
    (fun r hr => ChildTable.parent_listRows hr) (t.replace k vs hvs).primaryKey (fun href r hr => by
      obtain ⟨x, hx, rfl⟩ := List.mem_map.mp hr
      exact (htaken x.1 (List.fst_mem_of_mem_zipIdx hx)).1 href)
  simp only [replaceList, listTableOf_eq hscalar, hdelete, bind, Except.bind]
  split_ifs
  · exact ⟨s₁, rfl⟩
  · rw [getChildRows, hscalar.noModel]
    exact ⟨s', hinsert⟩

/-- **An element is added**, or it is there already. -/
theorem addElement_ok (hof : tables.Of schema childFields)
    (hscalar : ScalarList tables field listTable value type keyType)
    (hcolumn : (tables.schema.storage.key, keyType) ∈ tables.columns)
    (hlist : ListIs s field listTable value t)
    (hrow : ∃ row ∈ s.rows, row tables.schema.storage.key = .scalar k) {element : PyValue}
    {a : Scalar} (helement : database.dialect.store type element = .scalar a)
    (htaken : IsTaken references tables field type a) (hplace : t.nextPosition k < 2 ^ 31) :
    ∃ s', addElement (.scalar k) s (field, element) = .ok s' := by
  obtain ⟨hkfits, hkrange⟩ := taken_key hcolumn hrow
  have hadded : TypedRow database listTable (addedRow s (.scalar k) field listTable element) := by
    rw [addedRow, nextPlace_eq hlist]
    exact typedRow_elementRow hscalar helement htaken.2.1 htaken.2.2 hkfits hkrange hplace
  have hresult : addElement (.scalar k) s (field, element) = passOver s
      (insertChildren s field [addedRow s (.scalar k) field listTable element]) := by
    simp only [addElement, listTableOf_eq hscalar, bind, Except.bind]
    rfl
  rw [hresult]
  have hinserted : (withChildRows s field (s.childRows field ++
      [addedRow s (.scalar k) field listTable element])).Typed database tables :=
    typed_insert hof hscalar fun child hchild => List.mem_singleton.mp hchild ▸ hadded
  obtain ⟨s', hinsert⟩ | ⟨violation, hinsert⟩ := execute_of_typed references hinserted
  · exact ⟨s', by rw [insertChildren, hinsert]; rfl⟩
  · exact ⟨s, by rw [insertChildren, hinsert]; rfl⟩

theorem removeElement_ok (hscalar : ScalarList tables field listTable value type keyType)
    (key : Value Scalar) (s : SqlTables database references tables) (element : PyValue) :
    ∃ s', removeElement key s (field, element) = .ok s' := by
  simp only [removeElement, listTableOf_eq hscalar, bind, Except.bind]
  exact deleteChildren_ok s field listTable key _

variable (isoformat) in
/-- **A change of a list is written**, and the next place moves by its elements at most. -/
theorem writeLists_ok (hof : tables.Of schema childFields)
    (hscalar : ScalarList tables field listTable value type keyType)
    (hcolumn : (tables.schema.storage.key, keyType) ∈ tables.columns)
    (hlist : ListIs s field listTable value t)
    (hrow : ∃ row ∈ s.rows, row tables.schema.storage.key = .scalar k) {c : ListChange}
    {w : ListWrite (Option Scalar)}
    (hw : Writes database.dialect (IsTaken references tables field type) type c w)
    (hplaces : t.nextPosition k + w.size ≤ 2 ^ 31) :
    ∃ s', writeLists isoformat (.scalar k) (onlyChange field c) s = .ok s' ∧
      ∃ t', ListIs s' field listTable value t' ∧ t'.nextPosition k ≤ t.nextPosition k + w.size := by
  cases hw with
  | @replace elements vs helements hvs htaken =>
    have hsize : (ListWrite.set (vs.map some)).size = (ListWrite.set vs).size := List.length_map _
    have hlength : vs.length ≤ 2 ^ 31 := by
      rw [hsize, ListWrite.size] at hplaces
      omega
    obtain ⟨s', h⟩ := replaceList_ok isoformat hof hscalar hcolumn hlist hrow
      helements hvs htaken hlength
    refine ⟨s', by simp [writeLists, onlyChange, h], _,
      listIs_replaceList hscalar hlist helements hvs h, ?_⟩
    rw [hsize]
    exact t.nextPosition_write k (.set vs) hvs
  | @add element a helement htaken =>
    obtain ⟨s', h⟩ := addElement_ok hof hscalar hcolumn hlist hrow helement htaken
      (Nat.lt_of_succ_le hplaces)
    exact ⟨s', by simp [writeLists, onlyChange, h], _,
      listIs_addElement hof hscalar hlist helement hrow htaken.1 h,
      t.nextPosition_write k (.add a) trivial⟩
  | @remove element a helement =>
    obtain ⟨s', h⟩ := removeElement_ok hscalar (.scalar k) s element
    exact ⟨s', by simp [writeLists, onlyChange, h], _,
      listIs_removeElement hscalar hlist helement h, t.nextPosition_write k (.pull a) trivial⟩
  | @removeNull element hnull =>
    obtain ⟨s', h⟩ := removeElement_ok hscalar (.scalar k) s element
    refine ⟨s', by simp [writeLists, onlyChange, h], t, ?_, Nat.le_add_right _ _⟩
    rw [ListIs, childRows_removeNull hscalar hnull h]
    exact hlist

end

theorem kind_of_own {dialect : SqlDialect} {v : PyValue} (h : isOwnElement dialect type v = true)
    {a : Scalar} (ha : a ∈ elementOf type v) : a.kind = type := by
  obtain ⟨b, hb, hkind, -⟩ := store_of_isOwnElement h
  obtain rfl : b = a := Option.some.inj (hb.symm.trans ha)
  exact hkind

theorem own_operands {dialect : SqlDialect} {change : UpdateOperator × PyValue}
    (h : namesOwnElements dialect type change = true) (hpull : change.1 ≠ .pull) :
    ∀ v ∈ operandsOf change, isOwnElement dialect type v = true := by
  obtain ⟨operator, v⟩ := change
  cases operator with
  | pull => exact absurd rfl hpull
  | set => exact List.all_eq_true.mp (Bool.and_eq_true_iff.mp h).2
  | setOnInsert | inc | addToSet =>
    intro w hw
    rw [List.mem_singleton.mp hw]
    exact h

theorem size_writeOf {change : UpdateOperator × PyValue} {w : ListWrite (Option Scalar)}
    (h : writeOf type change = some w) : w.size ≤ (operandsOf change).length := by
  obtain ⟨operator, v⟩ := change
  cases operator with
  | set =>
    cases h
    exact (List.length_map _).le
  | addToSet =>
    cases h
    exact le_refl _
  | pull =>
    cases h
    exact Nat.zero_le _
  | setOnInsert | inc => cases h

theorem writeChanges_onlyChange (key : PyValue) (c : ListChange) :
    writeChanges isoformat s key (onlyChange field c) =
      writeLists isoformat (boundKey database.dialect tables key) (onlyChange field c) s := by
  cases c <;> rfl

variable (isoformat) in
/-- **An update of nothing but a list raises nothing.** -/
theorem update_ok (hof : tables.Of schema childFields)
    (hscalar : ScalarList tables field listTable value type keyType)
    (hcolumn : (tables.schema.storage.key, keyType) ∈ tables.columns) {key : PyValue}
    (hkey : boundKey database.dialect tables key = .scalar k) {change : Update}
    (hupdate : IsListUpdate references tables field type change)
    (hown : hasOwnElements database.dialect type field change = true)
    (honly : ChangesOnlyList field type change) (hs : Holds s field listTable value k l)
    (hplaces : nextPlace (childrenOf s field listTable (.scalar k)) +
      (elementsNamed field change).length ≤ 2 ^ 31) :
    ∃ s', update isoformat key s change = .ok s' ∧
      nextPlace (childrenOf s' field listTable (.scalar k)) ≤
        nextPlace (childrenOf s field listTable (.scalar k)) + (elementsNamed field change).length := by
  obtain ⟨hrow, t, hlist, -⟩ := hs
  rw [nextPlace_eq hlist] at hplaces ⊢
  have hsteps : changesOfField field change = (stepsOf change).map fun step => (step.1, step.2.2) := by
    rw [changesOfField, List.filter_eq_self.mpr]
    exact fun step hstep => decide_eq_true (honly.only step hstep).1
  have honce := hupdate.once
  rw [hsteps, List.length_map] at honce
  have htranslate := @translateUpdate_eq tables isoformat change
  cases hcase : stepsOf change with
  | nil =>
    rw [hcase] at htranslate
    refine ⟨s, ?_, by rw [nextPlace_eq hlist]; exact Int.le_add_of_nonneg_right (Int.natCast_nonneg _)⟩
    rw [update, htranslate]
    rfl
  | cons step steps =>
    obtain rfl : steps = [] := by
      rw [hcase, List.length_cons] at honce
      exact List.length_eq_zero_iff.mp (by omega)
    rw [hcase] at hsteps htranslate
    obtain ⟨hname, hoperator⟩ := honly.only step (hcase ▸ List.mem_cons_self)
    have hin : (step.1, step.2.2) ∈ changesOfField field change := hsteps ▸ List.mem_cons_self
    have hnames := List.all_eq_true.mp hown _ hin
    obtain ⟨c, hc, hchange⟩ := translateChange_list isoformat hscalar hoperator hnames
    obtain ⟨w, hw, hwrite⟩ := writes_of_own hc hnames (hupdate.distinct _ hin)
      fun hpull v hv a ha => (⟨hupdate.stored _ hin hpull v hv a ha,
        kind_of_own (own_operands hnames hpull v hv) ha, honly.inRange _ hin v hv a ha⟩ :
          IsTaken references tables field type a)
    have hsize : w.size ≤ (elementsNamed field change).length := by
      rw [elementsNamed, hsteps, List.map_cons, List.map_nil, List.flatMap_singleton]
      exact size_writeOf hwrite
    obtain ⟨s', hwritten, t', hlist', hplaces'⟩ := writeLists_ok isoformat hof hscalar
      hcolumn hlist hrow hw (by omega)
    refine ⟨s', ?_, ?_⟩
    · have hfirst : translateUpdate isoformat tables change = .ok (onlyChange field c) := by
        have hstep : step.2 = (field, step.2.2) := Prod.ext hname rfl
        rw [htranslate, List.foldlM_cons, hstep, hchange]
        rfl
      rw [update, hfirst]
      exact (writeChanges_onlyChange key c).trans (hkey ▸ hwritten)
    · rw [nextPlace_eq hlist']
      omega

/-- **Updates of nothing but a list raise nothing.** -/
theorem updates_ok (hof : tables.Of schema childFields)
    (hscalar : ScalarList tables field listTable value type keyType)
    (hcolumn : (tables.schema.storage.key, keyType) ∈ tables.columns) {key : PyValue}
    (hkey : boundKey database.dialect tables key = .scalar k) {updates : List Update}
    (hupdates : ∀ change ∈ updates, IsListUpdate references tables field type change ∧
      hasOwnElements database.dialect type field change = true ∧ ChangesOnlyList field type change)
    (hs : Holds s field listTable value k l)
    (hplaces : nextPlace (childrenOf s field listTable (.scalar k)) +
      (updates.flatMap (elementsNamed field)).length ≤ 2 ^ 31) :
    ∃ s', updates.foldlM (update isoformat key) s = .ok s' := by
  induction updates generalizing s l with
  | nil => exact ⟨s, rfl⟩
  | cons change updates ih =>
    obtain ⟨⟨hupdate, hown, honly⟩, hupdates⟩ := List.forall_mem_cons.mp hupdates
    rw [List.flatMap_cons, List.length_append] at hplaces
    obtain ⟨s₁, hfirst, hnext⟩ := update_ok isoformat hof hscalar hcolumn hkey hupdate
      hown honly hs (by omega)
    obtain ⟨s', hrest⟩ := ih hupdates (holds_update hof hscalar hkey hupdate hown hfirst hs) (by omega)
    refine ⟨s', ?_⟩
    rw [List.foldlM_cons, hfirst]
    exact hrest

end

end SqlStore

/-- The type of a list's elements. -/
def ListTable.elementType (listTable : ListTable) : ColumnType :=
  listTable.typeOf (listTable.valueColumn.getD "")

/-- What is read of an element. -/
def readElement : Option Scalar → Value Scalar
  | none => .null
  | some a => .scalar a

namespace SqlStore

variable {database : SqlDatabase} {references : References} {tables : SchemaTables}
  {schema : Schema}

/-- **Child tables refine lists**: after any updates of which none adds a NULL, or a scalar that the
list's column takes for another, what is read is what the updates make of the plain list, in its order
and without duplicates; and updates of nothing but the list raise nothing. -/
theorem lists_refine (isoformat : ℤ → Option ℤ → String) (htables : getTablesOf schema = some tables)
    (hid : schema.storage.key ≠ rowId)
    (hkeyType : tables.columns.lookup schema.storage.key ≠ some .json) {field : String}
    {listTable : ListTable} (hlookup : tables.listTables.lookup field = some listTable)
    (hmodel : listTable.elementModel = none) (htype : listTable.elementType ≠ .json)
    {s : SqlTables database references tables} (hreached : Reached isoformat s) {row : Row}
    (hrow : row ∈ s.rows) {key : PyValue}
    (hkey : boundKey database.dialect tables key = row schema.storage.key) {updates : List Update}
    (hupdates : ∀ change ∈ updates,
      IsListUpdate references tables field listTable.elementType change)
    (hown : ∀ change ∈ updates,
      hasOwnElements database.dialect listTable.elementType field change = true) :
    ∃ l : List (Option Scalar), s.stored.elementsOf row field listTable = l.map readElement ∧
      (∀ s', updates.foldlM (update isoformat key) s = .ok s' →
        (∃ row' ∈ s'.rows, row' schema.storage.key = row schema.storage.key) ∧
        ∀ row' ∈ s'.rows, row' schema.storage.key = row schema.storage.key →
          s'.stored.elementsOf row' field listTable =
            (updates.foldl (applyUpdate listTable.elementType field) l).map readElement ∧
          (s'.stored.elementsOf row' field listTable).Nodup) ∧
      ((∀ change ∈ updates, ChangesOnlyList field listTable.elementType change) →
        nextPlace (childrenOf s field listTable (row schema.storage.key)) +
          (updates.flatMap (elementsNamed field)).length ≤ 2 ^ 31 →
        ∃ s', updates.foldlM (update isoformat key) s = .ok s') := by
  obtain ⟨childFields, hof⟩ := getTablesOf_spec htables
  obtain rfl := hof.schema_eq
  obtain ⟨a, element, value, keyType, -, -, hcolumn, hscalar⟩ :=
    scalarList_of_lookup hof hlookup hmodel
  have helementType : getColumnType element = listTable.elementType := by
    rw [ListTable.elementType, hscalar.valueColumn]
    exact hscalar.typeOf.symm
  rw [helementType] at hscalar
  have hkeyType' : keyType ≠ .json := fun h => hkeyType (h ▸ hcolumn)
  have hkeyColumn := mem_of_lookup hcolumn
  obtain ⟨k, hk⟩ : ∃ k, row tables.schema.storage.key = .scalar k :=
    ⟨_, eq_scalarOf (s.typed.1 row hrow _ hkeyColumn).1 hkeyType' (s.notNull.1 row hrow)⟩
  rw [hk] at hkey ⊢
  have hread {s : SqlTables database references tables} {t : ChildTable Scalar Scalar}
      (hlist : ListIs s field listTable value t) {row : Row}
      (hk : row tables.schema.storage.key = .scalar k) :
      s.stored.elementsOf row field listTable =
        ((t.elements k).map some).map readElement := by
    rw [elementsOf_listIs hscalar hlist hk, List.map_map]
    rfl
  obtain ⟨t, hlist⟩ := exists_listIs hscalar htype hkeyType'
    (positioned_of_reached hof hscalar hcolumn hkeyType' hid hreached)
  have hs : Holds s field listTable value k ((t.elements k).map some) :=
    ⟨⟨row, hrow, hk⟩, t, hlist, rfl⟩
  refine ⟨_, hread hlist hk, fun s' hrun => ?_, fun honly hplaces => ?_⟩
  · obtain ⟨hrow', t', hlist', hl⟩ :=
      holds_updates hof hscalar hkey (fun change hin => ⟨hupdates change hin, hown change hin⟩)
        hrun hs
    refine ⟨hrow', fun row' _ hk' => ?_⟩
    rw [← hl, ← hread hlist' hk']
    refine ⟨rfl, ?_⟩
    rw [elementsOf_listIs hscalar hlist' hk']
    exact (t'.nodup_elements k).map fun _ _ h => Value.scalar.inj h
  · exact updates_ok hof hscalar hkeyColumn hkey
      (fun change hin => ⟨hupdates change hin, hown change hin, honly change hin⟩) hs hplaces

/-- A schema of pets with nicknames, some of them unknown. -/
def nicknamedSchema : Schema where
  name := "_Nicknamed"
  fields := [("id", .scalar .id), ("nicknames", .generic .list [.generic .union [.scalar .str, .noneType]])]
  allowsExtra := false
  storage := { table := "nicknamed", key := "id", indexedLists := ["nicknames"] }
  undotted := by decide
  expiresAt := by decide

/-- The tables of the pets with nicknames. -/
def nicknamedTables : SchemaTables := (getTablesOf nicknamedSchema).get (by decide +kernel)

/-- Texts are written without their times. -/
def anyFormat : ℤ → Option ℤ → String := fun _ _ => ""

/-- The key of the pet. -/
def petKey : PyValue := .scalar (.str "00000000000000000000000a")

/-- The store after its first record, with no nicknames. -/
def nicknamedStore : Except WriteError (SqlTables sqlite (fun _ _ => true) nicknamedTables) :=
  insertRecord anyFormat empty "" [("id", petKey), ("nicknames", .sequence .list [])]

/-- The tables after it. -/
def nicknamed : SqlTables sqlite (fun _ _ => true) nicknamedTables :=
  nicknamedStore.toOption.get (by decide +kernel)

/-- The table of the nicknames. -/
def nicknameTable : ListTable :=
  (nicknamedTables.listTables.lookup "nicknames").get (by decide +kernel)

/-- A nickname is added. -/
def addRex : List Update := [[("$addToSet", [("nicknames", .scalar (.str "rex"))])]]

/-- One that is not known is added. -/
def addUnknown : List Update := [[("$addToSet", [("nicknames", .none)])]]

/-- The tables after it was. -/
def afterUnknown : SqlTables sqlite (fun _ _ => true) nicknamedTables :=
  (addUnknown.foldlM (update anyFormat petKey) nicknamed).toOption.get (by decide +kernel)

theorem reached_nicknamed : Reached anyFormat nicknamed :=
  .insert .empty (eq_ok_of_toOption (by decide +kernel))

theorem isListUpdate_of_addToSet {references : References} {tables : SchemaTables} {field : String}
    {type : ColumnType} {v : PyValue}
    (h : ∀ a ∈ elementOf type v, IsStored references tables field a) :
    IsListUpdate references tables field type [("$addToSet", [(field, v)])] := by
  have hchanges : changesOfField field [("$addToSet", [(field, v)])] = [(.addToSet, v)] := by
    simp [changesOfField, stepsOf, stepsOfOperator, UpdateOperator.ofName, List.lookup_cons]
  constructor
  · rw [hchanges]
    exact le_refl _
  · rw [hchanges]
    simp
  · rw [hchanges]
    simpa [operandsOf] using h

theorem lists_refine_nicknames : ∃ l : List (Option Scalar), ∃ row ∈ nicknamed.rows,
    nicknamed.stored.elementsOf row "nicknames" nicknameTable = l.map readElement ∧
      ∀ s', addRex.foldlM (update anyFormat petKey) nicknamed = .ok s' → ∀ row' ∈ s'.rows,
        row' "id" = row "id" → s'.stored.elementsOf row' "nicknames" nicknameTable =
          (addRex.foldl (applyUpdate .string "nicknames") l).map readElement := by
  have hrow : ∃ row ∈ nicknamed.rows,
      isChildOf (boundKey .sqlite nicknamedTables petKey) (row "id") = true := by
    decide +kernel
  obtain ⟨row, hrow, hkey⟩ := hrow
  obtain ⟨l, hread, hrun, -⟩ := @lists_refine sqlite (fun _ _ => true) nicknamedTables nicknamedSchema
    anyFormat (Option.some_get _).symm (by decide) (by decide +kernel) "nicknames" nicknameTable
    (Option.some_get _).symm (by decide +kernel) (by decide +kernel) nicknamed reached_nicknamed row
    hrow petKey (eq_of_isChildOf hkey) addRex
    (fun change hin => List.mem_singleton.mp hin ▸ isListUpdate_of_addToSet fun _ _ _ => rfl)
    (by decide +kernel)
  exact ⟨l, row, hrow, hread, fun s' hs' row' hrow' hk => ((hrun s' hs').2 row' hrow' hk).1⟩

/-- None is added to a list whose elements may be None: the constraint of the column is taken to mean
that it is there already. -/
theorem unknown_not_added :
    getTablesOf nicknamedSchema = some nicknamedTables ∧ Reached anyFormat nicknamed ∧
      (∀ change ∈ addUnknown, checkUpdate nicknamedSchema change = .ok () ∧
        IsListUpdate (fun _ _ => true) nicknamedTables "nicknames" .string change) ∧
      addUnknown.foldlM (update anyFormat petKey) nicknamed = .ok afterUnknown ∧
      (∃ row ∈ nicknamed.rows, isChildOf (boundKey .sqlite nicknamedTables petKey) (row "id") ∧
        (nicknamed.stored.elementsOf row "nicknames" nicknameTable).length = 0) ∧
      (∃ row ∈ afterUnknown.rows, isChildOf (boundKey .sqlite nicknamedTables petKey) (row "id") ∧
        (afterUnknown.stored.elementsOf row "nicknames" nicknameTable).length = 0) ∧
      addUnknown.foldl (applyUpdate .string "nicknames") [] = [none] := by
  refine ⟨(Option.some_get _).symm, reached_nicknamed, fun change hin => ?_,
    eq_ok_of_toOption (by decide +kernel), by decide +kernel, by decide +kernel, by decide +kernel⟩
  rw [List.mem_singleton.mp hin]
  exact ⟨by decide +kernel, isListUpdate_of_addToSet fun _ _ _ => rfl⟩

end SqlStore

end Mss
