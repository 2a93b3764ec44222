import Mss.AddedElements
import Mss.Deletions
import Mss.ExpiringUpdates

/-!
# The records that an update of many changes

An update of many records finds them once, writes them key by key, reads them back under their keys
and counts those that differ. Each matched record is changed once, from what it held, and nothing
else is, also where the update changes what the filter reads.

* `ReadsKey`: how the keys of validated records stand to what is stored.
* `translateFilter_keys`: the filter of some keys.
* `ChildrenKept`: the lists of a record that a write of other records leaves.
* `columnChange`, **`updatedRow`**: what an update makes of a row.
* **`updates_matched`**: the rows, the other records and the count after an update of many.
-/

namespace Mss

open Storage

/-! ## Lists of other records -/

namespace SqlStore

section

variable {database : SqlDatabase} {references : References} {tables : SchemaTables}
  {childFields : List String} {isoformat : ℤ → Option ℤ → String} {k : Scalar} {key : Value Scalar}
  {s s' s'' : SqlTables database references tables}

/-- **The lists of the record of a key are as they were.** -/
def ChildrenKept (k : Scalar) (s s' : SqlTables database references tables) : Prop :=
  ∀ list ∈ tables.listTables,
    childrenOf s' list.1 list.2 (.scalar k) = childrenOf s list.1 list.2 (.scalar k)

namespace ChildrenKept

theorem refl (k : Scalar) (s : SqlTables database references tables) : ChildrenKept k s s :=
  fun _ _ => rfl

theorem trans (h : ChildrenKept k s s') (h' : ChildrenKept k s' s'') : ChildrenKept k s s'' :=
  fun list hlist => (h' list hlist).trans (h list hlist)

theorem of_onlyList (hof : tables.Of tables.schema childFields) {field : String}
    {listTable : ListTable} (hlookup : tables.listTables.lookup field = some listTable)
    (h : OnlyList field s s')
    (hsame : childrenOf s' field listTable (.scalar k) = childrenOf s field listTable (.scalar k)) :
    ChildrenKept k s s' := by
  rintro ⟨name, other⟩ hmem
  by_cases hname : name = field
  · subst hname
    rw [lookup_of_mem hof.names hmem] at hlookup
    cases hlookup
    exact hsame
  · simp only [childrenOf, h.others name hname]

end ChildrenKept

theorem isChildOf_ne {a b : Value Scalar} (h : a ≠ b) : isChildOf a b = false := by
  rw [← Bool.not_eq_true]
  exact fun heq => h (eq_of_isChildOf heq)

theorem childrenOf_deleteChildren {field : String} {listTable : ListTable} {test : Row → Bool}
    (hkey : key ≠ .scalar k) (h : deleteChildren s field listTable key test = .ok s') :
    childrenOf s' field listTable (.scalar k) = childrenOf s field listTable (.scalar k) := by
  rw [childrenOf, childrenOf, childRows_deleteChildren h, List.filter_filter]
  refine List.filter_congr fun child _ => ?_
  cases hchild : isChildOf (.scalar k) (child listTable.parentColumn) with
  | false => rfl
  | true =>
    have hother : isChildOf key (child listTable.parentColumn) = false := by
      rw [← eq_of_isChildOf hchild]
      exact isChildOf_ne hkey
    rw [hother, Bool.false_and, Bool.not_false, Bool.true_and]

theorem childrenOf_insertChildren {field : String} {listTable : ListTable} {children : List Row}
    (hkey : key ≠ .scalar k) (hparent : ∀ child ∈ children, child listTable.parentColumn = key)
    (h : insertChildren s field children = .ok s') :
    childrenOf s' field listTable (.scalar k) = childrenOf s field listTable (.scalar k) := by
  have hrows : s'.childRows field = s.childRows field ++ children := by
    rw [raw_insertChildren h]
    exact Function.update_self _ _ _
  have hnone : children.filter (fun child =>
      isChildOf (.scalar k) (child listTable.parentColumn)) = [] := by
    refine List.filter_eq_nil_iff.mpr fun child hchild => ?_
    rw [hparent child hchild, isChildOf_ne (Ne.symm hkey)]
    exact Bool.false_ne_true
  rw [childrenOf, childrenOf, hrows, List.filter_append, hnone, List.append_nil]

theorem rowOf_head (column : String) (v : Value Scalar) (values : List (String × Value Scalar)) :
    rowOf ((column, v) :: values) column = v := by
  simp [rowOf, Value.get]

theorem parent_getChildRows {listTable : ListTable} {elements : List PyValue} {children : List Row}
    (h : getChildRows database.dialect isoformat listTable key elements = .ok children) :
    ∀ child ∈ children, child listTable.parentColumn = key := by
  unfold getChildRows at h
  cases hmodel : listTable.elementModel with
  | none =>
    rw [hmodel] at h
    cases h
    intro child hchild
    obtain ⟨element, -, rfl⟩ := List.mem_map.mp hchild
    exact rowOf_head _ _ _
  | some fields =>
    rw [hmodel] at h
    refine forall_of_mapM_ok h fun element _ child hchild => ?_
    split at hchild
    · cases hchild
      exact rowOf_head _ _ _
    · cases hchild

theorem kept_replaceList (hof : tables.Of tables.schema childFields) (hkey : key ≠ .scalar k)
    {replacement : String × List PyValue}
    (h : replaceList isoformat key s replacement = .ok s') : ChildrenKept k s s' := by
  have honly := onlyList_replaceList h
  obtain ⟨listTable, hlookup, h⟩ := bind_ok h
  refine .of_onlyList hof (listTableOf_ok hlookup) honly ?_
  obtain ⟨s₁, hdelete, h⟩ := bind_ok h
  have hdeleted := childrenOf_deleteChildren hkey hdelete
  split_ifs at h
  · cases h
    exact hdeleted
  · obtain ⟨children, hchildren, h⟩ := bind_ok h
    have hparent := parent_getChildRows (mapError_ok hchildren)
    exact (childrenOf_insertChildren hkey hparent h).trans hdeleted

theorem kept_addElement (hof : tables.Of tables.schema childFields) (hkey : key ≠ .scalar k)
    {addition : String × PyValue} (h : addElement key s addition = .ok s') :
    ChildrenKept k s s' := by
  have honly := onlyList_addElement h
  obtain ⟨listTable, hlookup, hinsert | ⟨rfl, -⟩⟩ := addElement_cases h
  · refine .of_onlyList hof hlookup honly (childrenOf_insertChildren hkey ?_ hinsert)
    exact List.forall_mem_singleton.mpr (rowOf_head _ _ _)
  · exact .refl k s'

theorem kept_removeElement (hof : tables.Of tables.schema childFields) (hkey : key ≠ .scalar k)
    {removal : String × PyValue} (h : removeElement key s removal = .ok s') :
    ChildrenKept k s s' := by
  have honly := onlyList_removeElement h
  obtain ⟨listTable, hlookup, h⟩ := bind_ok h
  exact .of_onlyList hof (listTableOf_ok hlookup) honly (childrenOf_deleteChildren hkey h)

/-- **The changes of one record leave the lists of every other.** -/
theorem kept_writeChanges (hof : tables.Of tables.schema childFields) {recordKey : PyValue}
    {changes : Changes} (hkey : boundKey database.dialect tables recordKey ≠ .scalar k)
    (h : writeChanges isoformat s recordKey changes = .ok s') : ChildrenKept k s s' := by
  obtain ⟨s₀, hvalues, hlists⟩ := writeChanges_cases h
  obtain ⟨s₁, hreplacements, hrest⟩ := bind_ok hlists
  obtain ⟨s₂, hadditions, hremovals⟩ := bind_ok hrest
  have hfirst : ChildrenKept k s s₀ := fun list _ => by
    rw [childrenOf, childrenOf, childRows_writeValues hvalues]
  have hstep {X : Type} {f : SqlTables database references tables → X →
      Except WriteError (SqlTables database references tables)}
      (hf : ∀ a x a', f a x = .ok a' → ChildrenKept k a a') {xs : List X}
      {a a' : SqlTables database references tables} (hrun : xs.foldlM f a = .ok a')
      (ha : ChildrenKept k s a) : ChildrenKept k s a' :=
    foldlM_invariant (fun a x a' hax hs => hs.trans (hf a x a' hax)) hrun ha
  refine hstep (fun _ _ _ h => kept_removeElement hof hkey h) hremovals ?_
  refine hstep (fun _ _ _ h => kept_addElement hof hkey h) hadditions ?_
  exact hstep (fun _ _ _ h => kept_replaceList hof hkey h) hreplacements hfirst

theorem recordOf_kept {row : Row} (hk : row tables.schema.storage.key = .scalar k)
    (h : ChildrenKept k s s') : s'.stored.recordOf row = s.stored.recordOf row := by
  refine recordOf_congr fun list hlist => ?_
  have hchildren := h list hlist
  unfold childrenOf at hchildren
  unfold StoredRows.elementsOf
  rw [hk]
  show (((s'.childRows list.1).filter _).mergeSort _).map _ = _
  rw [hchildren]
  rfl

end

end SqlStore

/-! ## The filter of some keys -/

section

variable {lower : String → String} {database : SqlDatabase} {tables : SchemaTables}
  {childFields : List String} {type : ColumnType}

theorem translateFilter_field (hof : tables.Of tables.schema childFields) {name : String}
    {condition : PyValue} {c : Clause}
    (hfield : translateField lower tables name condition = .ok c) (instant : ℤ) :
    ∃ clause, translateFilter lower tables instant [.field name condition] = .ok clause ∧
      ∀ (database : SqlDatabase) (stored : StoredRows tables), ∀ row ∈ stored.rows,
        (clause.eval database stored row = .yes ↔
          c.eval database stored row = .yes ∧ SqlStore.isLive tables instant row = true) := by
  have hconditions : translateConditions lower tables [.field name condition] =
      .ok (.and [.always, c]) := by
    unfold translateConditions
    rw [translateEntries, translateEntry, hfield]
    rfl
  unfold translateFilter SqlStore.isLive
  rw [hconditions]
  cases hexpires : tables.schema.storage.expires with
  | none =>
    refine ⟨.and [.and [.always, c]], rfl, fun database stored row _ => ?_⟩
    rw [eval_and, List.forall_mem_singleton, eval_conditions, List.forall_mem_singleton]
    exact (and_iff_left rfl).symm
  | some field =>
    have hcolumn : (tables.columns.lookup field).isNone = false := by
      have hsome := hof.expires field hexpires
      simpa using Option.isSome_iff_ne_none.mp hsome
    let expiry : Clause := .or [.isNull ⟨field, false⟩,
      .compare .gt ⟨field, false⟩ (.scalar (.datetime instant (some 0)))]
    refine ⟨.and [.and [.always, c], expiry], ?_, fun database stored row hrow => ?_⟩
    · simp only [bind, Except.bind, hcolumn]
      rfl
    · rw [eval_and, List.forall_mem_cons, List.forall_mem_singleton, eval_conditions,
        List.forall_mem_singleton, eval_expires hof hexpires hrow, unexpired_recordOf hof hexpires]
      rfl

theorem getComparisonClause_in (column : Column) (items : List PyValue) :
    getComparisonClause lower column (.dict [("$in", .sequence .list items)]) false =
      .ok (.and [getAnyOfClause column (items.map (convertOperand lower false))]) := by
  have hname : isOperatorName "$in" = true := by decide
  have hoperator : FieldOperator.ofName "$in" = some .in := by decide
  have hoperators : operatorsOf (.dict [("$in", .sequence .list items)]) =
      [("$in", .sequence .list items)] := by
    simp [operatorsOf, isOperatorMap, hname]
  unfold getComparisonClause
  rw [hoperators, List.mapM_cons, List.mapM_nil]
  unfold getOperatorClauses
  dsimp only
  rw [hoperator]
  rfl

/-- **The filter of some keys** is true of their rows that have not expired. -/
theorem translateFilter_keys (hof : tables.Of tables.schema childFields)
    (hkey : HasPlainKey tables type) (lower : String → String) (database : SqlDatabase)
    {keys : List PyScalar} (hkeys : ∀ p ∈ keys, p.kind = type) (instant : ℤ) :
    ∃ clause, translateFilter lower tables instant [.field tables.schema.storage.key
        (.dict [("$in", .sequence .list (keys.map .scalar))])] = .ok clause ∧
      ∀ (stored : StoredRows tables), ∀ row ∈ stored.rows,
        (clause.eval database stored row = .yes ↔
          (∃ p ∈ keys, row tables.schema.storage.key = .scalar (database.dialect.bind p)) ∧
            SqlStore.isLive tables instant row = true) := by
  obtain ⟨hlist, hcolumn⟩ := getColumn_key hof hkey
  let column : Column := ⟨tables.schema.storage.key, false⟩
  let known : List PyValue := keys.map fun p => .scalar p.convert
  let c : Clause := if known.isEmpty then .never else .isIn column known
  have hall : known.filter (fun value => !value.isNone) = known :=
    List.filter_eq_self.mpr fun v hv => by
      obtain ⟨p, -, rfl⟩ := List.mem_map.mp hv
      rfl
  have hoperands : (keys.map PyValue.scalar).map (convertOperand lower false) = known := by
    rw [convertOperand_lower_false, List.map_map]
    rfl
  have hanyOf : getAnyOfClause column known = c := by
    unfold getAnyOfClause
    rw [hall, if_neg (lt_irrefl _)]
  have hfield : translateField lower tables tables.schema.storage.key
      (.dict [("$in", .sequence .list (keys.map .scalar))]) = .ok (.and [c]) := by
    unfold translateField translateColumnCondition
    rw [hlist]
    dsimp only
    rw [hcolumn, hkey.cased, ← hanyOf, ← hoperands]
    exact getComparisonClause_in column _
  obtain ⟨clause, hclause, heval⟩ := translateFilter_field hof hfield instant
  refine ⟨clause, hclause, fun stored row hrow => ?_⟩
  have hx := stored.typed row hrow _ (mem_of_lookup hkey.lookup)
  rw [heval database stored row hrow, eval_and, List.forall_mem_singleton]
  refine and_congr_left fun _ => ?_
  have hequal (p : PyScalar) (hp : p ∈ keys) :
      database.compare .eq (row tables.schema.storage.key) (.scalar p.convert) = .yes ↔
        row tables.schema.storage.key = .scalar (database.dialect.bind p) :=
    compare_bind hx hkey.scalar (hkeys p hp)
  show (if known.isEmpty then Clause.never else .isIn column known).eval database stored row = .yes ↔ _
  split_ifs with hempty
  · have hnone : keys = [] := List.map_eq_nil_iff.mp (List.isEmpty_iff.mp hempty)
    subst hnone
    simp [Clause.eval]
  · rw [Clause.eval, read_column, SqlDatabase.isAmong, Truth.any_eq_yes, List.map_map, List.mem_map]
    refine exists_congr fun p => and_congr_right fun hp => ?_
    exact hequal p hp

end

/-! ## What an update makes of a row -/

/-- What one step of an update writes to the column of its field. -/
def changeOfStep (isoformat : ℤ → Option ℤ → String) (tables : SchemaTables)
    (step : UpdateOperator × (String × PyValue)) : Option ColumnChange :=
  if (tables.listTables.lookup step.2.1).isSome then none
  else
    match step.1 with
    | .set =>
      some (if tables.jsonFields.contains step.2.1 then .json (toJsonable isoformat step.2.2)
        else .value (convertToColumnValue step.2.2))
    | .inc => some (.increment step.2.2)
    | _ => none

/-- **What an update writes to the column of a field**: what the last of its steps does that sets or
increases it. -/
def columnChange (isoformat : ℤ → Option ℤ → String) (tables : SchemaTables) (update : Update)
    (field : String) : Option ColumnChange :=
  (SqlStore.stepsOf update).reverse.findSome? fun step =>
    if step.2.1 = field then changeOfStep isoformat tables step else none

/-- **The row of a matched record after an update**, computed from the row before. -/
def updatedRow (engine : SqlEngine) (tables : SchemaTables) (update : Update) (row : Row) : Row :=
  fun column =>
    if column = tables.schema.storage.key then row column
    else
      match columnChange engine.isoformat tables update column with
      | none => row column
      | some change =>
        changedValue engine.database.dialect ((tables.columns.lookup column).getD .json) (row column)
          change

namespace SqlStore

section

variable {isoformat : ℤ → Option ℤ → String} {tables : SchemaTables} {update : Update}
  {changes changes' : Changes} {field : String}

theorem lookup_step {step : UpdateOperator × (String × PyValue)}
    (h : translateChange isoformat tables step.1 changes step.2 = .ok changes') :
    changes'.values.lookup field =
      if step.2.1 = field then (changeOfStep isoformat tables step).or (changes.values.lookup field)
      else changes.values.lookup field := by
  obtain ⟨operator, name, v⟩ := step
  unfold changeOfStep
  cases operator with
  | set =>
    unfold translateChange at h
    dsimp only at h ⊢
    split_ifs at h with hlist
    · obtain ⟨items, -, h⟩ := bind_ok h
      cases h
      simp [hlist]
    · obtain ⟨written, hwritten, h⟩ := bind_ok h
      cases h
      have hvalue : written = if tables.jsonFields.contains name then
          .json (toJsonable isoformat v) else .value (convertToColumnValue v) := by
        unfold convertToWrittenValue at hwritten
        split_ifs at hwritten ⊢ with hjson
        · cases hwritten
          rfl
        · obtain ⟨column, -, hwritten⟩ := bind_ok hwritten
          cases hwritten
          rfl
      rw [lookup_assign, if_neg hlist, hvalue, Option.some_or]
      exact if_congr eq_comm rfl rfl
  | inc =>
    obtain ⟨column, hcolumn, h⟩ := bind_ok h
    cases h
    unfold getColumn at hcolumn
    dsimp only at hcolumn ⊢
    split_ifs at hcolumn with hlist
    cases hcolumn
    rw [lookup_assign, if_neg hlist, Option.some_or]
    exact if_congr eq_comm rfl rfl
  | setOnInsert =>
    obtain ⟨written, -, h⟩ := bind_ok h
    cases h
    simp
  | addToSet | pull =>
    obtain ⟨listTable, -, h⟩ := bind_ok h
    cases h
    simp

theorem lookup_translateUpdate (h : translateUpdate isoformat tables update = .ok changes)
    (field : String) : changes.values.lookup field = columnChange isoformat tables update field := by
  have hfold (steps : List (UpdateOperator × (String × PyValue))) (changes₀ : Changes)
      (hrun : steps.foldlM (fun changes step =>
        translateChange isoformat tables step.1 changes step.2) changes₀ = .ok changes) :
      changes.values.lookup field =
        (steps.reverse.findSome? fun step =>
          if step.2.1 = field then changeOfStep isoformat tables step else none).or
            (changes₀.values.lookup field) := by
    induction steps generalizing changes₀ with
    | nil =>
      cases hrun
      rfl
    | cons step steps ih =>
      rw [List.foldlM_cons] at hrun
      obtain ⟨changes₁, hfirst, hrest⟩ := bind_ok hrun
      rw [ih changes₁ hrest, lookup_step hfirst, List.reverse_cons, List.findSome?_append,
        Option.or_assoc]
      congr 1
      by_cases hfield : step.2.1 = field
      · simp [hfield]
      · simp [hfield]
  rw [translateUpdate_eq] at h
  rw [hfold _ _ h]
  exact Option.or_none

theorem rowAfter_eq {engine : SqlEngine}
    (h : translateUpdate engine.isoformat tables update = .ok changes) :
    rowAfter engine tables changes = updatedRow engine tables update := by
  funext row column
  unfold rowAfter changedRow updatedRow columnChanges
  rw [lookup_filter (· != tables.schema.storage.key), lookup_translateUpdate h]
  by_cases hkey : column = tables.schema.storage.key
  · simp [hkey]
  · cases columnChange engine.isoformat tables update column <;> simp [hkey]

end

/-! ## Updates of many keys -/

section

variable {engine : SqlEngine} {tables : SchemaTables} {childFields : List String}
  {type : ColumnType} {changes : Changes} {s s' : engine.Tables tables} {k : Scalar}

theorem rows_updateScalar (hkey : HasPlainKey tables type) {p : PyScalar} (hp : p.kind = type)
    (h : updateKey engine (.scalar p) changes s = .ok s') :
    s'.rows = s.rows.map fun row =>
      if row tables.schema.storage.key = .scalar (engine.database.dialect.bind p) then
        rowAfter engine tables changes row
      else row := by
  obtain ⟨s₁, hvalues, hlists⟩ := writeChanges_cases h
  rw [boundKey_scalar hkey _ hp] at hvalues
  rw [rows_writeLists hlists]
  have hof (row : Row) :
      isChildOf (row tables.schema.storage.key) (.scalar (engine.database.dialect.bind p)) = true ↔
        row tables.schema.storage.key = .scalar (engine.database.dialect.bind p) := by
    refine ⟨eq_of_isChildOf, fun h => ?_⟩
    rw [h, isChildOf_scalar, decide_eq_true rfl]
  change writeValues _ (columnChanges tables changes) s = .ok s₁ at hvalues
  unfold writeValues at hvalues
  split_ifs at hvalues with hempty
  · cases hvalues
    have hsame (row : Row) : rowAfter engine tables changes row = row := by
      funext column
      rw [rowAfter, List.isEmpty_iff.mp hempty]
      rfl
    simp [hsame]
  · rw [toRaw_of_execute hvalues]
    simp only [hof]
    rfl

/-- **The rows after an update of keys, one after another**: each row of one of them is changed
once. -/
theorem rows_updateKeys (hkey : HasPlainKey tables type) {keys : List PyScalar}
    (hkinds : ∀ p ∈ keys, p.kind = type) (hnodup : (keys.map engine.database.dialect.bind).Nodup)
    (h : keys.foldlM (fun s p => updateKey engine (.scalar p) changes s) s = .ok s') :
    s'.rows = s.rows.map fun row =>
      if ∃ p ∈ keys, row tables.schema.storage.key = .scalar (engine.database.dialect.bind p) then
        rowAfter engine tables changes row
      else row := by
  induction keys generalizing s with
  | nil =>
    cases h
    simp
  | cons p keys ih =>
    rw [List.foldlM_cons] at h
    obtain ⟨s₁, hfirst, hrest⟩ := bind_ok h
    obtain ⟨hp, hkinds⟩ := List.forall_mem_cons.mp hkinds
    rw [List.map_cons, List.nodup_cons] at hnodup
    rw [ih hkinds hnodup.2 hrest, rows_updateScalar hkey hp hfirst, List.map_map]
    refine List.map_congr_left fun row _ => ?_
    rw [Function.comp_apply]
    by_cases hfirst : row tables.schema.storage.key = .scalar (engine.database.dialect.bind p)
    · -- no later key is this one
      have hnone : ¬ ∃ q ∈ keys, rowAfter engine tables changes row tables.schema.storage.key =
          .scalar (engine.database.dialect.bind q) := by
        rintro ⟨q, hq, heq⟩
        rw [rowAfter_key, hfirst, Value.scalar.injEq] at heq
        exact hnodup.1 (heq ▸ List.mem_map_of_mem hq)
      rw [if_pos hfirst, if_neg hnone, if_pos ⟨p, List.mem_cons_self, hfirst⟩]
    · rw [if_neg hfirst]
      refine if_congr ?_ rfl rfl
      simp only [List.mem_cons, or_and_right, exists_or, exists_eq_left, hfirst, false_or]

theorem kept_updateKeys (hof : tables.Of tables.schema childFields) (hkey : HasPlainKey tables type)
    {keys : List PyScalar} (hkinds : ∀ p ∈ keys, p.kind = type)
    (hother : ∀ p ∈ keys, engine.database.dialect.bind p ≠ k)
    (h : keys.foldlM (fun s p => updateKey engine (.scalar p) changes s) s = .ok s') :
    ChildrenKept k s s' := by
  induction keys generalizing s with
  | nil =>
    cases h
    exact .refl k _
  | cons p keys ih =>
    rw [List.foldlM_cons] at h
    obtain ⟨s₁, hfirst, hrest⟩ := bind_ok h
    obtain ⟨hp, hkinds⟩ := List.forall_mem_cons.mp hkinds
    obtain ⟨hne, hother⟩ := List.forall_mem_cons.mp hother
    have hbound : boundKey engine.database.dialect tables (.scalar p) ≠ .scalar k := by
      rw [boundKey_scalar hkey _ hp]
      exact fun heq => hne (Value.scalar.inj heq)
    exact (kept_writeChanges hof hbound hfirst).trans (ih hkinds hother hrest)

/-! ## The update of many -/

/-- **How the keys of validated records stand to what is stored**: a key is read of what its column
holds alone, the column gets it back as it was, and two of them are equal in Python where they are
stored alike. -/
structure ReadsKey (engine : SqlEngine) (tables : SchemaTables) (type : ColumnType)
    (read : Scalar → PyScalar) : Prop where
  key : ∀ (stored : StoredRows tables), ∀ row ∈ stored.rows, ∀ k,
    row tables.schema.storage.key = .scalar k → ∀ record,
      engine.validate (stored.recordOf row) = .ok record → keyOf tables record = .scalar (read k)
  kind : ∀ k, k.kind = type → (read k).kind = type
  bound : ∀ k, k.kind = type → engine.database.dialect.bind (read k) = k
  equal : ∀ k k', k.kind = type → k'.kind = type →
    ((read k).equals (read k') = true ↔ k = k')

/-- Whether the records of two documents are equal. -/
def isAlike (engine : SqlEngine) (before after : Value Scalar) : Bool :=
  match engine.validate before, engine.validate after with
  | .ok before, .ok after => PyValue.equalEntries after before
  | _, _ => false

/-- The records that rows are validated into. -/
abbrev Validated (engine : SqlEngine) (stored : StoredRows tables) (row : Row) (record : Record) :
    Prop :=
  engine.validate (stored.recordOf row) = .ok record

theorem findToWrite_ok {instant : ℤ} {filter : Filter} {clause : Clause} {records : List Record}
    (hclause : translateFilter engine.lower tables instant filter = .ok clause)
    (h : findToWrite engine instant filter none s = .ok records) :
    ∃ rows, rows.Perm (matchedRows engine.database s.stored.toStoredRows clause) ∧
      List.Forall₂ (Validated engine s.stored.toStoredRows) rows records := by
  have hfound : ((engine.plan [rowIdTerm]).run
      (matchedRows engine.database s.stored.toStoredRows clause)).mapM
        (validateRow engine.validate s.stored.toStoredRows) = .ok records := by
    have h := mapError_ok h
    unfold findRecords at h
    rw [hclause] at h
    exact h
  refine ⟨_, (engine.plan [rowIdTerm]).perm _, (forall₂_of_mapM hfound).imp fun row record hrow => ?_⟩
  exact mapError_ok hrow

variable {read : Scalar → PyScalar}

theorem map_keyOf (hkey : HasPlainKey tables type) (hread : ReadsKey engine tables type read)
    {rows : List Row}
    (hrows : ∀ row ∈ rows, row ∈ s.rows) {records : List Record}
    (h : List.Forall₂ (Validated engine s.stored.toStoredRows) rows records) :
    records.map (keyOf tables) = (rows.map fun row =>
      read (scalarOf (row tables.schema.storage.key))).map PyValue.scalar := by
  induction h with
  | nil => rfl
  | cons hrow _ ih =>
    obtain ⟨hmem, hrows⟩ := List.forall_mem_cons.mp hrows
    obtain ⟨k, hk, -⟩ := key_of_row hkey hmem
    rw [List.map_cons, hread.key _ _ hmem k hk _ hrow, ih hrows, List.map_cons, List.map_cons, hk,
      scalarOf]

/-- **The record that is read back** for one of before, if its row has not expired. -/
theorem find?_after (hkey : HasPlainKey tables type) (hread : ReadsKey engine tables type read)
    {rows : List Row} {after : List Record} {p : Row → Bool}
    (hperm : rows.Perm (s.rows.filter p))
    (hafter : List.Forall₂ (Validated engine s.stored.toStoredRows) rows after) {row : Row}
    (hrow : row ∈ s.rows) (hk : row tables.schema.storage.key = .scalar k) (hkind : k.kind = type) :
    (∃ record, Validated engine s.stored.toStoredRows row record ∧ p row = true ∧
        after.reverse.find? (fun r => (keyOf tables r).equals (.scalar (read k))) = some record) ∨
      p row = false ∧
        after.reverse.find? (fun r => (keyOf tables r).equals (.scalar (read k))) = none := by
  have hof : ∀ r ∈ rows, r ∈ s.rows := fun r hr => List.mem_of_mem_filter (hperm.subset hr)
  have hequal : List.Forall₂ (fun r record => Validated engine s.stored.toStoredRows r record ∧
      isOfKey tables k r = (keyOf tables record).equals (.scalar (read k))) rows after := by
    refine List.forall₂_iff_zip.mpr ⟨hafter.length_eq, fun {r record} hzip => ?_⟩
    have hvalid := (List.forall₂_iff_zip.mp hafter).2 hzip
    have hr := hof r (List.of_mem_zip hzip).1
    obtain ⟨k', hk', hkind'⟩ := key_of_row hkey hr
    refine ⟨hvalid, Bool.eq_iff_iff.mpr ?_⟩
    rw [hread.key _ _ hr k' hk' _ hvalid, PyValue.equals, hread.equal k' k hkind' hkind, isOfKey,
      decide_eq_true_eq, hk', Value.scalar.injEq]
  have hfiltered : List.Forall₂ (Validated engine s.stored.toStoredRows)
      (rows.filter (isOfKey tables k))
      (after.filter fun record => (keyOf tables record).equals (.scalar (read k))) :=
    (forall₂_filter (fun _ _ h => h.2) hequal).imp fun _ _ h => h.1
  have hone : (rows.filter (isOfKey tables k)).Perm ([row].filter p) := by
    rw [← filter_isOfKey hrow hk, List.filter_filter]
    refine (hperm.filter _).trans (List.Perm.of_eq ?_)
    rw [List.filter_filter]
    exact List.filter_congr fun r _ => Bool.and_comm _ _
  rw [← List.head?_filter, List.filter_reverse, List.head?_reverse]
  cases hp : p row with
  | false =>
    rw [List.filter_cons_of_neg (by simp [hp]), List.filter_nil] at hone
    rw [List.perm_nil.mp hone] at hfiltered
    rw [List.forall₂_nil_left_iff.mp hfiltered]
    exact .inr ⟨rfl, rfl⟩
  | true =>
    rw [List.filter_cons_of_pos hp, List.filter_nil] at hone
    rw [List.perm_singleton.mp hone] at hfiltered
    obtain ⟨record, rest, hvalid, hnil, heq⟩ := List.forall₂_cons_left_iff.mp hfiltered
    rw [List.forall₂_nil_left_iff.mp hnil] at heq
    rw [heq]
    exact .inl ⟨record, hvalid, rfl, rfl⟩

theorem nodup_keys (hkey : HasPlainKey tables type) (s : engine.Tables tables) :
    (s.rows.map fun row => row tables.schema.storage.key).Nodup := by
  refine List.pairwise_map.mpr ?_
  have hapart := s.unique.2.1 [⟨tables.schema.storage.key, false⟩] List.mem_cons_self
  refine hapart.imp_of_mem fun {a b} ha _ hclash heq => ?_
  obtain ⟨k, hk, -⟩ := key_of_row hkey ha
  simp [clashes, SqlDatabase.read, ← heq, hk, isChildOf_scalar] at hclash

/-- **A record is as it was** when it is read back, where its row has not expired and the record
equals that of before. -/
theorem isAsBefore_eq (hkey : HasPlainKey tables type) (hread : ReadsKey engine tables type read)
    {rows : List Row} {after : List Record} {p : Row → Bool} {row row' : Row} {record : Record}
    (hperm : rows.Perm (s'.rows.filter p))
    (hafter : List.Forall₂ (Validated engine s'.stored.toStoredRows) rows after)
    (hrow : row ∈ s.rows) (hvalid : Validated engine s.stored.toStoredRows row record)
    (hrow' : row' ∈ s'.rows)
    (hsame : row' tables.schema.storage.key = row tables.schema.storage.key) :
    isAsBefore tables after record =
      (p row' && isAlike engine (s.stored.recordOf row) (s'.stored.recordOf row')) := by
  obtain ⟨k, hk, hkind⟩ := key_of_row hkey hrow
  unfold isAsBefore
  rw [hread.key _ _ hrow k hk _ hvalid]
  obtain ⟨record', hvalid', hp, hfound⟩ | ⟨hp, hfound⟩ :=
    find?_after hkey hread hperm hafter hrow' (hsame.trans hk) hkind
  · rw [hfound, hp, isAlike, hvalid, hvalid', Bool.true_and]
  · rw [hfound, hp, Bool.false_and]

theorem countP_of_forall₂ {A B : Type} {R : A → B → Prop} {p : A → Bool} {q : B → Bool} {l : List A}
    {m : List B} (h : List.Forall₂ R l m) (hpq : ∀ a ∈ l, ∀ b, R a b → q b = p a) :
    m.countP q = l.countP p := by
  induction h with
  | nil => rfl
  | cons hab _ ih =>
    obtain ⟨hfirst, hpq⟩ := List.forall_mem_cons.mp hpq
    rw [List.countP_cons, List.countP_cons, hfirst _ hab, ih hpq]

end

end SqlStore

open SqlStore in
/-- **An update of many records**, where it does not raise, changes the rows that its filter matched,
each once and from what it held, and no other record, whatever the update does to what the filter
reads. It returns how many of them differ when they are read back, or have expired by then. Where the
WHERE clause agrees with the dialect, the records matched are the unexpired ones that match the
filter. -/
theorem updates_matched {schema : Schema} {tables : SchemaTables}
    (htables : getTablesOf schema = some tables) {type : ColumnType} (hkey : HasPlainKey tables type)
    {engine : SqlEngine} {read : Scalar → PyScalar} (hread : ReadsKey engine tables type read)
    {update : Update} {now : ℕ → ℤ} {filter : Filter} {s s' : engine.Tables tables} {answer : Answer}
    (h : SqlStore.updateMany engine now filter update s = ⟨.ok answer, s'⟩) :
    ∃ isMatched : Row → Bool,
      s'.rows = s.rows.map (fun row =>
        if isMatched row then updatedRow engine tables update row else row) ∧
      (∀ row ∈ s.rows, isMatched row = false →
        s'.stored.recordOf row = s.stored.recordOf row) ∧
      answer = .count (s.rows.countP fun row => isMatched row &&
        !(isLive tables (now 1) (updatedRow engine tables update row) &&
          isAlike engine (s.stored.recordOf row)
            (s'.stored.recordOf (updatedRow engine tables update row)))) ∧
      (Agrees engine.lower engine.database tables (now 0) filter → ∀ row ∈ s.rows,
        (isMatched row = true ↔
          Filter.Matches engine.database.same (s.stored.recordOf row) filter ∧
            Unexpired tables.schema (now 0) (s.stored.recordOf row))) := by
  obtain ⟨childFields, hof⟩ := getTablesOf_spec htables
  obtain rfl := hof.schema_eq
  -- what the transaction did, statement by statement
  obtain ⟨n, hn, hbody⟩ : ∃ n, answer = .count n ∧
      updateManyBody engine now filter update s = .ok (n, s') := by
    rw [show SqlStore.updateMany engine now filter update s = _ from inTransaction_eq] at h
    cases hbody : updateManyBody engine now filter update s with
    | error e =>
      rw [hbody] at h
      cases h
    | ok r =>
      rw [hbody] at h
      cases h
      exact ⟨r.1, rfl, rfl⟩
  obtain ⟨changes, hchanges, hbody⟩ := bind_ok hbody
  have hchanges := mapError_ok hchanges
  obtain ⟨before, hbefore, hbody⟩ := bind_ok hbody
  obtain ⟨s₁, hwritten, hbody⟩ := bind_ok hbody
  obtain ⟨after, hafter, hbody⟩ := bind_ok hbody
  cases hbody
  obtain ⟨clause, hclause⟩ : ∃ clause,
      translateFilter engine.lower tables (now 0) filter = .ok clause := by
    have hfound := mapError_ok hbefore
    obtain ⟨clause, hclause, -⟩ := bind_ok hfound
    exact ⟨clause, mapError_ok hclause⟩
  obtain ⟨rows, hperm, hvalid⟩ := findToWrite_ok hclause hbefore
  have hmem : ∀ row ∈ rows, row ∈ s.rows := fun row hrow =>
    List.mem_of_mem_filter (hperm.subset hrow)
  let isMatched : Row → Bool := fun row =>
    clause.eval engine.database s.stored.toStoredRows row == .yes
  -- the keys that are written are those of the rows matched
  let keys : List PyScalar := rows.map fun row => read (scalarOf (row tables.schema.storage.key))
  have hkeys : before.map (keyOf tables) = keys.map PyValue.scalar := map_keyOf hkey hread hmem hvalid
  have hkindOf : ∀ row ∈ s.rows, ∃ k, row tables.schema.storage.key = .scalar k ∧ k.kind = type :=
    fun row hrow => key_of_row hkey hrow
  have hkinds : ∀ p ∈ keys, p.kind = type := by
    intro p hp
    obtain ⟨row, hrow, rfl⟩ := List.mem_map.mp hp
    obtain ⟨k, hk, hkind⟩ := hkindOf row (hmem row hrow)
    rw [hk]
    exact hread.kind k hkind
  have hbind : ∀ row ∈ s.rows, Value.scalar (engine.database.dialect.bind
      (read (scalarOf (row tables.schema.storage.key)))) = row tables.schema.storage.key := by
    intro row hrow
    obtain ⟨k, hk, hkind⟩ := hkindOf row hrow
    rw [hk, scalarOf, hread.bound k hkind]
  have hwritten : (keys.map PyValue.scalar).foldlM (fun s key => updateKey engine key changes s) s =
      .ok s' := by
    rw [← hkeys, List.foldlM_map]
    exact hwritten
  rw [List.foldlM_map] at hwritten
  have hmatched : ∀ row ∈ s.rows, (∃ p ∈ keys,
      row tables.schema.storage.key = .scalar (engine.database.dialect.bind p)) ↔
        isMatched row = true := by
    intro row hrow
    constructor
    · rintro ⟨_, hp, heq⟩
      obtain ⟨found, hfound, rfl⟩ := List.mem_map.mp hp
      rw [hbind found (hmem found hfound)] at heq
      obtain rfl : row = found :=
        List.inj_on_of_nodup_map (nodup_keys hkey s) hrow (hmem found hfound) heq
      exact (List.mem_filter.mp (hperm.subset hfound)).2
    · intro hyes
      have hfound : row ∈ rows := hperm.symm.subset (List.mem_filter.mpr ⟨hrow, hyes⟩)
      exact ⟨_, List.mem_map_of_mem hfound, (hbind row hrow).symm⟩
  have hnodup : (keys.map engine.database.dialect.bind).Nodup := by
    have hmap : (keys.map engine.database.dialect.bind).map Value.scalar =
        rows.map fun row => row tables.schema.storage.key := by
      rw [List.map_map, List.map_map]
      exact List.map_congr_left fun row hrow => hbind row (hmem row hrow)
    refine List.Nodup.of_map Value.scalar ?_
    rw [hmap]
    refine (hperm.map _).nodup_iff.mpr ((nodup_keys hkey s).sublist ?_)
    exact List.filter_sublist.map _
  have hrows : s'.rows = s.rows.map fun row =>
      if isMatched row then updatedRow engine tables update row else row := by
    rw [rows_updateKeys hkey hkinds hnodup hwritten, rowAfter_eq hchanges]
    exact List.map_congr_left fun row hrow => if_congr (hmatched row hrow) rfl rfl
  refine ⟨isMatched, hrows, fun row hrow hother => ?_, ?_, ?_⟩
  · obtain ⟨k, hk, hkind⟩ := hkindOf row hrow
    refine recordOf_kept hk (kept_updateKeys hof hkey hkinds (fun p hp heq => ?_) hwritten)
    rw [(hmatched row hrow).mp ⟨p, hp, by rw [hk, heq]⟩] at hother
    cases hother
  · obtain ⟨found, hfoundClause, hfoundMeans⟩ := translateFilter_keys hof hkey engine.lower
      engine.database hkinds (now 1)
    unfold keysFilter at hafter
    rw [hkeys] at hafter
    obtain ⟨rows', hperm', hvalid'⟩ := findToWrite_ok hfoundClause hafter
    let isFound : Row → Bool := fun row => decide (∃ p ∈ keys,
      row tables.schema.storage.key = .scalar (engine.database.dialect.bind p)) &&
        isLive tables (now 1) row
    have hfilter : matchedRows engine.database s'.stored.toStoredRows found =
        s'.rows.filter isFound := by
      refine List.filter_congr fun row hrow => Bool.eq_iff_iff.mpr ?_
      rw [beq_iff_eq, hfoundMeans _ row hrow, Bool.and_eq_true, decide_eq_true_eq]
    rw [hfilter] at hperm'
    have hcount : before.countP (fun record => !isAsBefore tables after record) =
        rows.countP fun row => !(isLive tables (now 1) (updatedRow engine tables update row) &&
          isAlike engine (s.stored.recordOf row)
            (s'.stored.recordOf (updatedRow engine tables update row))) := by
      refine countP_of_forall₂ hvalid fun row hrow record hrecord => ?_
      have hyes : isMatched row = true := (List.mem_filter.mp (hperm.subset hrow)).2
      have hsame : updatedRow engine tables update row tables.schema.storage.key =
          row tables.schema.storage.key := if_pos rfl
      have hrow' : updatedRow engine tables update row ∈ s'.rows := by
        rw [hrows]
        exact List.mem_map.mpr ⟨row, hmem row hrow, if_pos hyes⟩
      have hkeyFound : ∃ p ∈ keys, updatedRow engine tables update row tables.schema.storage.key =
          .scalar (engine.database.dialect.bind p) := by
        rw [hsame]
        exact (hmatched row (hmem row hrow)).mpr hyes
      rw [isAsBefore_eq hkey hread hperm' hvalid' (hmem row hrow) hrecord hrow' hsame]
      simp only [isFound, decide_eq_true hkeyFound, Bool.true_and]
    rw [hn, hcount, hperm.countP_eq, matchedRows, List.countP_filter]
    congr 2
    funext row
    exact Bool.and_comm _ _
  · rintro ⟨clause', hclause', hmeans⟩ row hrow
    obtain rfl : clause = clause' := Except.ok.inj (hclause.symm.trans hclause')
    rw [← hmeans s.stored.toStoredRows row hrow]
    exact beq_iff_eq

/-! ## An update of one -/

section

variable {tables : SchemaTables} {childFields : List String} {type : ColumnType}

theorem translateFilter_scalar (hof : tables.Of tables.schema childFields)
    (hkey : HasPlainKey tables type) (lower : String → String) (database : SqlDatabase)
    {p : PyScalar} (hp : p.kind = type) (instant : ℤ) :
    ∃ clause, translateFilter lower tables instant
        (filterOfKey tables.schema (.scalar p)) = .ok clause ∧
      ∀ (stored : StoredRows tables), ∀ row ∈ stored.rows,
        (clause.eval database stored row = .yes ↔
          row tables.schema.storage.key = .scalar (database.dialect.bind p) ∧
            SqlStore.isLive tables instant row = true) := by
  obtain ⟨hlist, hcolumn⟩ := getColumn_key hof hkey
  let c : Clause := .compare .eq ⟨tables.schema.storage.key, false⟩ (.scalar p.convert)
  have hfield : translateField lower tables tables.schema.storage.key (.scalar p) =
      .ok (.and [c]) := by
    unfold translateField translateColumnCondition
    rw [hlist]
    dsimp only
    rw [hcolumn, hkey.cased]
    change getComparisonClause lower ⟨tables.schema.storage.key, false⟩ (.scalar p) false = _
    unfold getComparisonClause getOperatorClauses
    rw [convertOperand_lower_false]
    rfl
  obtain ⟨clause, hclause, heval⟩ := translateFilter_field hof hfield instant
  refine ⟨clause, hclause, fun stored row hrow => ?_⟩
  have hx := stored.typed row hrow _ (mem_of_lookup hkey.lookup)
  rw [heval database stored row hrow, eval_and, List.forall_mem_singleton, eval_compare,
    compare_bind hx hkey.scalar hp]

namespace SqlStore

variable {engine : SqlEngine} {s : engine.Tables tables}

theorem validated_of_getRecord (hof : tables.Of tables.schema childFields)
    (hkey : HasPlainKey tables type) {p : PyScalar} (hp : p.kind = type) {row : Row}
    (hrow : row ∈ s.rows)
    (hk : row tables.schema.storage.key = .scalar (engine.database.dialect.bind p)) {instant : ℤ}
    {record : Record} (h : getRecord engine instant (.scalar p) s = .ok record) :
    Validated engine s.stored.toStoredRows row record := by
  obtain ⟨clause, hclause, heval⟩ := translateFilter_scalar hof hkey engine.lower engine.database hp
    instant
  obtain ⟨records, hrecords, h⟩ := bind_ok h
  obtain ⟨rows, hperm, hvalid⟩ := findToWrite_ok hclause hrecords
  have hmatched : matchedRows engine.database s.stored.toStoredRows clause =
      [row].filter (isLive tables instant) := by
    rw [← filter_isOfKey hrow hk, List.filter_filter]
    refine List.filter_congr fun r hr => Bool.eq_iff_iff.mpr ?_
    rw [Bool.and_eq_true, beq_iff_eq, heval s.stored.toStoredRows r hr, and_comm, isOfKey,
      decide_eq_true_eq]
  rw [hmatched] at hperm
  cases hvalid with
  | nil => cases h
  | cons hfirst _ =>
    cases h
    have hmem := hperm.subset List.mem_cons_self
    cases List.mem_singleton.mp (List.mem_of_mem_filter hmem)
    exact hfirst

theorem run_rowId {text : TextOrder} (plan : SqlPlan text)
    (hids : ∀ row ∈ s.rows, row rowId ≠ .null)
    (hcolumn : (rowId, ColumnType.bigInteger) ∈ tables.columns) (p : Row → Bool) :
    (plan [rowIdTerm]).run (s.rows.filter p) = s.rows.filter p := by
  have hid : ∀ row ∈ s.rows, row rowId = .scalar (.int (rowIdOf row)) := by
    intro row hrow
    have hfits : Fits .bigInteger (row rowId) := (s.typed.1 row hrow _ hcolumn).1
    obtain hnull | ⟨a, ha, hkind⟩ := hfits.cases (by decide)
    · exact absurd hnull (hids row hrow)
    · cases a with
      | int i => simp [rowIdOf, ha, orderKey, Scalar.toInt]
      | bool | float | text | datetime => cases hkind
  have horder : ∀ a ∈ s.rows, ∀ b ∈ s.rows, rowIdOf a < rowIdOf b → InOrder text [rowIdTerm] a b := by
    intro a ha b hb hlt
    have hcmp : rowIdTerm.cmp text a b = compare (rowIdOf a) (rowIdOf b) := by
      unfold OrderTerm.cmp
      show compareNulls true (Scalar.compare text) (orderKey (a rowId)) (orderKey (b rowId)) = _
      rw [hid a ha, hid b hb]
      rfl
    show ((rowIdTerm.cmp text a b).then .eq).isLE
    rw [hcmp, compare_lt_iff_lt.mpr hlt]
    rfl
  have hsorted : (s.rows.filter p).Pairwise (InOrder text [rowIdTerm]) := by
    refine (s.unique.1.filter p).imp_of_mem fun ha hb hlt => ?_
    exact horder _ (List.mem_of_mem_filter ha) _ (List.mem_of_mem_filter hb) hlt
  have hperm := (plan [rowIdTerm]).perm (s.rows.filter p)
  refine List.Perm.eq_of_pairwise (fun a b ha hb => ?_) ((plan [rowIdTerm]).sorted _) hsorted hperm
  exact s.stored.eq_of_inOrder List.mem_cons_self (List.mem_of_mem_filter (hperm.subset ha))
    (List.mem_of_mem_filter hb)

theorem findFirstKey_find? (hids : ∀ row ∈ s.rows, row rowId ≠ .null)
    (hcolumn : (rowId, ColumnType.bigInteger) ∈ tables.columns) {instant : ℤ} {filter : Filter}
    {clause : Clause} (hclause : translateFilter engine.lower tables instant filter = .ok clause) :
    findFirstKey engine instant filter s =
      .ok ((s.rows.find? fun row => clause.eval engine.database s.stored.toStoredRows row == .yes).map
        fun row => readKey (row tables.schema.storage.key)) := by
  unfold findFirstKey selectRows
  rw [hclause]
  show Except.ok ((page 0 (some 1) ((engine.plan [rowIdTerm]).run (s.rows.filter _))).head?.map _) = _
  rw [run_rowId _ hids hcolumn, ← List.head?_filter, page, List.drop_zero, List.head?_take,
    if_neg one_ne_zero]

end SqlStore

end

open SqlStore in
/-- **An update of one record**, where it does not raise, changes the first matched row in the order
of insertion, from what it held, and no other record; it returns that record as it was or as it is
then. If none matched, it returns none and changes nothing. -/
theorem updates_first {schema : Schema} {tables : SchemaTables}
    (htables : getTablesOf schema = some tables) {type : ColumnType} (hkey : HasPlainKey tables type)
    {engine : SqlEngine} {update : Update} {now : ℕ → ℤ} {newId : ℕ → String} {filter : Filter}
    {returning : Returning} {s s' : engine.Tables tables}
    (hids : ∀ row ∈ s.rows, row rowId ≠ .null) {answer : Answer}
    (h : SqlStore.updateOne engine now newId filter update false returning s = ⟨.ok answer, s'⟩) :
    ∃ isMatched : Row → Bool,
      (s.rows.find? isMatched = none → answer = .record none ∧ s' = s) ∧
      (∀ row, s.rows.find? isMatched = some row →
        s'.rows = s.rows.map (fun r =>
          if r tables.schema.storage.key = row tables.schema.storage.key then
            updatedRow engine tables update r
          else r) ∧
        (∀ r ∈ s.rows, r ≠ row → s'.stored.recordOf r = s.stored.recordOf r) ∧
        ∃ record, answer = .record (some record) ∧
          engine.validate (if returning = .before then s.stored.recordOf row
            else s'.stored.recordOf (updatedRow engine tables update row)) = .ok record) ∧
      (Agrees engine.lower engine.database tables (now 0) filter → ∀ row ∈ s.rows,
        (isMatched row = true ↔
          Filter.Matches engine.database.same (s.stored.recordOf row) filter ∧
            Unexpired tables.schema (now 0) (s.stored.recordOf row))) := by
  obtain ⟨childFields, hof⟩ := getTablesOf_spec htables
  obtain rfl := hof.schema_eq
  obtain ⟨record?, hanswer, hbody⟩ : ∃ record?, answer = .record record? ∧
      updateOneBody engine now newId filter update false returning s = .ok (record?, s') := by
    rw [show SqlStore.updateOne engine now newId filter update false returning s = _ from
      inTransaction_eq] at h
    cases hbody : updateOneBody engine now newId filter update false returning s with
    | error e =>
      rw [hbody] at h
      cases h
    | ok r =>
      rw [hbody] at h
      cases h
      exact ⟨r.1, rfl, rfl⟩
  obtain ⟨changes, hchanges, hbody⟩ := bind_ok hbody
  have hchanges := mapError_ok hchanges
  obtain ⟨key?, hfound, hbody⟩ := bind_ok hbody
  obtain ⟨clause, hclause⟩ : ∃ clause,
      translateFilter engine.lower tables (now 0) filter = .ok clause := by
    obtain ⟨clause, hclause, -⟩ := bind_ok hfound
    exact ⟨clause, mapError_ok hclause⟩
  -- the key found is that of the first row that the clause matches
  rw [findFirstKey_find? hids (by rw [hof.columns_eq]; exact List.mem_cons_self) hclause] at hfound
  let isMatched : Row → Bool := fun row =>
    clause.eval engine.database s.stored.toStoredRows row == .yes
  obtain rfl := Except.ok.inj hfound
  refine ⟨isMatched, fun hnone => ?_, fun row hsome => ?_, ?_⟩
  · rw [show s.rows.find? _ = none from hnone] at hbody
    cases hbody
    exact ⟨hanswer, rfl⟩
  · rw [show s.rows.find? _ = some row from hsome] at hbody
    have hrow : row ∈ s.rows := List.mem_of_find?_eq_some hsome
    obtain ⟨k, hk, hkind⟩ := key_of_row hkey hrow
    have hp : k.toPython.kind = type := (kind_toPython k).trans hkind
    have hbind : row tables.schema.storage.key =
        .scalar (engine.database.dialect.bind k.toPython) := by rw [bind_toPython, hk]
    rw [Option.map_some, hk] at hbody
    -- the record before is read, the row is written, and the record after is read
    obtain ⟨before, hbefore, hbody⟩ := bind_ok hbody
    obtain ⟨s₁, hwritten, hbody⟩ := bind_ok hbody
    have hrows : s₁.rows = s.rows.map fun r =>
        if r tables.schema.storage.key = row tables.schema.storage.key then
          updatedRow engine tables update r
        else r := by
      rw [rows_updateScalar hkey hp hwritten, rowAfter_eq hchanges, hbind]
    have hothers : ∀ r ∈ s.rows, r ≠ row → s₁.stored.recordOf r = s.stored.recordOf r := by
      intro r hr hne
      obtain ⟨k', hk', -⟩ := key_of_row hkey hr
      refine recordOf_kept hk' (kept_writeChanges hof (fun heq => hne ?_) hwritten)
      rw [show boundKey _ tables (readKey (.scalar k)) = _ from boundKey_scalar hkey _ hp, ← hbind,
        ← hk'] at heq
      exact (List.inj_on_of_nodup_map (nodup_keys hkey s) hrow hr heq).symm
    have hvalidBefore := validated_of_getRecord hof hkey hp hrow hbind hbefore
    cases returning with
    | before =>
      cases hbody
      exact ⟨hrows, hothers, before, hanswer, hvalidBefore⟩
    | after =>
      obtain ⟨after, hafter, hbody⟩ := bind_ok hbody
      cases hbody
      have hmem : updatedRow engine tables update row ∈ s'.rows := by
        rw [hrows]
        exact List.mem_map.mpr ⟨row, hrow, if_pos rfl⟩
      have hsame : updatedRow engine tables update row tables.schema.storage.key =
          .scalar (engine.database.dialect.bind k.toPython) := (if_pos rfl).trans hbind
      exact ⟨hrows, hothers, after, hanswer, validated_of_getRecord hof hkey hp hmem hsame hafter⟩
  · rintro ⟨clause', hclause', hmeans⟩ row hrow
    obtain rfl : clause = clause' := Except.ok.inj (hclause.symm.trans hclause')
    rw [← hmeans s.stored.toStoredRows row hrow]
    exact beq_iff_eq

/-! ## Two devices -/

/-- A schema of devices whose key is compared with case. -/
def chipSchema : Schema where
  name := "Chip"
  fields := [("qubits", .scalar .int), ("name", .scalar .str)]
  allowsExtra := false
  storage := { table := "chips", key := "name" }
  undotted := by decide
  expiresAt := by decide

/-- Their tables. -/
def chipTables : SchemaTables := (getTablesOf chipSchema).get (by decide +kernel)

/-- The device of a name and some qubits. -/
def chip (name : String) (qubits : ℤ) : Record :=
  [("name", .scalar (.str name)), ("qubits", .scalar (.int qubits))]

/-- The store of two of them. -/
def storedChips : deviceEngine.Tables chipTables :=
  (SqlStore.insertMany deviceEngine (fun _ => "") [chip "ann" 5, chip "bob" 7] SqlStore.empty).state

/-- The devices that have few qubits. -/
def withFewQubits : Filter := [.field "qubits" (.dict [("$lt", .scalar (.int 6))])]

/-- They are to have more. -/
def setQubits : Update := [("$set", [("qubits", .scalar (.int 7))])]

theorem chipTables_schema : chipTables.schema = chipSchema := by
  have htables : getTablesOf chipSchema = some chipTables := (Option.some_get _).symm
  obtain ⟨_, hof⟩ := getTablesOf_spec htables
  exact hof.schema_eq

theorem chips_plain : HasPlainKey chipTables .string where
  lookup := by decide +kernel
  named := by decide +kernel
  scalar := by decide
  cased := by decide +kernel

theorem readsKey_chips : SqlStore.ReadsKey deviceEngine chipTables .string Scalar.toPython where
  key := by
    intro stored row _ k hk record h
    have hkey : chipTables.schema.storage.key = "name" := by rw [chipTables_schema]; rfl
    have hreached : (stored.recordOf row).reached (pathParts "name") = [row "name"] :=
      stored.reached_column row (by decide) (by decide +kernel) (by decide +kernel) (by decide +kernel)
    rw [pathParts_name (by decide +kernel), StoredRows.recordOf, Value.reached_field] at hreached
    rw [hkey] at hk
    obtain rfl := Except.ok.inj h
    rw [SqlStore.keyOf, hkey]
    show readKey _ = _
    rw [List.singleton_injective hreached, hk]
    rfl
  kind k hk := (SqlStore.kind_toPython k).trans hk
  bound k _ := bind_toPython _ k
  equal := by
    intro k k' hk hk'
    cases k with
    | text a =>
      cases k' with
      | text b => simp [Scalar.toPython, PyScalar.equals]
      | bool | int | float | datetime => cases hk'
    | bool | int | float | datetime => cases hk

/-- Whether a write counts as many records as this. -/
def isCounted (n : ℕ) (result : Except CallError Answer) : Bool :=
  match result with
  | .ok (.count m) => m == n
  | _ => false

theorem eq_of_isCounted {n : ℕ} {result : Except CallError Answer} (h : isCounted n result = true) :
    result = .ok (.count n) := by
  unfold isCounted at h
  split at h
  · rw [beq_iff_eq.mp h]
  · cases h

/-- The device of few qubits is changed, and counted. -/
theorem updates_matched_chips : ∃ (isMatched : Row → Bool) (s' : deviceEngine.Tables chipTables),
    SqlStore.updateMany deviceEngine (fun _ => 0) withFewQubits setQubits storedChips =
        ⟨.ok (.count 1), s'⟩ ∧
      s'.rows = storedChips.rows.map fun row =>
        if isMatched row then updatedRow deviceEngine chipTables setQubits row else row := by
  have htables : getTablesOf chipSchema = some chipTables := (Option.some_get _).symm
  have hcounted : (SqlStore.updateMany deviceEngine (fun _ => 0) withFewQubits setQubits
      storedChips).result = .ok (.count 1) := eq_of_isCounted (by decide +kernel)
  obtain ⟨isMatched, hrows, -⟩ := updates_matched htables chips_plain readsKey_chips
    (show SqlStore.updateMany deviceEngine (fun _ => 0) withFewQubits setQubits storedChips =
      ⟨.ok (.count 1), _⟩ from by rw [← hcounted])
  exact ⟨isMatched, _, by rw [← hcounted], hrows⟩

/-- Whether a write returns a record. -/
def isReturned (result : Except CallError Answer) : Bool :=
  match result with
  | .ok (.record (some _)) => true
  | _ => false

/-- An update of one returns it as it was, and leaves the record of the other. -/
theorem updates_first_chips : ∃ row ∈ storedChips.rows, ∃ (record : Record)
    (s' : deviceEngine.Tables chipTables),
    SqlStore.updateOne deviceEngine (fun _ => 0) (fun _ => "") withFewQubits setQubits false .before
        storedChips = ⟨.ok (.record (some record)), s'⟩ ∧
      ∀ r ∈ storedChips.rows, r ≠ row →
        s'.stored.recordOf r = storedChips.stored.recordOf r := by
  have htables : getTablesOf chipSchema = some chipTables := (Option.some_get _).symm
  have hreturned : isReturned (SqlStore.updateOne deviceEngine (fun _ => 0) (fun _ => "")
      withFewQubits setQubits false .before storedChips).result = true := by decide +kernel
  have hids : ∀ row ∈ storedChips.rows, row rowId ≠ .null := by
    have hall : (storedChips.rows.all fun row => !isNullValue (row rowId)) = true := by
      decide +kernel
    intro row hrow hnull
    have hid := List.all_eq_true.mp hall row hrow
    rw [hnull] at hid
    cases hid
  cases h : SqlStore.updateOne deviceEngine (fun _ => 0) (fun _ => "") withFewQubits setQubits false
    .before storedChips with
  | mk result s' =>
    rw [h] at hreturned
    cases result with
    | error e => cases hreturned
    | ok answer =>
      obtain ⟨isMatched, hnone, hsome, -⟩ := updates_first htables chips_plain hids h
      cases hfind : storedChips.rows.find? isMatched with
      | none =>
        rw [(hnone hfind).1] at hreturned
        cases hreturned
      | some row =>
        obtain ⟨-, hothers, record, rfl, -⟩ := hsome row hfind
        exact ⟨row, List.mem_of_find?_eq_some hfind, record, s', rfl, hothers⟩

end Mss
