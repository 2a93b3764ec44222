import Mss.ExpiringUpdates
import Mss.Storage.Deletes
import Mss.Storage.Reads

/-!
# Deletions from a table

A deletion from a schema's table takes away rows, with their child rows, and leaves every other
record of the schema as it was. Where what it takes away has expired, no read can tell.

* **`Trimmed`**: what is left of some stored rows, with the child rows of what is left.
* `Stable`: a clause that what is left does not change; `yields_stable_filter`: that of any filter.
* `reads_trimmed`: the reads where only what has expired is taken away.
* **`trimmed_deleteRows`**: a deletion trims the rows, and raises nothing; `eval_expiredClause`: the
  clause of a deletion of what has expired.
-/

namespace Mss

open Storage

/-! ## What is left of some rows -/

section

variable {tables : SchemaTables} {keep keep' : Row → Bool}
  {stored stored' stored'' : StoredRows tables} {database : SqlDatabase}

theorem recordOf_congr {row : Row} (h : ∀ list ∈ tables.listTables,
    stored'.elementsOf row list.1 list.2 = stored.elementsOf row list.1 list.2) :
    stored'.recordOf row = stored.recordOf row := by
  have hlists : (tables.listTables.map fun list =>
      (list.1, Value.list (stored'.elementsOf row list.1 list.2))) =
      tables.listTables.map fun list =>
        (list.1, .list (stored.elementsOf row list.1 list.2)) :=
    List.map_congr_left fun list hlist => by rw [h list hlist]
  unfold StoredRows.recordOf
  rw [hlists]

/-- Whether a child row is of one of the rows. -/
def isChildOfAny (tables : SchemaTables) (listTable : ListTable) (rows : List Row) (child : Row) :
    Bool :=
  rows.any fun row => isChildOf (row tables.schema.storage.key) (child listTable.parentColumn)

/-- **What is left of the stored rows** where some are kept: those, with their child rows. -/
structure Trimmed (keep : Row → Bool) (stored stored' : StoredRows tables) : Prop where
  rows : stored'.rows = stored.rows.filter keep
  childRows : ∀ list ∈ tables.listTables,
    stored'.childRows list.1 = (stored.childRows list.1).filter
      (isChildOfAny tables list.2 stored'.rows)

namespace Trimmed

theorem filter_childRows (h : Trimmed keep stored stored') {list : String × ListTable}
    (hlist : list ∈ tables.listTables) {test : Row → Bool}
    (htest : ∀ child, test child = true → isChildOfAny tables list.2 stored'.rows child = true) :
    (stored'.childRows list.1).filter test = (stored.childRows list.1).filter test := by
  rw [h.childRows list hlist, List.filter_filter]
  refine List.filter_congr fun child _ => ?_
  cases hchild : test child with
  | true => rw [htest child hchild, Bool.true_and]
  | false => rfl

theorem congr (h : Trimmed keep stored stored') (hkeep : ∀ row ∈ stored.rows, keep row = keep' row) :
    Trimmed keep' stored stored' where
  rows := h.rows.trans (List.filter_congr hkeep)
  childRows := h.childRows

theorem trans (h : Trimmed keep stored stored') (h' : Trimmed keep' stored' stored'') :
    Trimmed (fun row => keep row && keep' row) stored stored'' where
  rows := by
    rw [h'.rows, h.rows, List.filter_filter]
    exact List.filter_congr fun row _ => Bool.and_comm _ _
  childRows list hlist := by
    rw [h'.childRows list hlist]
    refine h.filter_childRows hlist fun child hchild => ?_
    obtain ⟨row, hrow, hparent⟩ := List.any_eq_true.mp hchild
    rw [h'.rows] at hrow
    exact List.any_eq_true.mpr ⟨row, List.mem_of_mem_filter hrow, hparent⟩

theorem isChildOfAny_of_mem {rows : List Row} {listTable : ListTable} {row child : Row}
    (hrow : row ∈ rows)
    (h : isChildOf (row tables.schema.storage.key) (child listTable.parentColumn) = true) :
    isChildOfAny tables listTable rows child = true :=
  List.any_eq_true.mpr ⟨row, hrow, h⟩

theorem elementsOf (h : Trimmed keep stored stored') {row : Row} (hrow : row ∈ stored'.rows)
    {list : String × ListTable} (hlist : list ∈ tables.listTables) :
    stored'.elementsOf row list.1 list.2 = stored.elementsOf row list.1 list.2 := by
  unfold StoredRows.elementsOf
  rw [h.filter_childRows hlist fun child hchild => isChildOfAny_of_mem hrow hchild]

/-- **The record of a row that is left** is as it was. -/
theorem recordOf (h : Trimmed keep stored stored') {row : Row} (hrow : row ∈ stored'.rows) :
    stored'.recordOf row = stored.recordOf row :=
  recordOf_congr fun _ hlist => h.elementsOf hrow hlist

end Trimmed

/-! ## Clauses -/

/-- A clause on the columns of a row: no other row plays a part. -/
def OnColumns (database : SqlDatabase) (tables : SchemaTables) (clause : Clause) : Prop :=
  ∀ (stored stored' : StoredRows tables) row,
    clause.eval database stored row = clause.eval database stored' row

/-- **A clause that what is left does not change**, at a row that is left. -/
def Stable (database : SqlDatabase) (tables : SchemaTables) (clause : Clause) : Prop :=
  ∀ keep (stored stored' : StoredRows tables), Trimmed keep stored stored' →
    ∀ row ∈ stored'.rows, clause.eval database stored' row = clause.eval database stored row

theorem OnColumns.stable {clause : Clause} (h : OnColumns database tables clause) :
    Stable database tables clause :=
  fun _ _ _ _ _ _ => h _ _ _

theorem evalEach_congr {clauses : List Clause} {row : Row}
    (h : ∀ clause ∈ clauses, clause.eval database stored' row = clause.eval database stored row) :
    Clause.evalEach database stored' clauses row = Clause.evalEach database stored clauses row := by
  rw [evalEach_eq, evalEach_eq]
  exact List.map_congr_left h

theorem onColumns_and {clauses : List Clause}
    (h : ∀ clause ∈ clauses, OnColumns database tables clause) :
    OnColumns database tables (.and clauses) := by
  intro stored stored' row
  rw [Clause.eval, Clause.eval, evalEach_congr fun clause hclause => h clause hclause _ _ row]

theorem stable_and {clauses : List Clause} (h : ∀ clause ∈ clauses, Stable database tables clause) :
    Stable database tables (.and clauses) := by
  intro keep stored stored' htrim row hrow
  rw [Clause.eval, Clause.eval, evalEach_congr fun clause hclause => h clause hclause _ _ _ htrim row hrow]

theorem stable_or {clauses : List Clause} (h : ∀ clause ∈ clauses, Stable database tables clause) :
    Stable database tables (.or clauses) := by
  intro keep stored stored' htrim row hrow
  rw [Clause.eval, Clause.eval, evalEach_congr fun clause hclause => h clause hclause _ _ _ htrim row hrow]

theorem stable_not {clause : Clause} (h : Stable database tables clause) :
    Stable database tables (.not clause) := by
  intro keep stored stored' htrim row hrow
  rw [Clause.eval, Clause.eval, h _ _ _ htrim row hrow]

/-- **An EXISTS on a child table** looks at the child rows of its own row. -/
theorem stable_existsElement {fieldName : String} {listTable : ListTable}
    (hlist : (fieldName, listTable) ∈ tables.listTables) {conditions : List Clause}
    (h : ∀ clause ∈ conditions, OnColumns database tables clause) :
    Stable database tables (existsElement tables fieldName listTable conditions) := by
  intro keep stored stored' htrim row hrow
  have hconditions (child : Row) : Clause.evalEach database stored' conditions child =
      Clause.evalEach database stored conditions child :=
    evalEach_congr fun clause hclause => h clause hclause _ _ child
  have hfilter := htrim.filter_childRows hlist fun child hchild =>
    Trimmed.isChildOfAny_of_mem hrow hchild
  unfold existsElement
  rw [Clause.eval, Clause.eval]
  simp only [hconditions]
  rw [← List.any_filter, ← List.any_filter, hfilter]

end

/-! ## Filters -/

theorem forall_right_of_forall₂ {A B : Type} {p : B → Prop} {l : List A} {m : List B}
    (h : List.Forall₂ (fun _ b => p b) l m) : ∀ b ∈ m, p b := by
  induction h with
  | nil => simp
  | cons hb _ ih => exact List.forall_mem_cons.mpr ⟨hb, ih⟩

section

variable {lower : String → String} {database : SqlDatabase} {tables : SchemaTables}

/-- Whatever is raised is no matter: only what is translated is looked at. -/
def AnyError (_ : PyError) : Prop := True

theorem yields_iterate (operand : PyValue) {B : Type} {f : List PyValue → B} {p : B → Prop}
    (h : ∀ items, p (f items)) :
    Yields AnyError (do let items ← iterate operand; return f items) p := by
  cases hitems : iterate operand with
  | ok items => exact h items
  | error e => trivial

theorem yields_onColumns_order (comparison : Comparison) (column : Column) (v : PyValue) :
    Yields AnyError (getOrderClause comparison column v)
      fun clauses => ∀ clause ∈ clauses, OnColumns database tables clause := by
  unfold getOrderClause
  split
  · trivial
  · trivial
  · exact .ok (List.forall_mem_singleton.mpr fun _ _ _ => rfl)

theorem onColumns_getAnyOfClause (column : Column) (values : List PyValue) :
    OnColumns database tables (getAnyOfClause column values) := by
  unfold getAnyOfClause
  dsimp only
  split_ifs <;> exact fun _ _ _ => rfl

theorem onColumns_getNoneOfClause (column : Column) (values : List PyValue) :
    OnColumns database tables (getNoneOfClause column values) := by
  unfold getNoneOfClause
  dsimp only
  split_ifs <;> exact fun _ _ _ => rfl

theorem yields_onColumns_operator (column : Column) (isCaseInsensitive : Bool)
    (operator : String) (operand : PyValue) :
    Yields AnyError (getOperatorClauses lower column isCaseInsensitive operator operand)
      fun clauses => ∀ clause ∈ clauses, OnColumns database tables clause := by
  unfold getOperatorClauses
  dsimp only
  cases FieldOperator.ofName operator with
  | none => exact .ok nofun
  | some op =>
    cases op with
    | «in» =>
      exact yields_iterate operand fun _ =>
        List.forall_mem_singleton.mpr (onColumns_getAnyOfClause column _)
    | nin =>
      exact yields_iterate operand fun _ =>
        List.forall_mem_singleton.mpr (onColumns_getNoneOfClause column _)
    | eq =>
      refine .ok (List.forall_mem_singleton.mpr ?_)
      unfold getEqualityClause
      split_ifs <;> exact fun _ _ _ => rfl
    | ne =>
      refine .ok (List.forall_mem_singleton.mpr ?_)
      unfold getInequalityClause
      split_ifs <;> exact fun _ _ _ => rfl
    | gt | gte | lt | lte => exact yields_onColumns_order _ column _
    | regex =>
      dsimp only
      cases searchedTextOf operand with
      | ok text => exact List.forall_mem_singleton.mpr fun _ _ _ => rfl
      | error e => trivial
    | options => exact .ok nofun

/-- **The clause of a condition on a column** is on it. -/
theorem yields_onColumns_comparison (column : Column) (condition : PyValue)
    (isCaseInsensitive : Bool) :
    Yields AnyError (getComparisonClause lower column condition isCaseInsensitive)
      (OnColumns database tables) := by
  have hentry (entry : String × PyValue) : Yields AnyError
      (getOperatorClauses lower column isCaseInsensitive entry.1 entry.2)
        fun clauses => ∀ clause ∈ clauses, OnColumns database tables clause :=
    yields_onColumns_operator column isCaseInsensitive entry.1 entry.2
  refine (Yields.mapM fun entry _ => hentry entry).bind fun clauses hclauses =>
    Yields.ok (onColumns_and fun clause hclause => ?_)
  obtain ⟨group, hgroup, hclause⟩ := List.mem_flatten.mp hclause
  exact forall_right_of_forall₂ hclauses group hgroup clause hclause

theorem stable_membership {name : String} {listTable : ListTable}
    (hlist : (name, listTable) ∈ tables.listTables) (values : List PyValue) :
    Stable database tables (getListMembershipClause tables name listTable values) := by
  unfold getListMembershipClause
  dsimp only
  split_ifs
  · exact fun _ _ _ _ _ _ => rfl
  · exact stable_existsElement hlist (List.forall_mem_singleton.mpr fun _ _ _ => rfl)

theorem yields_stable_listOperator {name : String} {listTable : ListTable}
    (hlist : (name, listTable) ∈ tables.listTables) (operator : String) (operand : PyValue) :
    Yields AnyError (getListOperatorClause tables name listTable operator operand)
      (Stable database tables) := by
  unfold getListOperatorClause
  dsimp only
  cases FieldOperator.ofName operator with
  | none => trivial
  | some op =>
    cases op with
    | eq =>
      dsimp only
      split_ifs
      · trivial
      · exact stable_membership hlist _
    | ne =>
      dsimp only
      split_ifs
      · trivial
      · exact stable_not (stable_membership hlist _)
    | «in» => exact yields_iterate operand fun _ => stable_membership hlist _
    | nin => exact yields_iterate operand fun _ => stable_not (stable_membership hlist _)
    | gt | gte | lt | lte | regex | options => trivial

theorem yields_stable_elementMatch {name : String} {listTable : ListTable}
    (hlist : (name, listTable) ∈ tables.listTables) (elementFilter : PyValue) :
    Yields AnyError (getElementMatchClause lower tables name listTable elementFilter)
      (Stable database tables) := by
  have hfield (entry : String × PyValue) : Yields AnyError
      (getElementFieldClause lower listTable entry) (OnColumns database tables) := by
    unfold getElementFieldClause
    split_ifs
    · trivial
    · exact yields_onColumns_comparison _ _ _
  cases elementFilter with
  | dict entries =>
    refine (Yields.mapM fun entry _ => hfield entry).bind fun conditions hconditions =>
      Yields.ok (stable_existsElement hlist (forall_right_of_forall₂ hconditions))
  | none | scalar | sequence => trivial

/-- **The clause of a condition on a list** is stable. -/
theorem yields_stable_list {name : String} {listTable : ListTable}
    (hlist : (name, listTable) ∈ tables.listTables) (condition : PyValue) :
    Yields AnyError (translateListCondition lower tables name listTable condition)
      (Stable database tables) := by
  unfold translateListCondition
  dsimp only
  split_ifs
  · split
    · split_ifs
      · exact yields_stable_elementMatch hlist _
      · trivial
    · trivial
  · exact (Yields.mapM fun entry _ => yields_stable_listOperator hlist entry.1 entry.2).bind
      fun clauses hclauses => Yields.ok (stable_and (forall_right_of_forall₂ hclauses))

theorem yields_stable_field (name : String) (condition : PyValue) :
    Yields AnyError (translateField lower tables name condition) (Stable database tables) := by
  unfold translateField
  cases hlist : tables.listTables.lookup name with
  | some listTable => exact yields_stable_list (mem_of_lookup hlist) condition
  | none =>
    unfold translateColumnCondition
    cases getColumn tables name with
    | ok column => exact (yields_onColumns_comparison _ _ _).mono fun _ h => h.stable
    | error e => trivial

mutual

theorem yields_stable_entry : ∀ entry : Entry,
    Yields AnyError (translateEntry lower tables entry) (Stable database tables)
  | .field name condition => yields_stable_field name condition
  | .logical .and filters => (yields_stable_items filters).map fun _ h => stable_and h
  | .logical .or filters => (yields_stable_items filters).map fun _ h => stable_or h

theorem yields_stable_entries : ∀ filter : List Entry,
    Yields AnyError (translateEntries lower tables filter)
      fun clauses => ∀ clause ∈ clauses, Stable database tables clause
  | [] => .ok nofun
  | entry :: entries => by
    rw [translateEntries]
    exact (yields_stable_entry entry).bind fun clause hclause =>
      (yields_stable_entries entries).bind fun clauses hclauses =>
        .ok (List.forall_mem_cons.mpr ⟨hclause, hclauses⟩)

theorem yields_stable_items : ∀ filters : List (List Entry),
    Yields AnyError (translateItems lower tables filters)
      fun clauses => ∀ clause ∈ clauses, Stable database tables clause
  | [] => .ok nofun
  | filter :: filters => by
    rw [translateItems]
    refine (yields_stable_entries filter).bind fun clauses hclauses =>
      (yields_stable_items filters).bind fun items hitems =>
        .ok (List.forall_mem_cons.mpr ⟨?_, hitems⟩)
    exact stable_and (List.forall_mem_cons.mpr ⟨fun _ _ _ _ _ _ => rfl, hclauses⟩)

end

/-- **The WHERE clause of a filter** is stable, and true of no row that has expired. -/
theorem yields_stable_filter (now : ℤ) (filter : Filter) :
    Yields AnyError (translateFilter lower tables now filter) fun clause =>
      Stable database tables clause ∧ ∀ field ∈ tables.schema.storage.expires,
        ∀ (stored : StoredRows tables) row, clause.eval database stored row = .yes →
          (Clause.or [.isNull ⟨field, false⟩, .compare .gt ⟨field, false⟩
            (.scalar (.datetime now (some 0)))]).eval database stored row = .yes := by
  have hconditions : Yields AnyError (translateConditions lower tables filter)
      (Stable database tables) := (yields_stable_entries filter).bind fun clauses hclauses =>
    Yields.ok (stable_and (List.forall_mem_cons.mpr ⟨fun _ _ _ _ _ _ => rfl, hclauses⟩))
  refine hconditions.bind fun clause hclause => ?_
  cases tables.schema.storage.expires with
  | none => exact .ok ⟨stable_and (List.forall_mem_singleton.mpr hclause), nofun⟩
  | some field =>
    dsimp only
    split_ifs
    · trivial
    · refine .ok ⟨stable_and ?_, ?_⟩
      · refine List.forall_mem_cons.mpr ⟨hclause, List.forall_mem_singleton.mpr ?_⟩
        exact fun _ _ _ _ _ _ => rfl
      · intro later hlater stored row hyes
        cases hlater
        exact eval_and.mp hyes _ (by simp)

end

/-! ## Reads -/

section

variable {R : Type} {lower : String → String} {database : SqlDatabase} {text : TextOrder}
  {tables : SchemaTables} {childFields : List String}
  {validate : Value Scalar → Except ValidationError R} {plan : SqlPlan text} {keep : Row → Bool}
  {stored stored' : StoredRows tables} {now : ℤ}

/-- **Only expired rows are not kept.** -/
def DropsExpired (keep : Row → Bool) (stored : StoredRows tables) (now : ℤ) : Prop :=
  ∀ row ∈ stored.rows, keep row = false →
    ∃ field ∈ tables.schema.storage.expires, isUnexpired now (row field) = false

theorem matchedRows_trimmed (hof : tables.Of tables.schema childFields)
    (htrim : Trimmed keep stored stored') (hdrops : DropsExpired keep stored now) {filter : Filter}
    {clause : Clause} (hclause : translateFilter lower tables now filter = .ok clause) :
    matchedRows database stored' clause = matchedRows database stored clause := by
  have hyields := @yields_stable_filter lower database tables now filter
  rw [hclause] at hyields
  obtain ⟨hstable, hunexpired⟩ := hyields
  unfold matchedRows
  rw [htrim.rows, List.filter_filter]
  refine List.filter_congr fun row hrow => ?_
  cases hkeep : keep row with
  | true =>
    have hleft : row ∈ stored'.rows := htrim.rows ▸ List.mem_filter.mpr ⟨hrow, hkeep⟩
    rw [Bool.and_true, hstable keep stored stored' htrim row hleft]
  | false =>
    obtain ⟨field, hfield, hexpired⟩ := hdrops row hrow hkeep
    rw [Bool.and_false, eq_comm, beq_eq_false_iff_ne]
    intro hyes
    have hlater := (eval_expires hof hfield hrow).mp (hunexpired field hfield stored row hyes)
    rw [unexpired_recordOf hof hfield, hexpired] at hlater
    cases hlater

theorem mem_of_mem_page {A : Type} {skip : ℕ} {limit : Option ℕ} {l : List A} {a : A}
    (h : a ∈ page skip limit l) : a ∈ l := by
  cases limit with
  | none => exact List.mem_of_mem_drop h
  | some n => exact List.mem_of_mem_drop (List.mem_of_mem_take h)

/-- **A find** finds the same records. -/
theorem findRecords_trimmed (hof : tables.Of tables.schema childFields)
    (htrim : Trimmed keep stored stored') (hdrops : DropsExpired keep stored now) (filter : Filter)
    (sort : List String) (skip : ℕ) (limit : Option ℕ) (isRead : Bool) :
    SqlStore.findRecords lower database validate plan stored' now filter sort skip limit isRead =
      SqlStore.findRecords lower database validate plan stored now filter sort skip limit isRead := by
  unfold SqlStore.findRecords
  cases hclause : translateFilter lower tables now filter with
  | error e => rfl
  | ok clause =>
    cases translateSort tables sort with
    | error e => rfl
    | ok order =>
      have hmatched : matchedRows database stored' clause = matchedRows database stored clause :=
        matchedRows_trimmed hof htrim hdrops hclause
      have hrows : selectRows database plan stored' clause order skip limit =
          selectRows database plan stored clause order skip limit := by
        rw [selectRows, selectRows, hmatched]
      have hrecord : ∀ row ∈ selectRows database plan stored clause order skip limit,
          stored'.recordOf row = stored.recordOf row := by
        intro row hrow
        have hmem := ((plan order).perm _).mem_iff.mp (mem_of_mem_page hrow)
        rw [← hmatched] at hmem
        exact htrim.recordOf (List.mem_filter.mp hmem).1
      simp only [Except.mapError, bind, Except.bind]
      rw [hrows]
      have hread : (selectRows database plan stored clause order skip limit).mapM (fun row =>
          readStored tables.schema validate (stored'.recordOf row)) =
          (selectRows database plan stored clause order skip limit).mapM fun row =>
            readStored tables.schema validate (stored.recordOf row) :=
        mapM_congr_mem fun row hrow => by rw [hrecord row hrow]
      have hvalidate : (selectRows database plan stored clause order skip limit).mapM
          (validateRow validate stored') =
          (selectRows database plan stored clause order skip limit).mapM
            (validateRow validate stored) :=
        mapM_congr_mem fun row hrow => by rw [validateRow, validateRow, hrecord row hrow]
      rw [hread, hvalidate]

/-- **Every read answers the same** where only expired rows are gone. -/
theorem reads_trimmed (hof : tables.Of tables.schema childFields)
    (htrim : Trimmed keep stored stored') (hdrops : DropsExpired keep stored now) :
    SqlStore.reads lower database validate plan stored' now =
      SqlStore.reads lower database validate plan stored now := by
  unfold SqlStore.reads
  congr 1
  · funext key
    unfold SqlStore.get
    rw [findRecords_trimmed hof htrim hdrops]
  · funext filter sort skip limit
    exact findRecords_trimmed hof htrim hdrops filter sort skip limit true
  · funext filter
    unfold SqlStore.count
    cases hclause : translateFilter lower tables now filter with
    | error e => rfl
    | ok clause =>
      simp only [Except.mapError, bind, Except.bind]
      rw [matchedRows_trimmed hof htrim hdrops hclause]
  · funext field filter
    unfold SqlStore.findDistinct
    cases hclause : translateFilter lower tables now filter with
    | error e => rfl
    | ok clause =>
      have hmatched : matchedRows database stored' clause = matchedRows database stored clause :=
        matchedRows_trimmed hof htrim hdrops hclause
      simp only [Except.mapError, bind, Except.bind]
      rw [hmatched]
      cases hlist : tables.listTables.lookup field with
      | none => rfl
      | some listTable =>
        have hchildren : SqlStore.childrenOfRows stored' field listTable
            (matchedRows database stored clause) =
            SqlStore.childrenOfRows stored field listTable (matchedRows database stored clause) := by
          refine htrim.filter_childRows (mem_of_lookup hlist) fun child hchild => ?_
          obtain ⟨row, hrow, hparent⟩ := List.any_eq_true.mp hchild
          rw [← hmatched] at hrow
          exact Trimmed.isChildOfAny_of_mem (List.mem_filter.mp hrow).1 hparent
        dsimp only
        rw [hchildren]

end

/-! ## Deletions -/

namespace SqlStore

section

variable {database : SqlDatabase} {references : References} {tables : SchemaTables}
  {childFields : List String}

/-- **Rows may be taken away** with their child rows: no constraint is violated. -/
theorem trimmed_deleteRows (hof : tables.Of tables.schema childFields) (test : Row → Bool)
    (s : SqlTables database references tables) :
    ∃ s', deleteRows s test = .ok s' ∧
      Trimmed (fun row => !test row) s.stored.toStoredRows s'.stored.toStoredRows := by
  let rows := s.rows.filter fun row => !test row
  let childRows : String → List Row := fun field =>
    (tables.listTables.lookup field).elim (s.childRows field) fun listTable =>
      (s.childRows field).filter (isChildOfAny tables listTable rows)
  have hdelete : deleteRows s test = execute ⟨rows, childRows⟩ := by
    refine congrArg execute (congrArg (RawTables.mk rows) (funext fun field => ?_))
    show _ = (tables.listTables.lookup field).elim _ _
    cases tables.listTables.lookup field <;> rfl
  have hlist : ∀ list ∈ tables.listTables,
      childRows list.1 = (s.childRows list.1).filter (isChildOfAny tables list.2 rows) := by
    intro list hmem
    have hlookup : tables.listTables.lookup list.1 = some list.2 := lookup_of_mem hof.names hmem
    show (tables.listTables.lookup list.1).elim _ _ = _
    rw [hlookup]
    rfl
  have hrows : ∀ row ∈ rows, row ∈ s.rows := fun row hrow => List.mem_of_mem_filter hrow
  have hchildren : ∀ list ∈ tables.listTables, ∀ child ∈ childRows list.1,
      child ∈ s.childRows list.1 ∧ isChildOfAny tables list.2 rows child = true := by
    intro list hmem child hchild
    rw [hlist list hmem] at hchild
    exact List.mem_filter.mp hchild
  obtain ⟨s', hexecute, hraw⟩ := @execute_ok database references tables ⟨rows, childRows⟩
    ⟨fun row hrow => s.typed.1 row (hrows row hrow),
      fun list hmem child hchild => s.typed.2 list hmem child (hchildren list hmem child hchild).1⟩
    ⟨fun row hrow => s.notNull.1 row (hrows row hrow),
      fun list hmem child hchild => s.notNull.2 list hmem child (hchildren list hmem child hchild).1⟩
    ⟨s.unique.1.filter _, fun columns hcolumns => (s.unique.2.1 columns hcolumns).filter _,
      fun list hmem => by
        show (childRows list.1).Pairwise _
        rw [hlist list hmem]
        exact (s.unique.2.2 list hmem).filter _⟩
    ⟨fun list hmem child hchild => List.any_eq_true.mp (hchildren list hmem child hchild).2,
      fun field hfield hcolumn row hrow => s.foreignKeys.2.1 field hfield hcolumn row (hrows row hrow),
      fun list hmem hreference child hchild =>
        s.foreignKeys.2.2 list hmem hreference child (hchildren list hmem child hchild).1⟩
  refine ⟨s', hdelete.trans hexecute, congrArg RawTables.rows hraw, fun list hmem => ?_⟩
  have hchildRows : s'.childRows = childRows := congrArg RawTables.childRows hraw
  have hsame : s'.rows = rows := congrArg RawTables.rows hraw
  show s'.childRows list.1 = (s.childRows list.1).filter (isChildOfAny tables list.2 s'.rows)
  rw [hchildRows, hsame, hlist list hmem]

theorem trimmed_refl (s : SqlTables database references tables) {keep : Row → Bool}
    (hkeep : ∀ row ∈ s.rows, keep row = true) :
    Trimmed keep s.stored.toStoredRows s.stored.toStoredRows where
  rows := (List.filter_eq_self.mpr hkeep).symm
  childRows list hlist := by
    refine (List.filter_eq_self.mpr fun child hchild => ?_).symm
    exact List.any_eq_true.mpr (s.foreignKeys.1 list hlist child hchild)

/-- Whether a row has not expired at an instant, if its schema's records expire. -/
def isLive (tables : SchemaTables) (now : ℤ) (row : Row) : Bool :=
  tables.schema.storage.expires.all fun field => isUnexpired now (row field)

/-- **The clause of a sweep** is true of the rows that have expired. -/
theorem eval_expiredClause (hof : tables.Of tables.schema childFields) {field : String}
    (hfield : tables.schema.storage.expires = some field) {stored : StoredRows tables} {row : Row}
    (hrow : row ∈ stored.rows) (now : ℤ) :
    ((expiredClause field now).eval database stored row == .yes) = !isUnexpired now (row field) := by
  obtain ⟨-, -, -, -, hmem⟩ := expires_column hof hfield
  have hx : Fits .dateTime (row field) := stored.typed row hrow _ hmem
  rw [expiredClause, eval_compare]
  obtain hnull | ⟨a, ha, hkind⟩ := hx.cases (by decide)
  · rw [hnull, compare_null]
    rfl
  · cases a with
    | datetime t =>
      have hnow : isKept database.dialect (.scalar (.datetime now (some 0))) = true := by
        simp [isKept]
      have hcompare : database.compare .le (.scalar (.datetime t))
          (.scalar (.datetime now (some 0))) =
          .ofBool (Comparison.le.test (.datetime t) (.datetime (now - 0))) :=
        compare_scalar .le (a := .datetime t) rfl hnow
      rw [ha, hcompare, Bool.eq_iff_iff, beq_iff_eq, Truth.ofBool_eq_yes]
      simp [Comparison.test, Scalar.lt, isUnexpired]
    | bool | int | float | text => cases hkind

end

end SqlStore

theorem isUnexpired_mono {earlier later : ℤ} (h : earlier ≤ later) {x : Value Scalar}
    (hx : isUnexpired earlier x = false) : isUnexpired later x = false := by
  rw [← Bool.not_eq_true, isUnexpired_iff] at hx ⊢
  rintro (rfl | ⟨t, rfl, ht⟩)
  · exact hx (.inl rfl)
  · exact hx (.inr ⟨t, rfl, h.trans_lt ht⟩)

end Mss
