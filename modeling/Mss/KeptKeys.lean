import Mss.FailedWrites
import Mss.ListUpdates
import Mss.UniqueKeys

/-!
# No update moves a record to another key

An update may set a record's key only to the value that its filter asks for. The check compares the
two values in Python, while the records are matched by the database, which may take other keys for
equal: those that differ in case, or numbers of another type.

* `PyError.IsOther`: the errors that are not of SQL's own check of the key.
* `SqlStore.keys_write`: SQL never writes a key.
* **`SqlStore.raises_keyChanged_iff`**: when SQL's own check refuses an accepted update.
* `MongoCollection.UpdatesByField`: what MongoDB's updates do to a field.
* **`MongoStore.perm_keys_iff`**: when MongoDB leaves the stored keys.
* **`moves_no_key`**: an update that is accepted.
-/

namespace Mss

open Storage

/-! ## Errors of other kinds -/

/-- What SQL's own check raises. -/
def keyChanged (schema : Schema) : PyError :=
  .queryError ("an update cannot change " ++ schema.name ++ "." ++ schema.storage.key)

/-- An error that is not of that check. -/
def PyError.IsOther : PyError → Prop
  | queryError message => message.toList.head? ≠ some 'a'
  | _ => True

theorem head?_append {first : String} (hfirst : first ≠ "") (rest : String) :
    (first ++ rest).toList.head? = first.toList.head? := by
  have hne : first.toList ≠ [] := fun h => hfirst (String.toList_inj.mp (by simpa using h))
  rw [String.toList_append, List.head?_append_of_ne_nil _ hne]

theorem not_isOther_keyChanged (schema : Schema) : ¬ (keyChanged schema).IsOther := by
  rw [keyChanged, PyError.IsOther, String.append_assoc, String.append_assoc, head?_append (by decide)]
  decide

section

variable {lower : String → String} {tables : SchemaTables} {name : String}

theorem other_getColumn (tables : SchemaTables) (name : String) :
    Yields PyError.IsOther (getColumn tables name) fun _ => True := by
  unfold getColumn
  split_ifs
  · rw [String.append_assoc]
    exact (head?_append (by decide) _).trans_ne (by decide)
  · rw [String.append_assoc]
    exact (head?_append (by decide) _).trans_ne (by decide)
  · simp only [String.append_assoc]
    exact (head?_append (by decide) _).trans_ne (by decide)
  · exact .ok trivial

theorem other_iterate (v : PyValue) : Yields PyError.IsOther (iterate v) fun _ => True := by
  unfold iterate
  split <;> trivial

theorem other_getOrderClause (comparison : Comparison) (column : Column) (value : PyValue) :
    Yields PyError.IsOther (getOrderClause comparison column value) fun _ => True := by
  unfold getOrderClause
  split <;> trivial

theorem other_getOperatorClauses (column : Column) (isCaseInsensitive : Bool) (operator : String)
    (operand : PyValue) :
    Yields PyError.IsOther (getOperatorClauses lower column isCaseInsensitive operator operand)
      fun _ => True := by
  unfold getOperatorClauses
  dsimp only
  split
  · exact (other_iterate operand).bind fun _ _ => .ok trivial
  · exact (other_iterate operand).bind fun _ _ => .ok trivial
  · trivial
  · trivial
  · exact other_getOrderClause _ _ _
  · exact other_getOrderClause _ _ _
  · exact other_getOrderClause _ _ _
  · exact other_getOrderClause _ _ _
  · unfold searchedTextOf
    split <;> trivial
  · trivial
  · trivial

theorem other_getComparisonClause (column : Column) (condition : PyValue)
    (isCaseInsensitive : Bool) :
    Yields PyError.IsOther (getComparisonClause lower column condition isCaseInsensitive)
      fun _ => True :=
  (Yields.mapM (r := fun _ _ => True) fun _ _ => other_getOperatorClauses _ _ _ _).bind
    fun _ _ => .ok trivial

theorem other_getListOperatorClause (listTable : ListTable) (operator : String)
    (operand : PyValue) :
    Yields PyError.IsOther (getListOperatorClause tables name listTable operator operand)
      fun _ => True := by
  have hwhole (rest : String) :
      (PyError.queryError ("list field '" ++ name ++ rest)).IsOther := by
    rw [PyError.IsOther, String.append_assoc, head?_append (by decide)]
    decide
  unfold getListOperatorClause
  dsimp only
  split
  · split_ifs
    · exact hwhole _
    · trivial
  · split_ifs
    · exact hwhole _
    · trivial
  · exact (other_iterate operand).bind fun _ _ => .ok trivial
  · exact (other_iterate operand).bind fun _ _ => .ok trivial
  · have htakes := hwhole ("' takes no " ++ operator)
    rwa [← String.append_assoc] at htakes

theorem other_getElementMatchClause (listTable : ListTable) (elementFilter : PyValue) :
    Yields PyError.IsOther (getElementMatchClause lower tables name listTable elementFilter)
      fun _ => True := by
  unfold getElementMatchClause
  split
  · refine (Yields.mapM (r := fun _ _ => True) fun entry _ => ?_).bind fun _ _ => .ok trivial
    unfold getElementFieldClause
    split_ifs
    · trivial
    · exact other_getComparisonClause _ _ _
  · trivial

theorem other_translateField (condition : PyValue) :
    Yields PyError.IsOther (translateField lower tables name condition) fun _ => True := by
  have honly : (PyError.queryError
      ("list field '" ++ name ++ "' is matched with $elemMatch")).IsOther := by
    rw [PyError.IsOther, String.append_assoc, head?_append (by decide)]
    decide
  unfold translateField
  split
  · unfold translateListCondition
    dsimp only
    split_ifs
    · split
      · split_ifs
        · exact other_getElementMatchClause _ _
        · exact honly
      · exact honly
    · exact (Yields.mapM (r := fun _ _ => True) fun _ _ =>
        other_getListOperatorClause _ _ _).bind fun _ _ => .ok trivial
  · exact (other_getColumn tables name).bind fun _ _ => other_getComparisonClause _ _ _

mutual

theorem other_translateEntry : ∀ entry : Entry,
    Yields PyError.IsOther (translateEntry lower tables entry) fun _ => True
  | .logical .and filters => (other_translateItems filters).map fun _ _ => trivial
  | .logical .or filters => (other_translateItems filters).map fun _ _ => trivial
  | .field _ condition => other_translateField condition

theorem other_translateEntries : ∀ filter : List Entry,
    Yields PyError.IsOther (translateEntries lower tables filter) fun _ => True
  | [] => trivial
  | entry :: entries => (other_translateEntry entry).bind fun _ _ =>
      (other_translateEntries entries).bind fun _ _ => .ok trivial

theorem other_translateItems : ∀ filters : List (List Entry),
    Yields PyError.IsOther (translateItems lower tables filters) fun _ => True
  | [] => trivial
  | filter :: filters => (other_translateEntries filter).bind fun _ _ =>
      (other_translateItems filters).bind fun _ _ => .ok trivial

end

/-- **The translation of a filter raises other errors only.** -/
theorem other_translateFilter (tables : SchemaTables) (now : ℤ) (filter : Filter) :
    Yields PyError.IsOther (translateFilter lower tables now filter) fun _ => True := by
  have hconditions : Yields PyError.IsOther (translateConditions lower tables filter)
      fun _ => True :=
    (other_translateEntries filter).bind fun _ _ => .ok trivial
  refine hconditions.bind fun clause _ => ?_
  split
  · trivial
  · split_ifs
    · trivial
    · exact (other_getOrderClause _ _ _).bind fun _ _ => .ok trivial

end

/-! ## SQL -/

/-- An error of a write that is not of the check. -/
def WriteError.IsOther : WriteError → Prop
  | .find (.raised error) => error.IsOther
  | _ => True

namespace SqlStore

section

variable {engine : SqlEngine} {tables : SchemaTables} {isoformat : ℤ → Option ℤ → String}

theorem other_translateChange (operator : UpdateOperator) (changes : Changes)
    (change : String × PyValue) :
    Yields PyError.IsOther (translateChange isoformat tables operator changes change)
      fun _ => True := by
  have hwritten (value : PyValue) : Yields PyError.IsOther
      (convertToWrittenValue isoformat tables change.1 value) fun _ => True := by
    unfold convertToWrittenValue
    split_ifs
    · trivial
    · exact (other_getColumn tables _).bind fun _ _ => .ok trivial
  have hscalar : Yields PyError.IsOther (getScalarListTable tables change.1) fun _ => True := by
    unfold getScalarListTable
    split
    · rw [String.append_assoc]
      exact (head?_append (by decide) _).trans_ne (by decide)
    · split_ifs
      · rw [String.append_assoc]
        exact (head?_append (by decide) _).trans_ne (by decide)
      · trivial
  cases operator with
  | set =>
    unfold translateChange
    dsimp only
    split_ifs
    · exact (other_iterate _).bind fun _ _ => .ok trivial
    · exact (hwritten _).bind fun _ _ => .ok trivial
  | setOnInsert => exact (hwritten _).bind fun _ _ => .ok trivial
  | inc => exact (other_getColumn tables _).bind fun _ _ => .ok trivial
  | addToSet => exact hscalar.bind fun _ _ => .ok trivial
  | pull => exact hscalar.bind fun _ _ => .ok trivial

theorem other_translateUpdate (update : Update) :
    Yields PyError.IsOther (translateUpdate isoformat tables update) fun _ => True := by
  have hfold (steps : List (UpdateOperator × (String × PyValue))) (changes : Changes) :
      Yields PyError.IsOther (steps.foldlM
        (fun changes step => translateChange isoformat tables step.1 changes step.2) changes)
        fun _ => True := by
    induction steps generalizing changes with
    | nil => trivial
    | cons step steps ih =>
      rw [List.foldlM_cons]
      exact (other_translateChange _ _ _).bind fun changes _ => ih changes
  rw [translateUpdate_eq]
  exact hfold _ _

theorem other_findToWrite (instant : ℤ) (filter : Filter) (limit : Option ℕ)
    (s : engine.Tables tables) :
    Yields WriteError.IsOther (findToWrite engine instant filter limit s) fun _ => True := by
  have hraised {A : Type} {x : Except PyError A} (hx : Yields PyError.IsOther x fun _ => True) :
      Yields (fun e => (WriteError.find e).IsOther) (x.mapError FindError.raised) fun _ => True :=
    hx.mapError fun _ he => he
  suffices h : Yields (fun e => (WriteError.find e).IsOther) (findRecords engine.lower
      engine.database engine.validate engine.plan s.stored.toStoredRows instant filter [] 0 limit
      false) fun _ => True from h.mapError fun _ he => he
  refine (hraised (other_translateFilter tables instant filter)).bind fun clause _ => ?_
  refine (hraised (x := translateSort tables []) trivial).bind fun order _ => ?_
  refine (Yields.mapM (r := fun _ _ => True) fun row _ => ?_).mono fun _ _ => trivial
  unfold validateRow
  cases engine.validate (s.stored.recordOf row) <;> trivial

theorem other_getRecord (instant : ℤ) (key : PyValue) (s : engine.Tables tables) :
    Yields WriteError.IsOther (getRecord engine instant key s) fun _ => True := by
  refine (other_findToWrite _ _ _ _).bind fun records _ => ?_
  split <;> trivial

theorem other_findFirstKey (instant : ℤ) (filter : Filter) (s : engine.Tables tables) :
    Yields WriteError.IsOther (findFirstKey engine instant filter s) fun _ => True := by
  refine Yields.bind (p := fun _ => True) ?_ fun _ _ => .ok trivial
  exact (other_translateFilter tables instant filter).mapError fun _ he => he

end

section

variable {database : SqlDatabase} {references : References} {tables : SchemaTables}
  {isoformat : ℤ → Option ℤ → String} {s s' : SqlTables database references tables}
  {key : Value Scalar}

theorem other_execute (raw : RawTables) :
    Yields WriteError.IsOther (execute raw : Except _ (SqlTables database references tables))
      fun _ => True := by
  unfold execute
  split_ifs <;> trivial

theorem other_listTableOf (field : String) :
    Yields WriteError.IsOther (listTableOf tables field) fun _ => True := by
  unfold listTableOf
  split <;> trivial

theorem other_getChildRows (listTable : ListTable) (elements : List PyValue) :
    Yields PyError.IsOther (getChildRows database.dialect isoformat listTable key elements)
      fun _ => True := by
  unfold getChildRows
  split
  · trivial
  · refine (Yields.mapM (r := fun _ _ => True) fun element _ => ?_).mono fun _ _ => trivial
    split <;> trivial

theorem other_foldlM {A X : Type} {f : A → X → Except WriteError A}
    (hf : ∀ a x, Yields WriteError.IsOther (f a x) fun _ => True) (xs : List X) (a : A) :
    Yields WriteError.IsOther (xs.foldlM f a) fun _ => True := by
  induction xs generalizing a with
  | nil => trivial
  | cons x xs ih =>
    rw [List.foldlM_cons]
    exact (hf a x).bind fun a _ => ih a

theorem other_writeLists (changes : Changes) (s : SqlTables database references tables) :
    Yields WriteError.IsOther (writeLists isoformat key changes s) fun _ => True := by
  refine (other_foldlM (fun s replacement => ?_) _ _).bind fun s _ =>
    (other_foldlM (fun s addition => ?_) _ _).bind fun s _ =>
      other_foldlM (fun s removal => ?_) _ _
  · refine (other_listTableOf _).bind fun listTable _ => (other_execute _).bind fun s _ => ?_
    split_ifs
    · trivial
    · refine Yields.bind (p := fun _ => True) ?_ fun _ _ => other_execute _
      exact (other_getChildRows listTable _).mapError fun _ he => he
  · refine (other_listTableOf _).bind fun listTable _ => ?_
    dsimp only
    unfold passOver
    split
    · trivial
    · exact other_execute _
  · exact (other_listTableOf _).bind fun listTable _ => other_execute _

/-- **The check refuses the changes** exactly if they give the record another key. -/
theorem writeChanges_keyChanged_iff {recordKey : PyValue} {changes : Changes} :
    writeChanges isoformat s recordKey changes = .error (.raised (keyChanged tables.schema)) ↔
      changesKey recordKey (changes.values.lookup tables.schema.storage.key) = true := by
  unfold writeChanges
  dsimp only
  split_ifs with hkey
  · exact iff_of_true rfl hkey
  · refine iff_of_false (fun h => ?_) hkey
    have hother : Yields WriteError.IsOther (do
        let s ← writeValues (boundKey database.dialect tables recordKey)
          (changes.values.filter fun change => change.1 != tables.schema.storage.key) s
        writeLists isoformat (boundKey database.dialect tables recordKey) changes s)
        fun _ => True := by
      refine Yields.bind (p := fun _ => True) ?_ fun s _ => other_writeLists changes s
      unfold writeValues
      split_ifs
      · trivial
      · exact other_execute _
    rw [h] at hother
    exact not_isOther_keyChanged _ hother

/-! ### Keys -/

/-- **A write of changes leaves every row's key.** -/
theorem keys_writeChanges {recordKey : PyValue} {changes : Changes}
    (h : writeChanges isoformat s recordKey changes = .ok s') :
    (s'.rows.map fun row => row tables.schema.storage.key) =
      s.rows.map fun row => row tables.schema.storage.key := by
  obtain ⟨s₁, hvalues, hlists⟩ := writeChanges_cases h
  have hrows : s'.rows = s₁.rows := rows_writeLists hlists
  rw [hrows]
  unfold writeValues at hvalues
  split_ifs at hvalues
  · cases hvalues
    rfl
  · rw [updateRow] at hvalues
    rw [toRaw_of_execute hvalues, List.map_map]
    refine List.map_congr_left fun row _ => ?_
    have hlookup : (changes.values.filter fun change =>
        change.1 != tables.schema.storage.key).lookup tables.schema.storage.key = none := by
      rw [List.lookup_eq_none_iff]
      intro change hchange
      have hother : change.1 ≠ tables.schema.storage.key := by
        simpa using (List.mem_filter.mp hchange).2
      simpa using hother.symm
    simp only [Function.comp_apply]
    split_ifs
    · rw [changedRow, hlookup]
    · rfl

end

/-! ### Transactions -/

section

variable (engine : SqlEngine) {tables : SchemaTables} (now : ℕ → ℤ) (newId : ℕ → String)

/-- **The keys of the records that an update comes to**, as they are read: it is translated, the
records are found, and those before are written. -/
def ComesTo (s : engine.Tables tables) (key : PyValue) : Write → Prop
  | .updateOne filter update _ _ => ∃ changes before,
      translateUpdate engine.isoformat tables update = .ok changes ∧
      findFirstKey engine (now 0) filter s = .ok (some key) ∧
      getRecord engine (now 1) key s = .ok before
  | .updateMany filter update => ∃ changes before earlier record later s',
      translateUpdate engine.isoformat tables update = .ok changes ∧
      findToWrite engine (now 0) filter none s = .ok before ∧
      before = earlier ++ record :: later ∧
      earlier.foldlM (fun s record => updateKey engine (keyOf tables record) changes s) s = .ok s' ∧
      key = keyOf tables record
  | _ => False

/-- An update that inserts no record: one that upserts has matched one. -/
def Updates (s : engine.Tables tables) : Write → Prop
  | .updateOne filter _ shouldUpsert _ =>
    shouldUpsert = true → findFirstKey engine (now 0) filter s ≠ .ok none
  | .updateMany _ _ => True
  | _ => False

variable {engine now newId} {s : engine.Tables tables}

theorem inTransaction_eq {α : Type} {translate : WriteError → CallError} {answer : α → Answer}
    {body : engine.Tables tables → Except WriteError (α × engine.Tables tables)} :
    inTransaction engine translate answer body s = match body s with
      | .ok r => ⟨.ok (answer r.1), r.2⟩
      | .error error => .refuse (translate error) s := by
  unfold inTransaction transact
  dsimp only
  cases body s <;> rfl

theorem inTransaction_error_iff {α : Type} {translate : WriteError → CallError} {answer : α → Answer}
    {body : engine.Tables tables → Except WriteError (α × engine.Tables tables)} {e : CallError} :
    (inTransaction engine translate answer body s).result = .error e ↔
      ∃ error, body s = .error error ∧ translate error = e := by
  rw [inTransaction_eq]
  cases body s <;> simp [Outcome.refuse]

theorem inTransaction_state {α : Type} {translate : WriteError → CallError} {answer : α → Answer}
    {body : engine.Tables tables → Except WriteError (α × engine.Tables tables)}
    {p : engine.Tables tables → Prop} (hs : p s) (hbody : ∀ a s', body s = .ok (a, s') → p s') :
    p (inTransaction engine translate answer body s).state := by
  rw [inTransaction_eq]
  cases h : body s with
  | ok r => exact hbody r.1 r.2 h
  | error error => exact hs

theorem translate_keyChanged_iff {error : WriteError} :
    translateUniqueViolations error = .find (.raised (keyChanged tables.schema)) ↔
      error = .raised (keyChanged tables.schema) := by
  cases error with
  | integrity violation => cases violation <;> simp [translateUniqueViolations, WriteError.raised]
  | _ => simp [translateUniqueViolations, WriteError.toCall, WriteError.raised]

theorem ne_of_other {A : Type} {x : Except WriteError A}
    (h : Yields WriteError.IsOther x fun _ => True) :
    x ≠ .error (.raised (keyChanged tables.schema)) := by
  rintro rfl
  exact not_isOther_keyChanged _ h

/-- **When an update of one record is refused**: its changes give the first record matched another
key. -/
theorem updateOneBody_keyChanged_iff {filter : Filter} {update : Update} {shouldUpsert : Bool}
    {returning : Returning}
    (hupdates : shouldUpsert = true → findFirstKey engine (now 0) filter s ≠ .ok none) :
    updateOneBody engine now newId filter update shouldUpsert returning s =
        .error (.raised (keyChanged tables.schema)) ↔
      ∃ changes key before, translateUpdate engine.isoformat tables update = .ok changes ∧
        findFirstKey engine (now 0) filter s = .ok (some key) ∧
        getRecord engine (now 1) key s = .ok before ∧
        changesKey key (changes.values.lookup tables.schema.storage.key) = true := by
  have hanswer (key : PyValue) (before : Record) (s' : engine.Tables tables) :
      Yields WriteError.IsOther (answerUpdated engine now returning key before s')
        fun _ => True := by
    cases returning with
    | before => trivial
    | after => exact (other_getRecord _ _ _).bind fun _ _ => .ok trivial
  unfold updateOneBody
  constructor
  · intro h
    obtain htranslate | ⟨changes, hchanges, h⟩ := bind_error h
    · refine absurd htranslate (ne_of_other ?_)
      exact (other_translateUpdate update).mapError fun _ he => he
    obtain hfirst | ⟨key?, hfirst, h⟩ := bind_error h
    · exact absurd hfirst (ne_of_other (other_findFirstKey _ _ _))
    cases key? with
    | none =>
      cases hshould : shouldUpsert with
      | true => exact absurd hfirst (hupdates hshould)
      | false =>
        subst hshould
        cases h
    | some key =>
      obtain hrecord | ⟨before, hrecord, h⟩ := bind_error h
      · exact absurd hrecord (ne_of_other (other_getRecord _ _ _))
      obtain hwrite | ⟨s', _, hreturn⟩ := bind_error h
      · exact ⟨changes, key, before, mapError_ok hchanges, hfirst, hrecord,
          writeChanges_keyChanged_iff.mp hwrite⟩
      · exact absurd hreturn (ne_of_other (hanswer _ _ _))
  · rintro ⟨changes, key, before, hchanges, hfirst, hrecord, hkey⟩
    have hwrite : updateKey engine key changes s = .error (.raised (keyChanged tables.schema)) :=
      writeChanges_keyChanged_iff.mpr hkey
    rw [hchanges, hfirst]
    change (do
      let before ← getRecord engine (now 1) key s
      let s' ← updateKey engine key changes s
      answerUpdated engine now returning key before s') = _
    rw [hrecord]
    change (do
      let s' ← updateKey engine key changes s
      answerUpdated engine now returning key before s') = _
    rw [hwrite]
    rfl

/-- **When an update of many records is refused**: its changes give another key to a record that it
comes to. -/
theorem updateManyBody_keyChanged_iff {filter : Filter} {update : Update} :
    updateManyBody engine now filter update s = .error (.raised (keyChanged tables.schema)) ↔
      ∃ changes before earlier record later s',
        translateUpdate engine.isoformat tables update = .ok changes ∧
        findToWrite engine (now 0) filter none s = .ok before ∧
        before = earlier ++ record :: later ∧
        earlier.foldlM (fun s record => updateKey engine (keyOf tables record) changes s) s =
          .ok s' ∧
        changesKey (keyOf tables record) (changes.values.lookup tables.schema.storage.key) =
          true := by
  unfold updateManyBody
  constructor
  · intro h
    obtain htranslate | ⟨changes, hchanges, h⟩ := bind_error h
    · refine absurd htranslate (ne_of_other ?_)
      exact (other_translateUpdate update).mapError fun _ he => he
    obtain hfind | ⟨before, hfind, h⟩ := bind_error h
    · exact absurd hfind (ne_of_other (other_findToWrite _ _ _ _))
    obtain hwrite | ⟨s', _, h⟩ := bind_error h
    · obtain ⟨earlier, record, later, s', rfl, hearlier, hrecord⟩ := foldlM_error hwrite
      exact ⟨changes, _, earlier, record, later, s', mapError_ok hchanges, hfind, rfl, hearlier,
        writeChanges_keyChanged_iff.mp hrecord⟩
    · obtain hafter | ⟨after, _, h⟩ := bind_error h
      · exact absurd hafter (ne_of_other (other_findToWrite _ _ _ _))
      · cases h
  · rintro ⟨changes, _, earlier, record, later, s', hchanges, hfind, rfl, hearlier, hkey⟩
    have hwrite : (earlier ++ record :: later).foldlM
        (fun s record => updateKey engine (keyOf tables record) changes s) s =
          .error (.raised (keyChanged tables.schema)) :=
      foldlM_of_error hearlier (writeChanges_keyChanged_iff.mpr hkey)
    rw [hchanges, hfind]
    change (do
      let s' ← (earlier ++ record :: later).foldlM
        (fun s record => updateKey engine (keyOf tables record) changes s) s
      let after ← findToWrite engine (now 1) (keysFilter tables (earlier ++ record :: later)) none s'
      return (List.countP (fun record => !isAsBefore tables after record)
        (earlier ++ record :: later), s')) = _
    rw [hwrite]
    rfl

/-- **An update that inserts no record leaves the stored keys**, raise or not. -/
theorem keys_write {write : Write} (hupdates : Updates engine now s write) :
    ((SqlStore.write engine now newId write s).state.rows.map fun row =>
      row tables.schema.storage.key) = s.rows.map fun row => row tables.schema.storage.key := by
  cases write with
  | updateOne filter update shouldUpsert returning =>
    refine inTransaction_state (p := fun s' => (s'.rows.map fun row =>
      row tables.schema.storage.key) = s.rows.map fun row => row tables.schema.storage.key) rfl
      fun answer s' hbody => ?_
    obtain ⟨changes, _, hbody⟩ := bind_ok hbody
    obtain ⟨key?, hfirst, hbody⟩ := bind_ok hbody
    cases key? with
    | none =>
      cases hshould : shouldUpsert with
      | true => exact absurd hfirst (hupdates hshould)
      | false =>
        subst hshould
        cases hbody
        rfl
    | some key =>
      obtain ⟨before, _, hbody⟩ := bind_ok hbody
      obtain ⟨s₁, hwrite, hbody⟩ := bind_ok hbody
      have hkeys := keys_writeChanges hwrite
      cases returning with
      | before =>
        cases hbody
        exact hkeys
      | after =>
        obtain ⟨after, _, hbody⟩ := bind_ok hbody
        cases hbody
        exact hkeys
  | updateMany filter update =>
    refine inTransaction_state (p := fun s' => (s'.rows.map fun row =>
      row tables.schema.storage.key) = s.rows.map fun row => row tables.schema.storage.key) rfl
      fun answer s' hbody => ?_
    obtain ⟨changes, _, hbody⟩ := bind_ok hbody
    obtain ⟨before, _, hbody⟩ := bind_ok hbody
    obtain ⟨s₁, hwrite, hbody⟩ := bind_ok hbody
    obtain ⟨after, _, hbody⟩ := bind_ok hbody
    cases hbody
    exact foldlM_invariant (p := fun s' => (s'.rows.map fun row =>
      row tables.schema.storage.key) = s.rows.map fun row => row tables.schema.storage.key)
      (fun _ _ _ hstep hkeys => (keys_writeChanges hstep).trans hkeys) hwrite rfl
  | insert | insertMany | deleteOne => exact hupdates.elim

end

end SqlStore

/-! ## What an accepted update does to the key -/

/-- The key is a field of scalars, into which no path leads. -/
def FieldType.isKey (a : FieldType) : Bool :=
  getColumnType a != .json && !a.isListField && a.findNestedModel.isNone && !a.isOpenMapping

/-- **A schema whose key is a scalar**, as what a record is fetched by. -/
def Schema.HasKey (schema : Schema) : Prop :=
  ∃ a, schema.declared schema.storage.key = some a ∧ a.isKey = true

/-- An update is a dict of dicts: no operator, and no field of one, is named twice. -/
structure Update.IsDict (update : Update) : Prop where
  operators : (update.map Prod.fst).Nodup
  fields : ∀ entry ∈ update, (entry.2.map Prod.fst).Nodup

/-- **The value that an update sets the key to**, if it does. -/
def setKey (schema : Schema) (update : Update) : Option PyValue :=
  (changesOf update "$set").lookup schema.storage.key

/-- The filter and the update of a write. -/
def Write.update : Write → Option (Filter × Update)
  | .updateOne filter update _ _ => some (filter, update)
  | .updateMany filter update => some (filter, update)
  | _ => none

section

variable {schema : Schema} {filter : Filter} {update : Update}

theorem checked_update {write : Write} (hwrite : write.update = some (filter, update))
    (hcheck : Database.check schema write = .ok ()) :
    checkUpdate schema update = .ok ⟨⟩ ∧ checkKeyKept schema filter update = .ok ⟨⟩ := by
  cases write with
  | updateOne | updateMany =>
    cases hwrite
    obtain ⟨_, _, hcheck⟩ := bind_ok hcheck
    obtain ⟨_, hcheck, hkept⟩ := bind_ok hcheck
    exact ⟨hcheck, hkept⟩
  | insert | insertMany | deleteOne => cases hwrite

/-- **Only `$set` names the key**, `$setOnInsert` apart. -/
theorem operator_of_key (hkept : checkKeyKept schema filter update = .ok ⟨⟩)
    {entry : String × FieldChanges} (hentry : entry ∈ update) {v : PyValue}
    (hkey : (schema.storage.key, v) ∈ entry.2) :
    entry.1 = "$set" ∨ entry.1 = "$setOnInsert" := by
  have hcheck := forM_eq_ok hkept entry hentry
  unfold checkKeyOf at hcheck
  dsimp only at hcheck
  split at hcheck
  · rename_i hnone
    have := List.lookup_eq_none_iff.mp hnone _ hkey
    simp at this
  · by_cases hinsert : entry.1 = "$setOnInsert"
    · exact .inr hinsert
    · rw [if_neg hinsert] at hcheck
      by_cases hset : entry.1 = "$set"
      · exact .inl hset
      · rw [if_pos hset] at hcheck
        cases hcheck

theorem lookup_changesOf_iff (hdict : update.IsDict) {operator field : String} {v : PyValue} :
    (changesOf update operator).lookup field = some v ↔
      ∃ changes, (operator, changes) ∈ update ∧ (field, v) ∈ changes := by
  unfold changesOf
  constructor
  · intro h
    cases hoperator : update.lookup operator with
    | none =>
      rw [hoperator] at h
      cases h
    | some changes =>
      rw [hoperator] at h
      exact ⟨changes, mem_of_lookup hoperator, mem_of_lookup h⟩
  · rintro ⟨changes, hoperator, hfield⟩
    rw [lookup_of_mem hdict.operators hoperator]
    exact lookup_of_mem (hdict.fields _ hoperator) hfield

theorem setKey_eq_some_iff (hdict : update.IsDict) {v : PyValue} :
    setKey schema update = some v ↔
      ∃ changes, ("$set", changes) ∈ update ∧ (schema.storage.key, v) ∈ changes :=
  lookup_changesOf_iff hdict

end

namespace SqlStore

section

variable {tables : SchemaTables} {isoformat : ℤ → Option ℤ → String}

theorem mem_stepsOf {update : Update} {operator : UpdateOperator} {change : String × PyValue} :
    (operator, change) ∈ stepsOf update ↔ ∃ entry ∈ update,
      UpdateOperator.ofName entry.1 = some operator ∧ change ∈ entry.2 := by
  unfold stepsOf
  rw [List.mem_flatMap]
  refine exists_congr fun entry => and_congr_right fun _ => ?_
  unfold stepsOfOperator
  cases UpdateOperator.ofName entry.1 with
  | none => simp
  | some operator' =>
    simp only [List.mem_map, Option.some.injEq]
    constructor
    · rintro ⟨_, hchange, heq⟩
      cases heq
      exact ⟨rfl, hchange⟩
    · rintro ⟨rfl, hchange⟩
      exact ⟨_, hchange, rfl⟩

theorem ofName_inj {name name' : String} {operator : UpdateOperator}
    (h : UpdateOperator.ofName name = some operator)
    (h' : UpdateOperator.ofName name' = some operator) : name = name' := by
  have hmem := mem_of_lookup h
  have hmem' := mem_of_lookup h'
  simp only [List.mem_cons, Prod.mk.injEq, List.not_mem_nil, or_false] at hmem hmem'
  cases operator <;> simp_all

theorem ofName_set_iff {name : String} : UpdateOperator.ofName name = some .set ↔ name = "$set" := by
  have hset : UpdateOperator.ofName "$set" = some .set := by decide
  exact ⟨fun h => ofName_inj h hset, fun h => h ▸ hset⟩

theorem key_of_tables (htables : getTablesOf tables.schema = some tables)
    (hkey : tables.schema.HasKey) : tables.listTables.lookup tables.schema.storage.key = none ∧
      tables.schema.storage.key ∉ tables.jsonFields := by
  obtain ⟨childFields, hof⟩ := getTablesOf_spec htables
  obtain ⟨a, ha, hisKey⟩ := hkey
  simp only [FieldType.isKey, Bool.and_eq_true, bne_iff_ne, Bool.not_eq_true'] at hisKey
  have hlist : tables.listTables.lookup tables.schema.storage.key = none := by
    rw [← Option.not_isSome_iff_eq_none]
    intro hsome
    obtain ⟨listTable, hlookup⟩ := Option.isSome_iff_exists.mp hsome
    obtain ⟨-, htable⟩ := hof.lookup_listTables hlookup
    obtain ⟨a', _, ha', hlist, _⟩ := getListTable_spec htable
    rw [ha] at ha'
    cases ha'
    rw [hisKey.1.1.2] at hlist
    cases hlist
  refine ⟨hlist, fun hjson => ?_⟩
  have hcolumn := hof.jsonColumn _ hjson
  by_cases hid : tables.schema.storage.key = rowId
  · rw [hid, hof.columns_eq, List.lookup_cons] at hcolumn
    simp at hcolumn
  · rw [hof.lookup_columns hid, if_neg (hof.notMem_childFields hlist)] at hcolumn
    have hfields : tables.schema.fields.lookup tables.schema.storage.key = some a := ha
    rw [hfields, Option.map_some, Option.some.injEq] at hcolumn
    exact hisKey.1.1.1 hcolumn

theorem lookup_key_step (htables : getTablesOf tables.schema = some tables)
    (hkey : tables.schema.HasKey) {operator : UpdateOperator} {changes changes' : Changes}
    {change : String × PyValue}
    (hinc : operator = .inc → change.1 ≠ tables.schema.storage.key)
    (h : translateChange isoformat tables operator changes change = .ok changes') :
    changes'.values.lookup tables.schema.storage.key =
      if operator = .set ∧ change.1 = tables.schema.storage.key then
        some (.value (convertToColumnValue change.2))
      else changes.values.lookup tables.schema.storage.key := by
  obtain ⟨hlist, hjson⟩ := key_of_tables htables hkey
  cases operator with
  | set =>
    unfold translateChange at h
    dsimp only at h
    split_ifs at h with hsome
    · obtain ⟨items, _, h⟩ := bind_ok h
      cases h
      rw [if_neg]
      rintro ⟨-, hname⟩
      rw [hname, hlist] at hsome
      cases hsome
    · obtain ⟨written, hwritten, h⟩ := bind_ok h
      cases h
      rw [lookup_assign]
      by_cases hname : change.1 = tables.schema.storage.key
      · rw [if_pos hname.symm, if_pos ⟨rfl, hname⟩]
        unfold convertToWrittenValue at hwritten
        rw [if_neg (by simpa [hname] using hjson)] at hwritten
        obtain ⟨column, _, hwritten⟩ := bind_ok hwritten
        cases hwritten
        rfl
      · rw [if_neg (Ne.symm hname), if_neg fun h => hname h.2]
  | inc =>
    obtain ⟨column, hcolumn, h⟩ := bind_ok h
    cases h
    have hname : column = change.1 := by
      unfold getColumn at hcolumn
      split_ifs at hcolumn
      cases hcolumn
      rfl
    rw [lookup_assign, hname, if_neg (Ne.symm (hinc rfl)), if_neg (by simp)]
  | setOnInsert =>
    obtain ⟨written, _, h⟩ := bind_ok h
    cases h
    rw [if_neg (by simp)]
  | addToSet | pull =>
    obtain ⟨listTable, _, h⟩ := bind_ok h
    cases h
    rw [if_neg (by simp)]

/-- **What an accepted update writes to the key**: what it sets it to. -/
theorem lookup_key_translateUpdate (htables : getTablesOf tables.schema = some tables)
    (hkey : tables.schema.HasKey) {filter : Filter} {update : Update} (hdict : update.IsDict)
    (hkept : checkKeyKept tables.schema filter update = .ok ⟨⟩) {changes : Changes}
    (h : translateUpdate isoformat tables update = .ok changes) :
    changes.values.lookup tables.schema.storage.key =
      (setKey tables.schema update).map fun v => .value (convertToColumnValue v) := by
  have hsteps : ∀ step ∈ stepsOf update, step.2.1 = tables.schema.storage.key →
      step.1 = .set ∧ setKey tables.schema update = some step.2.2 ∨ step.1 = .setOnInsert := by
    rintro ⟨operator, name, v⟩ hstep rfl
    obtain ⟨entry, hentry, hname, hchange⟩ := mem_stepsOf.mp hstep
    obtain hset | hinsert := operator_of_key hkept hentry hchange
    · rw [hset] at hname
      obtain rfl := Option.some.inj ((ofName_set_iff.mpr rfl).symm.trans hname)
      refine .inl ⟨rfl, (setKey_eq_some_iff hdict).mpr ⟨entry.2, ?_, hchange⟩⟩
      rw [← hset]
      exact hentry
    · rw [hinsert] at hname
      have : UpdateOperator.ofName "$setOnInsert" = some .setOnInsert := by decide
      exact .inr (Option.some.inj (hname.symm.trans this))
  have hfold (steps : List (UpdateOperator × (String × PyValue)))
      (hmem : ∀ step ∈ steps, step ∈ stepsOf update) (changes₀ : Changes)
      (hrun : steps.foldlM (fun changes step =>
        translateChange isoformat tables step.1 changes step.2) changes₀ = .ok changes) :
      changes.values.lookup tables.schema.storage.key =
        if ∃ step ∈ steps, step.1 = .set ∧ step.2.1 = tables.schema.storage.key then
          (setKey tables.schema update).map fun v => .value (convertToColumnValue v)
        else changes₀.values.lookup tables.schema.storage.key := by
    induction steps generalizing changes₀ with
    | nil =>
      cases hrun
      simp
    | cons step steps ih =>
      rw [List.foldlM_cons] at hrun
      obtain ⟨changes₁, hfirst, hrest⟩ := bind_ok hrun
      obtain ⟨hstep, hmem⟩ := List.forall_mem_cons.mp hmem
      have hone := lookup_key_step htables hkey (fun hinc hname => by
        obtain ⟨hset, -⟩ | hinsert := hsteps step hstep hname
        · rw [hinc] at hset
          cases hset
        · rw [hinc] at hinsert
          cases hinsert) hfirst
      rw [ih hmem changes₁ hrest, hone]
      by_cases hset : step.1 = .set ∧ step.2.1 = tables.schema.storage.key
      · obtain ⟨-, hvalue⟩ | hinsert := hsteps step hstep hset.2
        · rw [if_pos hset, hvalue, Option.map_some, ite_self, if_pos ⟨step, by simp, hset⟩]
        · rw [hset.1] at hinsert
          cases hinsert
      · rw [if_neg hset]
        refine if_congr ?_ rfl rfl
        simp only [List.mem_cons, or_and_right, exists_or, exists_eq_left, hset, false_or]
  rw [translateUpdate_eq] at h
  rw [hfold _ (fun _ h => h) _ h]
  split_ifs with hset
  · rfl
  · cases hsetKey : setKey tables.schema update with
    | none => rfl
    | some v =>
      obtain ⟨fieldChanges, hentry, hchange⟩ := (setKey_eq_some_iff hdict).mp hsetKey
      exact absurd ⟨(.set, tables.schema.storage.key, v),
        mem_stepsOf.mpr ⟨_, hentry, ofName_set_iff.mpr rfl, hchange⟩, rfl, rfl⟩ hset

end

end SqlStore

/-! ## MongoDB -/

open Mongo

/-- **What MongoDB's updates do to a field** of a document: `$set` gives it the value, what names
neither it nor a path into it leaves it, and a document's own key is never changed. -/
structure MongoCollection.UpdatesByField (collection : MongoCollection) : Prop where
  set : ∀ {update document document' changes field v},
    collection.applyUpdate update document = some document' →
      ("$set", .document changes) ∈ update → (field, v) ∈ changes → '.' ∉ field.toList →
      Value.get field document' = v
  keep : ∀ {update document document' field},
    collection.applyUpdate update document = some document' →
      (∀ operator changes, (operator, .document changes) ∈ update → operator ≠ "$setOnInsert" →
        ∀ change ∈ changes, (pathParts change.1).head? ≠ some field) →
      Value.get field document' = Value.get field document
  keepKey : ∀ {update document document'},
    collection.applyUpdate update document = some document' →
      Value.get keyField document' = Value.get keyField document

/-- The key of a stored document. -/
def storedKey (schema : Schema) (document : Document) : Bson :=
  Value.get (getDocumentField schema.storage.key) document

section

variable {schema : Schema} {filter : Filter} {update : Update} {u : Document}

theorem eq_key_of_head? (hkey : schema.HasKey) (hcheck : checkUpdate schema update = .ok ⟨⟩)
    {entry : String × FieldChanges} (hentry : entry ∈ update) {change : String × PyValue}
    (hchange : change ∈ entry.2) (hhead : (pathParts change.1).head? = some schema.storage.key) :
    change.1 = schema.storage.key := by
  obtain ⟨a, ha, hisKey⟩ := hkey
  simp only [FieldType.isKey, Bool.and_eq_true, Bool.not_eq_true', Option.isNone_iff_eq_none]
    at hisKey
  have hresolved : ∃ fieldInfo, resolveField schema change.1 = .ok fieldInfo := by
    unfold checkUpdate at hcheck
    split_ifs at hcheck
    have hchanges := forM_eq_ok hcheck entry hentry
    unfold checkChanges at hchanges
    split at hchanges
    · cases hchanges
    · obtain ⟨fieldInfo, hfieldInfo, _⟩ := bind_ok (forM_eq_ok hchanges change hchange)
      exact ⟨fieldInfo, hfieldInfo⟩
  cases hparts : pathParts change.1 with
  | nil =>
    rw [hparts] at hhead
    cases hhead
  | cons name parts =>
    rw [hparts, List.head?_cons, Option.some.injEq] at hhead
    subst hhead
    cases parts with
    | nil =>
      unfold pathParts at hparts
      obtain ⟨letters, hletters, hname⟩ := List.map_eq_singleton_iff.mp hparts
      have hjoin : [ '.'].intercalate (change.1.toList.splitOn '.') = change.1.toList :=
        List.intercalate_splitOn '.'
      rw [hletters] at hjoin
      rw [← hname, ← String.toList_inj, String.toList_ofList, ← hjoin]
      simp
    | cons part parts =>
      obtain ⟨fieldInfo, hfieldInfo⟩ := hresolved
      have hlookup : schema.fields.lookup schema.storage.key = some a := ha
      rw [resolveField, hparts] at hfieldInfo
      simp [resolveParts, Schema.annotation, FieldType.findNestedModel, hlookup, hisKey] at hfieldInfo

theorem mem_translated (htranslate : Mongo.translateUpdate schema update = .ok u)
    {operator : String} {changes : Document} (hmem : (operator, .document changes) ∈ u) :
    ∃ entry ∈ update, entry.1 = operator ∧
      ∀ change' ∈ changes, ∃ change ∈ entry.2, change'.1 = getDocumentField change.1 := by
  have hentries : ∀ b ∈ u, ∃ entry ∈ update, Mongo.translateChanges schema entry = .ok b :=
    forall_of_mapM_ok htranslate fun entry hentry b hb =>
      ⟨entry, (List.mem_filter.mp hentry).1, hb⟩
  obtain ⟨entry, hentry, htranslated⟩ := hentries _ hmem
  obtain ⟨changes', hchanges, htranslated⟩ := bind_ok htranslated
  cases htranslated
  refine ⟨entry, hentry, rfl, forall_of_mapM_ok hchanges fun change hchange b hb => ?_⟩
  obtain ⟨v, _, hb⟩ := bind_ok hb
  cases hb
  exact ⟨change, hchange, rfl⟩

theorem set_translated (hdict : update.IsDict)
    (htranslate : Mongo.translateUpdate schema update = .ok u) {v : PyValue}
    (hset : setKey schema update = some v) :
    ∃ b changes, convertToBsonValue schema schema.storage.key v = .ok b ∧
      ("$set", .document changes) ∈ u ∧
      (getDocumentField schema.storage.key, b) ∈ changes := by
  obtain ⟨fieldChanges, hentry, hchange⟩ := (setKey_eq_some_iff hdict).mp hset
  have hkept : ("$set", fieldChanges) ∈ update.filter fun entry => !entry.2.isEmpty := by
    refine List.mem_filter.mpr ⟨hentry, ?_⟩
    cases fieldChanges with
    | nil => cases hchange
    | cons change changes => rfl
  obtain ⟨entry, hmem, htranslated⟩ := exists_of_mapM_ok htranslate _ hkept
  obtain ⟨changes, hchanges, htranslated⟩ := bind_ok htranslated
  cases htranslated
  obtain ⟨change, hmem', htranslated⟩ := exists_of_mapM_ok hchanges _ hchange
  obtain ⟨b, hb, htranslated⟩ := bind_ok htranslated
  cases htranslated
  exact ⟨b, changes, hb, hmem, hmem'⟩

variable {collection : MongoCollection} {document document' : Document}

theorem undotted_key (hkey : schema.HasKey) :
    '.' ∉ (getDocumentField schema.storage.key).toList := by
  obtain ⟨a, ha, -⟩ := hkey
  unfold getDocumentField
  split_ifs
  · decide
  · exact schema.undotted _ (mem_of_lookup ha)

/-- **An accepted update that does not set the key leaves a document's.** -/
theorem storedKey_of_unset (hcollection : collection.UpdatesByField) (hkey : schema.HasKey)
    (hdict : update.IsDict) (hcheck : checkUpdate schema update = .ok ⟨⟩)
    (hkept : checkKeyKept schema filter update = .ok ⟨⟩)
    (htranslate : Mongo.translateUpdate schema update = .ok u)
    (happly : collection.applyUpdate u document = some document')
    (hunset : setKey schema update = none) :
    storedKey schema document' = storedKey schema document := by
  by_cases hown : getDocumentField schema.storage.key = keyField
  · rw [storedKey, storedKey, hown]
    exact hcollection.keepKey happly
  · have hfield : getDocumentField schema.storage.key = schema.storage.key := by
      unfold getDocumentField at hown ⊢
      split_ifs at hown ⊢
      · exact absurd rfl hown
      · rfl
    rw [storedKey, storedKey, hfield]
    rw [hfield] at hown
    refine hcollection.keep happly fun operator changes hmem hoperator change' hchange' hhead => ?_
    obtain ⟨entry, hentry, rfl, hnames⟩ := mem_translated htranslate hmem
    obtain ⟨change, hchange, hname⟩ := hnames change' hchange'
    rw [hname] at hhead
    unfold getDocumentField at hhead
    split_ifs at hhead with hid
    · -- the document's own key is named, which is not the schema's
      have hpath : pathParts keyField = [keyField] := pathParts_name (by decide)
      rw [hpath, List.head?_cons, Option.some.injEq] at hhead
      exact hown hhead.symm
    · have hname := eq_key_of_head? hkey hcheck hentry hchange hhead
      obtain hset | hinsert := operator_of_key hkept hentry (v := change.2) (by rwa [← hname])
      · have hsome := (setKey_eq_some_iff hdict).mpr
          ⟨entry.2, by rw [← hset]; exact hentry, by rw [← hname]; exact hchange⟩
        rw [hunset] at hsome
        cases hsome
      · exact hoperator hinsert

theorem perm_iff_eq_of_forall₂ {A : Type} [DecidableEq A] {v : A} {l l' : List A}
    (h : List.Forall₂ (fun a b => b = a ∨ b = v) l l') : l'.Perm l ↔ l' = l := by
  refine ⟨fun hperm => ?_, fun heq => heq ▸ .refl _⟩
  have hcount : l.count v ≤ l'.count v ∧ (l'.count v ≤ l.count v → l' = l) := by
    clear hperm
    induction h with
    | nil => simp
    | @cons a b l l' hab _ ih =>
      obtain ⟨hle, heq⟩ := ih
      rw [List.count_cons, List.count_cons]
      obtain rfl | rfl := hab
      · exact ⟨by omega, fun hcount => by rw [heq (by omega)]⟩
      · by_cases ha : a = b
        · subst ha
          exact ⟨by omega, fun hcount => by rw [heq (by omega)]⟩
        · have hne : (a == b) = false := by simpa using ha
          simp only [beq_self_eq_true, if_true, hne]
          refine ⟨by simp; omega, fun hcount => ?_⟩
          simp at hcount
          omega
  exact hcount.2 (hperm.count_eq v).le

/-- **What updates at some places do to the stored keys**: they leave them only if the key of each
document written is what it is set to. -/
theorem perm_keys_updateAll (hcollection : collection.UpdatesByField) (hkey : schema.HasKey)
    (hdict : update.IsDict) (hcheck : checkUpdate schema update = .ok ⟨⟩)
    (hkept : checkKeyKept schema filter update = .ok ⟨⟩)
    (htranslate : Mongo.translateUpdate schema update = .ok u) {places : List ℕ}
    (hnodup : places.Nodup) {documents documents' : List Document}
    (hfold : places.foldlM (collection.updateAt u) documents = .ok documents') :
    (documents'.map (storedKey schema)).Perm (documents.map (storedKey schema)) ↔
      ∀ place ∈ places, ∀ document, documents[place]? = some document →
        ∀ v, setKey schema update = some v →
          convertToBsonValue schema schema.storage.key v = .ok (storedKey schema document) := by
  obtain ⟨hothers, hwritten⟩ := MongoCollection.updateAll_ok hnodup hfold
  have hlength := MongoCollection.length_updateAll hfold
  -- an update that sets no key leaves the key of every document
  cases hset : setKey schema update with
  | none =>
    refine iff_of_true (.of_eq ?_) fun _ _ _ _ _ h => by cases h
    refine List.ext_getElem? fun i => ?_
    rw [List.getElem?_map, List.getElem?_map]
    by_cases hi : i ∈ places
    · cases hdocument : documents[i]? with
      | none => rw [List.getElem?_eq_none (hlength ▸ List.getElem?_eq_none_iff.mp hdocument)]
      | some document =>
        obtain ⟨document', happly, hdocument'⟩ := hwritten i hi document hdocument
        rw [hdocument', Option.map_some, Option.map_some, storedKey_of_unset hcollection hkey hdict
          hcheck hkept htranslate happly hset]
    · rw [hothers i hi]
  | some v =>
    obtain ⟨b, changes, hb, hmem, hmem'⟩ := set_translated hdict htranslate hset
    have hplace : ∀ i ∈ places, ∀ document, documents[i]? = some document →
        ∃ document', documents'[i]? = some document' ∧ storedKey schema document' = b := by
      intro i hi document hdocument
      obtain ⟨document', happly, hdocument'⟩ := hwritten i hi document hdocument
      exact ⟨document', hdocument', hcollection.set happly hmem hmem' (undotted_key hkey)⟩
    -- every document it writes takes the same key
    have hbecome : List.Forall₂ (fun a a' => a' = a ∨ a' = b) (documents.map (storedKey schema))
        (documents'.map (storedKey schema)) := by
      rw [List.forall₂_map_left_iff, List.forall₂_map_right_iff, List.forall₂_iff_get]
      refine ⟨hlength.symm, fun i hi hi' => ?_⟩
      have hdocument := List.getElem?_eq_getElem hi
      have hdocument' := List.getElem?_eq_getElem hi'
      by_cases hin : i ∈ places
      · obtain ⟨document', hsome, hset⟩ := hplace i hin _ hdocument
        rw [hdocument', Option.some.injEq] at hsome
        exact .inr (by simpa [hsome] using hset)
      · rw [hothers i hin, hdocument, Option.some.injEq] at hdocument'
        exact .inl (by simp [hdocument'])
    rw [perm_iff_eq_of_forall₂ hbecome]
    constructor
    · rintro hsame i hi document hdocument w ⟨⟩
      obtain ⟨document', hsome, hset⟩ := hplace i hi document hdocument
      have hat : (documents'.map (storedKey schema))[i]? = (documents.map (storedKey schema))[i]? :=
        by rw [hsame]
      rw [List.getElem?_map, List.getElem?_map, hsome, hdocument, Option.map_some, Option.map_some,
        Option.some.injEq] at hat
      rw [← hat, hset, hb]
    · intro hsame
      refine List.ext_getElem? fun i => ?_
      rw [List.getElem?_map, List.getElem?_map]
      by_cases hi : i ∈ places
      · cases hdocument : documents[i]? with
        | none => rw [List.getElem?_eq_none (hlength ▸ List.getElem?_eq_none_iff.mp hdocument)]
        | some document =>
          obtain ⟨document', hsome, hset⟩ := hplace i hi document hdocument
          have hown := hsame i hi document hdocument v rfl
          rw [hb, Except.ok.injEq] at hown
          rw [hsome, Option.map_some, Option.map_some, hset, hown]
      · rw [hothers i hi]

end

namespace MongoStore

section

variable (collection : MongoCollection) (schema : Schema) (now : ℤ) (documents : List Document)

/-- **The documents that an update comes to**: they are matched, and written as those before are. -/
def ComesTo (document : Document) : Write → Prop
  | .updateOne filter update _ _ => ∃ asked place documents',
      command schema now filter update = .ok asked ∧
      (collection.scan (getQueryCollation schema filter) asked.1 documents).head? = some place ∧
      collection.updateAt asked.2 documents place = .ok documents' ∧
      documents[place]? = some document
  | .updateMany filter update => ∃ asked done documents', ∃ place ∈ done,
      command schema now filter update = .ok asked ∧
      done <+: collection.scan (getQueryCollation schema filter) asked.1 documents ∧
      done.foldlM (collection.updateAt asked.2) documents = .ok documents' ∧
      documents[place]? = some document
  | _ => False

/-- An update that inserts no document: one that upserts has matched one. -/
def Updates : Write → Prop
  | .updateOne filter update shouldUpsert _ => shouldUpsert = true →
      ∀ asked, command schema now filter update = .ok asked →
        collection.scan (getQueryCollation schema filter) asked.1 documents ≠ []
  | .updateMany _ _ => True
  | _ => False

end

section

variable {validate : Value Scalar → Except ValidationError Record} {collection : MongoCollection}
  {schema : Schema} {now : ℤ} {newId : ℕ → String} {documents : List Document}
  {filter : Filter} {update : Update}

theorem perm_keys_updateOne (hcollection : collection.UpdatesByField) (hkey : schema.HasKey)
    (hdict : update.IsDict) (hcheck : checkUpdate schema update = .ok ⟨⟩)
    (hkept : checkKeyKept schema filter update = .ok ⟨⟩) {shouldUpsert : Bool}
    {returning : Returning} (hupdates : Updates collection schema now documents
      (.updateOne filter update shouldUpsert returning)) :
    ((MongoStore.updateOne validate collection schema now newId filter update shouldUpsert returning
      documents).state.map (storedKey schema)).Perm (documents.map (storedKey schema)) ↔
      ∀ document, ComesTo collection schema now documents document
          (.updateOne filter update shouldUpsert returning) →
        ∀ v, setKey schema update = some v →
          convertToBsonValue schema schema.storage.key v = .ok (storedKey schema document) := by
  unfold MongoStore.updateOne andThen
  dsimp only
  cases hcommand : command schema now filter update with
  | error e =>
    refine iff_of_true (.refl _) ?_
    rintro document ⟨asked, place, documents', hasked, _⟩
    rw [hcommand] at hasked
    cases hasked
  | ok asked =>
    obtain ⟨query, hquery, hrest⟩ := bind_ok hcommand
    obtain ⟨u, htranslate, hasked⟩ := bind_ok hrest
    cases hasked
    dsimp only
    unfold MongoCollection.findOneAndUpdate answerCommand
    -- no document is found, or the first that is is written
    cases hscan : (collection.scan (getQueryCollation schema filter) query documents).head? with
    | none =>
      have hnone : ∀ document, ¬ ComesTo collection schema now documents document
          (.updateOne filter update shouldUpsert returning) := by
        rintro document ⟨asked, place, documents', hasked, hplace, _⟩
        rw [hcommand] at hasked
        cases hasked
        rw [hscan] at hplace
        cases hplace
      refine iff_of_true ?_ fun document hcomes => (hnone document hcomes).elim
      cases hshould : shouldUpsert with
      | true => exact absurd (List.head?_eq_none_iff.mp hscan) (hupdates hshould _ hcommand)
      | false =>
        simp only [Bool.false_eq_true, if_false, state_answerRecord]
        exact .refl _
    | some place =>
      dsimp only
      cases hupdate : collection.updateAt u documents place with
      | error e =>
        refine iff_of_true (.refl _) ?_
        rintro document ⟨asked, place', documents', hasked, hplace, hok, _⟩
        rw [hcommand] at hasked
        cases hasked
        rw [hscan] at hplace
        cases hplace
        rw [hupdate] at hok
        cases hok
      | ok documents' =>
        have hfold : [place].foldlM (collection.updateAt u) documents = .ok documents' := by
          rw [List.foldlM_cons, hupdate]
          rfl
        have hkeys := perm_keys_updateAll hcollection hkey hdict hcheck hkept htranslate
          (List.nodup_singleton place) hfold
        change ((answerRecord validate schema _ documents').state.map _).Perm _ ↔ _
        rw [state_answerRecord, hkeys]
        constructor
        · rintro hsame document ⟨asked, place', documents₁, hasked, hplace, _, hdocument⟩
          rw [hcommand] at hasked
          cases hasked
          rw [hscan] at hplace
          cases hplace
          exact hsame place (List.mem_singleton_self _) document hdocument
        · intro hsame place' hplace' document hdocument
          obtain rfl := List.mem_singleton.mp hplace'
          exact hsame document ⟨_, place', documents', hcommand, hscan, hupdate, hdocument⟩

theorem perm_keys_updateMany (hcollection : collection.UpdatesByField) (hkey : schema.HasKey)
    (hdict : update.IsDict) (hcheck : checkUpdate schema update = .ok ⟨⟩)
    (hkept : checkKeyKept schema filter update = .ok ⟨⟩) :
    ((MongoStore.updateMany collection schema now filter update documents).state.map
      (storedKey schema)).Perm (documents.map (storedKey schema)) ↔
      ∀ document, ComesTo collection schema now documents document (.updateMany filter update) →
        ∀ v, setKey schema update = some v →
          convertToBsonValue schema schema.storage.key v = .ok (storedKey schema document) := by
  unfold MongoStore.updateMany andThen
  dsimp only
  cases hcommand : command schema now filter update with
  | error e =>
    refine iff_of_true (.refl _) ?_
    rintro document ⟨asked, done, documents', place, _, hasked, _⟩
    rw [hcommand] at hasked
    cases hasked
  | ok asked =>
    obtain ⟨query, hquery, hrest⟩ := bind_ok hcommand
    obtain ⟨u, htranslate, hasked⟩ := bind_ok hrest
    cases hasked
    dsimp only
    unfold MongoCollection.updateMany
    obtain ⟨done, hprefix, hdone, hmost⟩ := @writeEach_done _ _ _ (collection.updateAt u)
      (collection.scan (getQueryCollation schema filter) query documents) documents
    have hnodup : done.Nodup := (collection.nodup_scan _ _ _).sublist hprefix.sublist
    rw [perm_keys_updateAll hcollection hkey hdict hcheck hkept htranslate hnodup hdone]
    constructor
    · rintro hsame document ⟨asked, done', documents', place, hplace, hasked, hprefix', hdone',
        hdocument⟩
      rw [hcommand] at hasked
      cases hasked
      exact hsame place ((hmost done' documents' hprefix' hdone').subset hplace) document hdocument
    · intro hsame place hplace document hdocument
      exact hsame document ⟨_, done, _, place, hplace, hcommand, hprefix, hdone, hdocument⟩

/-- **When MongoDB leaves the stored keys**: only if the key of each document that the update comes
to is stored as the value that it is set to. -/
theorem perm_keys_iff (hcollection : collection.UpdatesByField) (hkey : schema.HasKey)
    {write : Write} (hwrite : write.update = some (filter, update)) (hdict : update.IsDict)
    (hcheck : Database.check schema write = .ok ())
    (hupdates : Updates collection schema now documents write) :
    ((MongoStore.write validate collection schema now newId write documents).state.map
      (storedKey schema)).Perm (documents.map (storedKey schema)) ↔
      ∀ document, ComesTo collection schema now documents document write →
        ∀ v, setKey schema update = some v →
          convertToBsonValue schema schema.storage.key v = .ok (storedKey schema document) := by
  obtain ⟨hupdate, hkept⟩ := checked_update hwrite hcheck
  cases write with
  | updateOne filter update shouldUpsert returning =>
    cases hwrite
    exact perm_keys_updateOne hcollection hkey hdict hupdate hkept hupdates
  | updateMany filter update =>
    cases hwrite
    exact perm_keys_updateMany hcollection hkey hdict hupdate hkept
  | insert | insertMany | deleteOne => cases hwrite

end

end MongoStore

/-! ## Both stores -/

namespace SqlStore

variable {engine : SqlEngine} {tables : SchemaTables} {now : ℕ → ℤ} {newId : ℕ → String}
  {s : engine.Tables tables} {filter : Filter} {update : Update}

/-- **When SQL's own check refuses an accepted update**: only if it comes to a record whose key, as
it is read, is not the value that it is set to. -/
theorem raises_keyChanged_iff (htables : getTablesOf tables.schema = some tables)
    (hkey : tables.schema.HasKey) {write : Write} (hwrite : write.update = some (filter, update))
    (hdict : update.IsDict) (hcheck : Database.check tables.schema write = .ok ())
    (hupdates : Updates engine now s write) :
    (SqlStore.write engine now newId write s).result =
        .error (.find (.raised (keyChanged tables.schema))) ↔
      ∃ key, ComesTo engine now s key write ∧
        ∃ v, setKey tables.schema update = some v ∧
          (convertToColumnValue v).equals key = false := by
  have hwritten {changes : Changes}
      (hchanges : translateUpdate engine.isoformat tables update = .ok changes) (key : PyValue) :
      changesKey key (changes.values.lookup tables.schema.storage.key) = true ↔
        ∃ v, setKey tables.schema update = some v ∧
          (convertToColumnValue v).equals key = false := by
    rw [lookup_key_translateUpdate htables hkey hdict (checked_update hwrite hcheck).2 hchanges]
    cases setKey tables.schema update <;> simp [changesKey]
  cases write with
  | updateOne filter update shouldUpsert returning =>
    cases hwrite
    refine inTransaction_error_iff.trans ?_
    simp only [translate_keyChanged_iff, exists_eq_right, updateOneBody_keyChanged_iff hupdates]
    constructor
    · rintro ⟨changes, key, before, hchanges, hfirst, hrecord, hchanged⟩
      exact ⟨key, ⟨changes, before, hchanges, hfirst, hrecord⟩, (hwritten hchanges key).mp hchanged⟩
    · rintro ⟨key, ⟨changes, before, hchanges, hfirst, hrecord⟩, hchanged⟩
      exact ⟨changes, key, before, hchanges, hfirst, hrecord, (hwritten hchanges key).mpr hchanged⟩
  | updateMany filter update =>
    cases hwrite
    refine inTransaction_error_iff.trans ?_
    simp only [translate_keyChanged_iff, exists_eq_right, updateManyBody_keyChanged_iff]
    constructor
    · rintro ⟨changes, before, earlier, record, later, s', hchanges, hfind, hbefore, hearlier,
        hchanged⟩
      exact ⟨keyOf tables record, ⟨changes, before, earlier, record, later, s', hchanges, hfind,
        hbefore, hearlier, rfl⟩, (hwritten hchanges _).mp hchanged⟩
    · rintro ⟨_, ⟨changes, before, earlier, record, later, s', hchanges, hfind, hbefore, hearlier,
        rfl⟩, hchanged⟩
      exact ⟨changes, before, earlier, record, later, s', hchanges, hfind, hbefore, hearlier,
        (hwritten hchanges _).mpr hchanged⟩
  | insert | insertMany | deleteOne => cases hwrite

end SqlStore

/-- **What an accepted update that inserts nothing does to the stored keys.** SQL leaves them, and
its own check never refuses the update exactly if each record that the update comes to has, as it is
read, the key that it is set to; MongoDB leaves them exactly if each document that it comes to has
it as it is stored. -/
theorem moves_no_key {engine : SqlEngine} {tables : SchemaTables}
    (htables : getTablesOf tables.schema = some tables) (hkey : tables.schema.HasKey)
    {collection : MongoCollection} (hcollection : collection.UpdatesByField)
    (validate : Value Scalar → Except ValidationError Record) (now : ℕ → ℤ) (newId : ℕ → String)
    {write : Write} {filter : Filter} {update : Update}
    (hwrite : write.update = some (filter, update)) (hdict : update.IsDict)
    (hcheck : Database.check tables.schema write = .ok ()) (s : engine.Tables tables)
    (documents : List Document) (hsql : SqlStore.Updates engine now s write)
    (hmongo : MongoStore.Updates collection tables.schema (now 0) documents write) :
    ((SqlStore.write engine now newId write s).state.rows.map fun row =>
      row tables.schema.storage.key) = (s.rows.map fun row => row tables.schema.storage.key) ∧
    ((SqlStore.write engine now newId write s).result ≠
        .error (.find (.raised (keyChanged tables.schema))) ↔
      ∀ key, SqlStore.ComesTo engine now s key write → ∀ v, setKey tables.schema update = some v →
        (convertToColumnValue v).equals key = true) ∧
    (((MongoStore.write validate collection tables.schema (now 0) newId write documents).state.map
        (storedKey tables.schema)).Perm (documents.map (storedKey tables.schema)) ↔
      ∀ document, MongoStore.ComesTo collection tables.schema (now 0) documents document write →
        ∀ v, setKey tables.schema update = some v →
          convertToBsonValue tables.schema tables.schema.storage.key v =
            .ok (storedKey tables.schema document)) := by
  refine ⟨SqlStore.keys_write hsql, ?_,
    MongoStore.perm_keys_iff hcollection hkey hwrite hdict hcheck hmongo⟩
  rw [Ne, SqlStore.raises_keyChanged_iff htables hkey hwrite hdict hcheck hsql]
  simp only [not_exists, not_and, Bool.not_eq_false]

/-! ## A device by another case -/

/-- A schema whose records are fetched by their name, in any case. -/
def deviceSchema : Schema where
  name := "_Device"
  fields := [("name", .scalar .str), ("qubits", .scalar .int)]
  allowsExtra := false
  storage := { table := "devices", key := "name", caseInsensitive := ["name"] }
  undotted := by decide
  expiresAt := by decide

/-- The tables of the devices. -/
def deviceTables : SchemaTables := (getTablesOf deviceSchema).get (by decide +kernel)

/-- The device that a row is read as. -/
def readDevice : Value Scalar → Record
  | .document fields => [("name", readKey (Value.get "name" fields)),
      ("qubits", readKey (Value.get "qubits" fields))]
  | _ => []

/-- SQLite, as the store of devices uses it. -/
def deviceEngine : SqlEngine where
  database := sqlite
  references := fun _ _ => true
  text := byCodePoint
  plan := fun order => Sorting.byMerging (compareRows byCodePoint order)
  lower := String.toLower
  isoformat := fun _ _ => ""
  validate := fun v => .ok (readDevice v)
  construct := .ok

/-- A text that MongoDB stores. -/
def bsonText (text : String) : Bson := .scalar (.value (.text text))

/-- Whether two names are equal, without case under a collation. -/
def sameName (collation : Option Collation) : Bson → Bson → Bool
  | .scalar (.value (.text a)), .scalar (.value (.text b)) =>
    if collation.isSome then a.toLower = b.toLower else a = b
  | _, _ => false

/-- The devices of a server: a query asks for a name, and an update sets one field. -/
def deviceCollection : MongoCollection where
  isMatch := fun collation query document =>
    sameName collation (Value.get "name" query) (Value.get "name" document)
  order := fun _ _ _ _ => True
  scan := fun collation query documents => (List.range documents.length).filter fun i =>
    documents[i]?.any fun document =>
      sameName collation (Value.get "name" query) (Value.get "name" document)
  nodup_scan := fun _ _ _ => List.nodup_range.filter _
  mem_scan := by
    intro collation query documents i
    rw [List.mem_filter, List.mem_range, and_iff_right_iff_imp]
    intro h
    rw [Option.any_eq_true] at h
    obtain ⟨document, hdocument, _⟩ := h
    exact (List.getElem?_eq_some_iff.mp hdocument).1
  accepts := fun _ => true
  isDuplicate := fun a b => decide (Value.get "name" a = Value.get "name" b)
  applyUpdate := fun update document =>
    match update with
    | [("$set", .document [(field, v)])] =>
      if '.' ∈ field.toList ∨ field = keyField then none else some (assign field v document)
    | _ => none
  upserted := fun _ _ => none

theorem deviceCollection_updates : deviceCollection.UpdatesByField := by
  have hone {update document document' : Document}
      (h : deviceCollection.applyUpdate update document = some document') :
      ∃ field v, update = [("$set", .document [(field, v)])] ∧ '.' ∉ field.toList ∧
        field ≠ keyField ∧ document' = assign field v document := by
    unfold deviceCollection at h
    dsimp only at h
    split at h
    · rename_i field v
      split_ifs at h with hfield
      rw [not_or] at hfield
      exact ⟨field, v, rfl, hfield.1, hfield.2, (Option.some.inj h).symm⟩
    · cases h
  constructor
  · intro update document document' changes field v happly hmem hchange _
    obtain ⟨field', v', rfl, -, -, rfl⟩ := hone happly
    cases List.mem_singleton.mp hmem
    cases List.mem_singleton.mp hchange
    rw [Value.get, lookup_assign, if_pos rfl, Option.getD_some]
  · intro update document document' field happly hnames
    obtain ⟨field', v, rfl, hdot, -, rfl⟩ := hone happly
    have hne := hnames "$set" [(field', v)] (List.mem_singleton_self _) (by decide) (field', v)
      (List.mem_singleton_self _)
    rw [pathParts_name hdot, List.head?_cons, Ne, Option.some.injEq] at hne
    rw [Value.get, lookup_assign, if_neg (Ne.symm hne), ← Value.get]
  · intro update document document' happly
    obtain ⟨field, v, rfl, -, hown, rfl⟩ := hone happly
    rw [Value.get, lookup_assign, if_neg hown.symm, ← Value.get]

/-- The store of one device. -/
def storedDevice : deviceEngine.Tables deviceTables :=
  (SqlStore.write deviceEngine (fun _ => 0) (fun _ => "") (.insert
    [("name", .scalar (.str "ann")), ("qubits", .scalar (.int 5))]) SqlStore.empty).state

/-- Its document. -/
def deviceDocument : Document :=
  [("name", bsonText "ann"), ("qubits", .scalar (.value (.int 5)))]

/-- The update that asks for a name and sets it. -/
def setName (name : String) : Write :=
  .updateOne [.field "name" (.scalar (.str name))] [("$set", [("name", .scalar (.str name))])] false
    .after

theorem isDict_setName (name : String) :
    Update.IsDict [("$set", [("name", .scalar (.str name))])] := by
  constructor <;> simp

theorem deviceTables_schema : deviceTables.schema = deviceSchema := by
  have htables : getTablesOf deviceSchema = some deviceTables := (Option.some_get _).symm
  obtain ⟨_, hof⟩ := getTablesOf_spec htables
  exact hof.schema_eq

theorem getTablesOf_device : getTablesOf deviceTables.schema = some deviceTables := by
  rw [deviceTables_schema]
  exact (Option.some_get _).symm

theorem hasKey_device : deviceTables.schema.HasKey := by
  rw [Schema.HasKey, deviceTables_schema]
  exact ⟨.scalar .str, rfl, rfl⟩

/-- Whether SQL comes only to the device of a name. -/
def comesToNamed (name : String) : Bool :=
  match SqlStore.findFirstKey deviceEngine 0 [.field "name" (.scalar (.str name))] storedDevice with
  | .ok (some key) => (PyValue.scalar (.str name)).equals key
  | _ => true

/-- The device asked for by the name that is stored keeps it, and is not refused. -/
theorem moves_no_key_ann :
    (SqlStore.write deviceEngine (fun _ => 0) (fun _ => "") (setName "ann") storedDevice).result ≠
        .error (.find (.raised (keyChanged deviceTables.schema))) ∧
      ((MongoStore.write (fun _ => .ok []) deviceCollection deviceTables.schema 0 (fun _ => "")
        (setName "ann") [deviceDocument]).state.map (storedKey deviceTables.schema)).Perm
        ([deviceDocument].map (storedKey deviceTables.schema)) := by
  have hset : setKey deviceTables.schema [("$set", [("name", .scalar (.str "ann"))])] =
      some (.scalar (.str "ann")) := by
    rw [deviceTables_schema]
    rfl
  obtain ⟨-, hsql, hmongo⟩ := @moves_no_key deviceEngine deviceTables getTablesOf_device
    hasKey_device deviceCollection deviceCollection_updates (fun _ => .ok []) (fun _ => 0)
    (fun _ => "") (setName "ann") _ _ rfl (isDict_setName "ann") (by decide +kernel) storedDevice
    [deviceDocument] (fun h => by cases h) (fun h => by cases h)
  refine ⟨hsql.mpr ?_, hmongo.mpr ?_⟩
  · rintro key ⟨_, _, _, hfirst, _⟩ v hv
    rw [hset] at hv
    cases hv
    have hnamed : comesToNamed "ann" = true := by decide +kernel
    unfold comesToNamed at hnamed
    rwa [hfirst] at hnamed
  · rintro document ⟨_, place, _, _, _, _, hdocument⟩ v hv
    rw [hset] at hv
    cases hv
    cases List.mem_singleton.mp (List.mem_of_getElem? hdocument)
    rw [deviceTables_schema]
    rfl

/-- What a write raises, if it does. -/
def errorOf : Except CallError Answer → Option CallError
  | .error e => some e
  | .ok _ => none

theorem eq_error_of_errorOf {result : Except CallError Answer} {e : CallError}
    (h : errorOf result = some e) : result = .error e := by
  cases result with
  | ok _ => cases h
  | error e' =>
    cases h
    rfl

/-- **A device asked for by another case** of the name stored: SQL's own check refuses the update,
which was accepted, and MongoDB moves the device to the other name. -/
theorem key_moved :
    Database.check deviceSchema (setName "Ann") = .ok () ∧
      (SqlStore.write deviceEngine (fun _ => 0) (fun _ => "") (setName "Ann") storedDevice).result =
        .error (.find (.raised (keyChanged deviceSchema))) ∧
      ¬ ((MongoStore.write (fun _ => .ok []) deviceCollection deviceSchema 0 (fun _ => "")
        (setName "Ann") [deviceDocument]).state.map (storedKey deviceSchema)).Perm
        ([deviceDocument].map (storedKey deviceSchema)) := by
  exact ⟨by decide +kernel, eq_error_of_errorOf (by decide +kernel), by decide +kernel⟩

end Mss
