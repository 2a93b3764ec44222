import Mss.Lib.Table
import Mss.ListUpdates
import Mss.SqlInserts
import Mss.Storage.MongoWrites
import Mss.UniqueKeys

/-!
# Updates of records that expire

An update reads its record back through the filter that every read goes through, which leaves out
what has expired. In SQL an update that is to return the record after it, and that sets an expiry not
to come, finds no record, raises, and is rolled back. In MongoDB the server returns the document.

* `HasPlainKey`: a schema whose key is a scalar compared with case.
* `SqlStore.Takes`: the record that is read back under a key; `SqlStore.getRecord_eq`: that of the
  row of a plain key.
* `SqlStore.updateOne_matched_iff`, `SqlStore.updateOne_upserted_iff`: an update that is committed.
* `SqlStore.isReadBack_iff`, `SqlStore.takes_upserted_iff`: where the key is plain.
* **`committed_iff`**: when an update is committed, and what it returns.
-/

namespace Mss

open Storage

/-! ## Expiry -/

/-- Whether a record of an expiry has not expired at an instant. -/
def isUnexpired (instant : ℤ) : Value Scalar → Bool
  | .null => true
  | .scalar (.datetime t) => decide (instant < t)
  | _ => false

theorem isUnexpired_iff {instant : ℤ} {x : Value Scalar} : isUnexpired instant x = true ↔
    x = .null ∨ ∃ t, x = .scalar (.datetime t) ∧ instant < t := by
  cases x with
  | scalar a => cases a <;> simp [isUnexpired]
  | _ => simp [isUnexpired]

/-- The version that an update is to return. -/
def versionAsked {A : Type} (returning : Returning) (before after : A) : A :=
  match returning with
  | .before => before
  | .after => after

section

variable {tables : SchemaTables} {childFields : List String} {field : String}

theorem unexpired_recordOf (hof : tables.Of tables.schema childFields)
    (hfield : tables.schema.storage.expires = some field) {instant : ℤ}
    (stored : StoredRows tables) (row : Row) :
    Unexpired tables.schema instant (stored.recordOf row) ↔ isUnexpired instant (row field) = true := by
  obtain ⟨hid, hlist, hcolumn, hdot, -⟩ := expires_column hof hfield
  unfold Unexpired
  rw [hfield]
  simp only [Option.mem_def, Option.some.injEq, forall_eq', stored.reached_column row hid hlist
    hcolumn hdot, List.mem_singleton, forall_eq, isUnexpired_iff]

/-! ## Keys -/

/-- **A plain key**: a field of the schema's, with a column of scalars, compared with case. -/
structure HasPlainKey (tables : SchemaTables) (type : ColumnType) : Prop where
  lookup : tables.columns.lookup tables.schema.storage.key = some type
  named : tables.schema.storage.key ≠ rowId
  scalar : type ≠ .json
  cased : tables.schema.storage.caseInsensitive.contains tables.schema.storage.key = false

theorem getColumn_key (hof : tables.Of tables.schema childFields) {type : ColumnType}
    (hkey : HasPlainKey tables type) :
    tables.listTables.lookup tables.schema.storage.key = none ∧
      getColumn tables tables.schema.storage.key = .ok tables.schema.storage.key := by
  have hlookup := hof.lookup_columns hkey.named
  rw [hkey.lookup] at hlookup
  have hchild : tables.schema.storage.key ∉ childFields := by
    intro hmem
    rw [if_pos hmem] at hlookup
    cases hlookup
  have hlist : tables.listTables.lookup tables.schema.storage.key = none :=
    Option.eq_none_iff_forall_not_mem.mpr fun _ hmem => hchild (hof.lookup_listTables hmem).1
  rw [if_neg hchild] at hlookup
  obtain ⟨a, ha, -⟩ := Option.map_eq_some_iff.mp hlookup.symm
  have hdot : '.' ∉ tables.schema.storage.key.toList := tables.schema.notMem_dot ha
  have hjson : tables.schema.storage.key ∉ tables.jsonFields := by
    intro hmem
    have hcolumn := hof.jsonColumn _ hmem
    rw [hkey.lookup] at hcolumn
    exact hkey.scalar (Option.some.inj hcolumn)
  refine ⟨hlist, ?_⟩
  simp [getColumn, hlist, hdot, hjson, hkey.lookup]

theorem toScalar_toPython (a : Scalar) : a.toPython.toScalar = a := by
  cases a <;> simp [Scalar.toPython, PyScalar.toScalar]

theorem bind_toPython (dialect : SqlDialect) (a : Scalar) : dialect.bind a.toPython = a := by
  cases a <;> cases dialect <;>
    simp [Scalar.toPython, SqlDialect.bind, processBindParam, PyScalar.toScalar]

theorem kind_bind (dialect : SqlDialect) (p : PyScalar) : (dialect.bind p).kind = p.kind := by
  cases p with
  | datetime wall utcOffset => cases utcOffset <;> cases dialect <;> rfl
  | _ => cases dialect <;> rfl

theorem compare_bind {database : SqlDatabase} {type : ColumnType} {x : Value Scalar} {p : PyScalar}
    (hx : Fits type x) (ht : type ≠ .json) (hp : p.kind = type) :
    database.compare .eq x (.scalar p.convert) = .yes ↔ x = .scalar (database.dialect.bind p) := by
  obtain rfl | ⟨a, rfl, ha⟩ := hx.cases ht
  · simp [compare_null]
  · have hkind : a.kind = (database.dialect.bind p.convert).kind := by
      rw [SqlStore.bind_convert_eq, kind_bind, hp, ha]
    rw [SqlDatabase.compare, if_pos hkind, SqlStore.bind_convert_eq]
    simp [Comparison.test]

theorem translateFilter_key (hof : tables.Of tables.schema childFields) {type : ColumnType}
    (hkey : HasPlainKey tables type) (hfield : tables.schema.storage.expires = some field)
    (lower : String → String) (database : SqlDatabase) {p : PyScalar} (hp : p.kind = type)
    (instant : ℤ) : ∃ clause, translateFilter lower tables instant
        (filterOfKey tables.schema (.scalar p)) = .ok clause ∧
      ∀ (stored : StoredRows tables), ∀ row ∈ stored.rows,
        (clause.eval database stored row = .yes ↔
          row tables.schema.storage.key = .scalar (database.dialect.bind p) ∧
            isUnexpired instant (row field) = true) := by
  obtain ⟨hlist, hcolumn⟩ := getColumn_key hof hkey
  let key : Clause := .compare .eq ⟨tables.schema.storage.key, false⟩ (.scalar p.convert)
  let expiry : Clause := .or [.isNull ⟨field, false⟩,
    .compare .gt ⟨field, false⟩ (.scalar (.datetime instant (some 0)))]
  have hclause : translateField lower tables tables.schema.storage.key (.scalar p) =
      .ok (.and [key]) := by
    unfold translateField translateColumnCondition
    rw [hlist]
    dsimp only
    rw [hcolumn, hkey.cased]
    change getComparisonClause lower ⟨tables.schema.storage.key, false⟩ (.scalar p) false = _
    unfold getComparisonClause getOperatorClauses
    rw [convertOperand_lower_false]
    rfl
  have hexpires : (tables.columns.lookup field).isNone = false := by
    have hsome := (expires_column hof hfield).2.2.1
    simpa using Option.isSome_iff_ne_none.mp hsome
  refine ⟨.and [.and [.always, .and [key]], expiry], ?_, fun stored row hrow => ?_⟩
  · unfold translateFilter translateConditions filterOfKey
    rw [translateEntries, translateEntry, hclause, hfield]
    dsimp only
    rw [hexpires]
    rfl
  · have hcompare : key.eval database stored row = .yes ↔
        row tables.schema.storage.key = .scalar (database.dialect.bind p) := by
      rw [eval_compare]
      exact compare_bind (stored.typed row hrow _ (mem_of_lookup hkey.lookup)) hkey.scalar hp
    rw [eval_and, List.forall_mem_cons, List.forall_mem_singleton, eval_conditions,
      List.forall_mem_singleton, eval_and, List.forall_mem_singleton, hcompare,
      eval_expires hof hfield hrow, unexpired_recordOf hof hfield]

namespace SqlStore

variable {engine : SqlEngine} {s s' : engine.Tables tables} {type : ColumnType}

/-- Whether a row is of a key. -/
def isOfKey (tables : SchemaTables) (k : Scalar) (row : Row) : Bool :=
  row tables.schema.storage.key = .scalar k

theorem filter_isOfKey {row : Row} {k : Scalar} (hrow : row ∈ s.rows)
    (hk : row tables.schema.storage.key = .scalar k) :
    s.rows.filter (isOfKey tables k) = [row] := by
  have hapart : s.rows.Pairwise fun a b =>
      ¬ (isOfKey tables k a = true ∧ isOfKey tables k b = true) := by
    refine (s.unique.2.1 [⟨tables.schema.storage.key, false⟩] List.mem_cons_self).imp ?_
    rintro a b hclash ⟨ha, hb⟩
    have ha := of_decide_eq_true ha
    have hb := of_decide_eq_true hb
    simp [clashes, SqlDatabase.read, ha, hb, isChildOf_scalar] at hclash
  have hof : isOfKey tables k row = true := decide_eq_true hk
  have hmem := List.mem_filter.mpr ⟨hrow, hof⟩
  rw [filter_eq_first hapart] at hmem ⊢
  rw [Option.mem_toList.mp hmem]
  rfl

/-- **The record that is read back** under a key: that of its row, if it has not expired. -/
theorem getRecord_eq (hof : tables.Of tables.schema childFields) (hkey : HasPlainKey tables type)
    (hfield : tables.schema.storage.expires = some field) {p : PyScalar} (hp : p.kind = type)
    {row : Row} (hrow : row ∈ s.rows)
    (hk : row tables.schema.storage.key = .scalar (engine.database.dialect.bind p)) (instant : ℤ) :
    getRecord engine instant (.scalar p) s =
      if isUnexpired instant (row field) then
        (engine.validate (s.stored.recordOf row)).mapError .invalid
      else .error .index := by
  obtain ⟨clause, hclause, heval⟩ := translateFilter_key hof hkey hfield engine.lower
    engine.database hp instant
  have hmatched : matchedRows engine.database s.stored.toStoredRows clause =
      [row].filter fun r => isUnexpired instant (r field) := by
    rw [← filter_isOfKey hrow hk, List.filter_filter]
    refine List.filter_congr fun r hr => Bool.eq_iff_iff.mpr ?_
    rw [Bool.and_eq_true, beq_iff_eq, heval s.stored.toStoredRows r hr, and_comm, isOfKey,
      decide_eq_true_eq]
  have horder : translateSort tables [] = .ok [rowIdTerm] := rfl
  have hfound : findToWrite engine instant (filterOfKey tables.schema (.scalar p)) none s =
      ((selectRows engine.database engine.plan s.stored.toStoredRows clause [rowIdTerm] 0 none).mapM
        (validateRow engine.validate s.stored.toStoredRows)).mapError .find := by
    unfold findToWrite findRecords
    rw [hclause, horder]
    rfl
  have hperm := (engine.plan [rowIdTerm]).perm (matchedRows engine.database s.stored.toStoredRows
    clause)
  unfold getRecord
  rw [hfound, selectRows, page, List.drop_zero]
  rw [hmatched] at hperm ⊢
  cases hexpiry : isUnexpired instant (row field) with
  | true =>
    have hone : ([row].filter fun r => isUnexpired instant (r field)) = [row] := by simp [hexpiry]
    rw [hone] at hperm ⊢
    rw [List.perm_singleton.mp hperm, if_pos rfl, List.mapM_cons, validateRow]
    cases engine.validate (s.stored.recordOf row) <;> rfl
  | false =>
    have hnone : ([row].filter fun r => isUnexpired instant (r field)) = [] := by simp [hexpiry]
    rw [hnone] at hperm ⊢
    rw [List.perm_nil.mp hperm]
    rfl

variable (engine) in
/-- The rows of unexpired records that the filter of a key takes, in the order of insertion. -/
def keyRows (instant : ℤ) (key : PyValue) (s : engine.Tables tables) :
    Except PyError (List Row) := do
  let clause ← translateFilter engine.lower tables instant (filterOfKey tables.schema key)
  return selectRows engine.database engine.plan s.stored.toStoredRows clause [rowIdTerm] 0 none

variable (engine) in
/-- **The re-read of a key takes a record**: that of the first unexpired row which the filter of the
key takes, where each row that it takes is of a valid record. -/
def Takes (instant : ℤ) (key : PyValue) (s : engine.Tables tables) (record : Record) : Prop :=
  ∃ row rows, keyRows engine instant key s = .ok (row :: rows) ∧
    engine.validate (s.stored.recordOf row) = .ok record ∧
    ∀ r ∈ rows, ∃ record, engine.validate (s.stored.recordOf r) = .ok record

theorem getRecord_eq_ok_iff {instant : ℤ} {key : PyValue} {record : Record} :
    getRecord engine instant key s = .ok record ↔ Takes engine instant key s record := by
  have horder : translateSort tables [] = .ok [rowIdTerm] := rfl
  have hfound : findToWrite engine instant (filterOfKey tables.schema key) none s =
      ((keyRows engine instant key s).mapError .raised >>= fun rows =>
        rows.mapM (validateRow engine.validate s.stored.toStoredRows)).mapError .find := by
    unfold findToWrite findRecords keyRows
    rw [horder]
    cases translateFilter engine.lower tables instant (filterOfKey tables.schema key) <;> rfl
  have hvalid {r : Row} {record : Record} : validateRow engine.validate s.stored.toStoredRows r =
      .ok record ↔ engine.validate (s.stored.recordOf r) = .ok record := by
    unfold validateRow
    cases engine.validate (s.stored.recordOf r) <;> simp [Except.mapError]
  unfold getRecord Takes
  rw [hfound]
  constructor
  · intro h
    obtain ⟨records, hrecords, hfirst⟩ := bind_ok h
    obtain ⟨rows, hrows, hall⟩ := bind_ok (mapError_ok hrecords)
    have hvalidAll := mapM_ok hall
    cases forall₂_of_mapM hall with
    | nil => cases hfirst
    | cons hrow _ =>
      cases hfirst
      refine ⟨_, _, mapError_ok hrows, hvalid.mp hrow, fun r hr => ?_⟩
      obtain ⟨record, hrecord⟩ := hvalidAll r (List.mem_cons_of_mem _ hr)
      exact ⟨record, hvalid.mp hrecord⟩
  · rintro ⟨row, rows, hrows, hfirst, hrest⟩
    obtain ⟨records, hrecords, -⟩ := exists_mapM (q := fun _ _ => True) fun r hr => by
      obtain ⟨record, hrecord⟩ := hrest r hr
      exact ⟨record, hvalid.mpr hrecord, trivial⟩
    have hall : (row :: rows).mapM (validateRow engine.validate s.stored.toStoredRows) =
        .ok (record :: records) := by
      rw [List.mapM_cons, hvalid.mpr hfirst, hrecords]
      rfl
    rw [hrows]
    change (Except.mapError WriteError.find ((row :: rows).mapM _) >>= _) = _
    rw [hall]
    rfl

/-! ## What an update writes -/

/-- The columns that the changes of a record change: not its key. -/
def columnChanges (tables : SchemaTables) (changes : Changes) : List (String × ColumnChange) :=
  changes.values.filter fun change => change.1 != tables.schema.storage.key

/-- The row of a record after its changes. -/
def rowAfter (engine : SqlEngine) (tables : SchemaTables) (changes : Changes) (row : Row) : Row :=
  changedRow engine.database.dialect tables.columns (columnChanges tables changes) row

theorem rowAfter_key (changes : Changes) (row : Row) :
    rowAfter engine tables changes row tables.schema.storage.key =
      row tables.schema.storage.key := by
  have hnone : (columnChanges tables changes).lookup tables.schema.storage.key = none := by
    rw [columnChanges, lookup_filter (· != tables.schema.storage.key)]
    simp
  rw [rowAfter, changedRow, hnone]

theorem boundKey_scalar (hkey : HasPlainKey tables type) (dialect : SqlDialect) {p : PyScalar}
    (hp : p.kind = type) : boundKey dialect tables (.scalar p) = .scalar (dialect.bind p) := by
  have hkind : (dialect.bind p).kind = type := (kind_bind dialect p).trans hp
  rw [boundKey, hkey.lookup]
  change Value.scalar ((dialect.bind p).asType type) = .scalar (dialect.bind p)
  rw [← hkind]
  cases dialect.bind p <;> rfl

theorem kind_toPython (k : Scalar) : k.toPython.kind = k.kind := by
  rw [PyScalar.kind, toScalar_toPython]

/-- **The rows after an update of a key**: its row is changed, and the others are as they were. -/
theorem rows_updateKey (hkey : HasPlainKey tables type) {k : Scalar} (hk : k.kind = type)
    {changes : Changes} (h : updateKey engine (.scalar k.toPython) changes s = .ok s') :
    s'.rows = s.rows.map fun row =>
      if isOfKey tables k row then rowAfter engine tables changes row else row := by
  obtain ⟨s₁, hvalues, hlists⟩ := writeChanges_cases h
  rw [boundKey_scalar hkey _ ((kind_toPython k).trans hk), bind_toPython] at hvalues
  rw [rows_writeLists hlists]
  have hof (row : Row) : isChildOf (row tables.schema.storage.key) (.scalar k) =
      isOfKey tables k row := by
    unfold isOfKey
    cases row tables.schema.storage.key <;> simp [isChildOf]
  change writeValues (.scalar k) (columnChanges tables changes) s = .ok s₁ at hvalues
  unfold writeValues at hvalues
  split_ifs at hvalues with hempty
  · cases hvalues
    have hsame (row : Row) : rowAfter engine tables changes row = row := by
      funext column
      rw [rowAfter, List.isEmpty_iff.mp hempty]
      rfl
    simp [hsame]
  · rw [toRaw_of_execute hvalues]
    simp only [hof]
    rfl

/-! ## When an update is committed -/

theorem key_of_row (hkey : HasPlainKey tables type) {row : Row} (hrow : row ∈ s.rows) :
    ∃ k, row tables.schema.storage.key = .scalar k ∧ k.kind = type := by
  have hfits : Fits type (row tables.schema.storage.key) :=
    s.stored.typed row hrow _ (mem_of_lookup hkey.lookup)
  have hnull := s.notNull.1 row hrow
  obtain hx | ⟨k, hk, hkind⟩ := hfits.cases hkey.scalar
  · rw [hx] at hnull
    cases hnull
  · exact ⟨k, hk, hkind⟩

variable {now : ℕ → ℤ} {newId : ℕ → String} {filter : Filter} {update : Update}
  {shouldUpsert : Bool} {returning : Returning}

/-- **An update of a matched record**: the database takes it, and the record is valid before it and
after it. -/
structure Matched (engine : SqlEngine) (instant : ℤ) (filter : Filter) (changes : Changes)
    (s s' : engine.Tables tables) (row : Row) (before after : Record) : Prop where
  row_mem : row ∈ s.rows
  found : findFirstKey engine instant filter s =
    .ok (some (readKey (row tables.schema.storage.key)))
  written : updateKey engine (readKey (row tables.schema.storage.key)) changes s = .ok s'
  valid_before : engine.validate (s.stored.recordOf row) = .ok before
  valid_after : engine.validate (s'.stored.recordOf (rowAfter engine tables changes row)) = .ok after

/-- **The record is read back**: before the update if it is to be returned as it was, and where the
record after is to be returned, after it. In both cases some record is read before the update. -/
def IsReadBack (engine : SqlEngine) (now : ℕ → ℤ) (returning : Returning) (key : PyValue)
    (s s' : engine.Tables tables) (before after : Record) : Prop :=
  (∃ record, Takes engine (now 1) key s record ∧ (returning = .before → record = before)) ∧
    (returning = .after → Takes engine (now 2) key s' after)

theorem updateOne_ok_iff {answer : Option Record} :
    updateOne engine now newId filter update shouldUpsert returning s = ⟨.ok (.record answer), s'⟩ ↔
      updateOneBody engine now newId filter update shouldUpsert returning s = .ok (answer, s') := by
  unfold updateOne inTransaction transact
  dsimp only
  cases updateOneBody engine now newId filter update shouldUpsert returning s with
  | error e => simp [Outcome.mapError, Outcome.refuse, Except.map, Except.mapError]
  | ok done => simp [Outcome.mapError, Except.map, Except.mapError, Prod.ext_iff]

theorem updateOneBody_matched {changes : Changes}
    (hchanges : translateUpdate engine.isoformat tables update = .ok changes)
    {row : Row} {before after : Record}
    (h : Matched engine (now 0) filter changes s s' row before after) :
    updateOneBody engine now newId filter update shouldUpsert returning s =
      (getRecord engine (now 1) (readKey (row tables.schema.storage.key)) s >>= fun record =>
        answerUpdated engine now returning (readKey (row tables.schema.storage.key)) record s') := by
  unfold updateOneBody
  rw [hchanges, h.found]
  change (getRecord engine (now 1) _ s >>= fun record => updateKey engine _ changes s >>= fun s' =>
    answerUpdated engine now returning _ record s') = _
  rw [h.written]
  rfl

/-- **An update of a matched record is committed**, and returns the version asked for, exactly if the
record is read back. -/
theorem updateOne_matched_iff {changes : Changes}
    (hchanges : translateUpdate engine.isoformat tables update = .ok changes)
    {row : Row} {before after : Record}
    (h : Matched engine (now 0) filter changes s s' row before after) :
    updateOne engine now newId filter update shouldUpsert returning s =
        ⟨.ok (.record (versionAsked returning (some before) (some after))), s'⟩ ↔
      IsReadBack engine now returning (readKey (row tables.schema.storage.key)) s s' before
        after := by
  rw [updateOne_ok_iff, updateOneBody_matched hchanges h]
  unfold IsReadBack
  simp only [← getRecord_eq_ok_iff]
  cases getRecord engine (now 1) (readKey (row tables.schema.storage.key)) s with
  | error e => simp [bind, Except.bind]
  | ok record =>
    cases returning with
    | before => simp [bind, Except.bind, answerUpdated, versionAsked, pure, Except.pure]
    | after =>
      cases hread : getRecord engine (now 2) (readKey (row tables.schema.storage.key)) s' <;>
        simp [bind, Except.bind, answerUpdated, versionAsked, pure, Except.pure, hread]

/-- **Under a plain key** the record is read before the update, and after it, if it has not expired. -/
theorem getRecord_matched (hof : tables.Of tables.schema childFields)
    (hkey : HasPlainKey tables type) (hfield : tables.schema.storage.expires = some field)
    {changes : Changes} {row : Row} {before after : Record} {instant : ℤ}
    (h : Matched engine instant filter changes s s' row before after) :
    (∀ instant, getRecord engine instant (readKey (row tables.schema.storage.key)) s =
        if isUnexpired instant (row field) then .ok before else .error .index) ∧
      ∀ instant, getRecord engine instant (readKey (row tables.schema.storage.key)) s' =
        if isUnexpired instant (rowAfter engine tables changes row field) then .ok after
        else .error .index := by
  obtain ⟨hrow, -, hwrite, hbefore, hafter⟩ := h
  obtain ⟨k, hk, hkind⟩ := key_of_row hkey hrow
  have hreadKey : readKey (row tables.schema.storage.key) = .scalar k.toPython := by
    rw [hk]
    rfl
  rw [hreadKey] at hwrite ⊢
  have hp : k.toPython.kind = type := (kind_toPython k).trans hkind
  have hbind : row tables.schema.storage.key =
      .scalar (engine.database.dialect.bind k.toPython) := by rw [bind_toPython, hk]
  have hmem : rowAfter engine tables changes row ∈ s'.rows := by
    rw [rows_updateKey hkey hkind hwrite]
    exact List.mem_map.mpr ⟨row, hrow, if_pos (decide_eq_true hk)⟩
  refine ⟨fun instant => ?_, fun instant => ?_⟩
  · rw [getRecord_eq hof hkey hfield hp hrow hbind, hbefore]
    rfl
  · rw [getRecord_eq hof hkey hfield hp hmem ((rowAfter_key changes row).trans hbind), hafter]
    rfl

theorem isReadBack_iff (hof : tables.Of tables.schema childFields) (hkey : HasPlainKey tables type)
    (hfield : tables.schema.storage.expires = some field) {changes : Changes} {row : Row}
    {before after : Record} {instant : ℤ}
    (h : Matched engine instant filter changes s s' row before after) :
    IsReadBack engine now returning (readKey (row tables.schema.storage.key)) s s' before after ↔
      isUnexpired (now 1) (row field) = true ∧ (returning = .after →
        isUnexpired (now 2) (rowAfter engine tables changes row field) = true) := by
  obtain ⟨hread, hreadBack⟩ := getRecord_matched hof hkey hfield h
  unfold IsReadBack
  simp only [← getRecord_eq_ok_iff, hread, hreadBack]
  cases isUnexpired (now 1) (row field) <;>
    cases isUnexpired (now 2) (rowAfter engine tables changes row field) <;> simp

variable (now) in
theorem updateOne_expired (hof : tables.Of tables.schema childFields)
    (hkey : HasPlainKey tables type) (hfield : tables.schema.storage.expires = some field)
    {changes : Changes} (hchanges : translateUpdate engine.isoformat tables update = .ok changes)
    {row : Row} {before after : Record}
    (h : Matched engine (now 0) filter changes s s' row before after)
    (hexpired : isUnexpired (now 2) (rowAfter engine tables changes row field) = false) :
    updateOne engine now newId filter update shouldUpsert .after s = ⟨.error .index, s⟩ := by
  obtain ⟨hread, hreadBack⟩ := getRecord_matched hof hkey hfield h
  have hbody : updateOneBody engine now newId filter update shouldUpsert .after s =
      .error .index := by
    rw [updateOneBody_matched hchanges h, hread]
    cases isUnexpired (now 1) (row field) with
    | false => rfl
    | true =>
      change answerUpdated engine now .after _ before s' = _
      unfold answerUpdated
      dsimp only
      rw [hreadBack, hexpired]
      rfl
  unfold updateOne inTransaction transact
  dsimp only
  rw [hbody]
  rfl

theorem get_withId {record : Record} {p : PyScalar} {name : String}
    (h : record.get name = .scalar p) (schema : Schema) (newId : String) :
    (withId schema newId record).get name = .scalar p := by
  unfold withId
  split_ifs with hid
  · by_cases hname : name = "id"
    · subst hname
      rw [h] at hid
      exact absurd hid.1 (by simp [PyValue.isNone])
    · rw [Record.get, lookup_assign, if_neg hname]
      exact h
  · exact h

/-- **An upsert that creates a record**: none is matched, and the database takes the record, which is
valid. -/
structure Upserted (engine : SqlEngine) (instant : ℤ) (newId : ℕ → String) (filter : Filter)
    (update : Update) (s s' : engine.Tables tables) (key : PyValue) (record after : Record) :
    Prop where
  notFound : findFirstKey engine instant filter s = .ok none
  constructed : engine.construct (withUpsertId tables.schema (newId 0)
    (upsertedValues filter update)) = .ok record
  hasKey : record.get tables.schema.storage.key = key
  inserted : insertRecord engine.isoformat s (newId 1) record = .ok s'
  valid_after : engine.validate (s'.stored.recordOf
    (newRow engine tables (newId 1) record (nextRowId s.rows))) = .ok after

theorem updateOneBody_upserted {changes : Changes}
    (hchanges : translateUpdate engine.isoformat tables update = .ok changes)
    {key : PyValue} {record after : Record}
    (h : Upserted engine (now 0) newId filter update s s' key record after) :
    updateOneBody engine now newId filter update true returning s =
      answerUpserted engine now returning key s' := by
  obtain ⟨hfound, hrecord, hkeyOf, hinsert, -⟩ := h
  have hupserted : insertUpsertedRecord engine newId (now 1) filter update s = .ok (key, s') := by
    simp only [insertUpsertedRecord, hrecord, Except.mapError, bind, Except.bind, hinsert, hkeyOf]
    rfl
  unfold updateOneBody
  rw [hchanges, hfound]
  change (insertUpsertedRecord engine newId (now 1) filter update s >>= fun upserted =>
    answerUpserted engine now returning upserted.1 upserted.2) = _
  rw [hupserted]
  rfl

/-- **An upsert that creates a record is committed**, and returns what is asked for, exactly if the
record is not to be returned, or is read back. -/
theorem updateOne_upserted_iff {changes : Changes}
    (hchanges : translateUpdate engine.isoformat tables update = .ok changes)
    {key : PyValue} {record after : Record}
    (h : Upserted engine (now 0) newId filter update s s' key record after) :
    updateOne engine now newId filter update true returning s =
        ⟨.ok (.record (versionAsked returning none (some after))), s'⟩ ↔
      (returning = .after → Takes engine (now 2) key s' after) := by
  rw [updateOne_ok_iff, updateOneBody_upserted hchanges h]
  simp only [← getRecord_eq_ok_iff]
  cases returning with
  | before => simp [answerUpserted, versionAsked, pure, Except.pure]
  | after =>
    cases hread : getRecord engine (now 2) key s' <;>
      simp [bind, Except.bind, answerUpserted, versionAsked, pure, Except.pure, hread]

/-- **Under a plain key** the record that an upsert creates is read back if it has not expired. -/
theorem takes_upserted_iff (hof : tables.Of tables.schema childFields)
    (hkey : HasPlainKey tables type) (hfield : tables.schema.storage.expires = some field)
    {p : PyScalar} (hp : p.kind = type) {record after : Record} {instant later : ℤ}
    (h : Upserted engine instant newId filter update s s' (.scalar p) record after) :
    Takes engine later (.scalar p) s' after ↔
      isUnexpired later (newRow engine tables (newId 1) record (nextRowId s.rows) field) = true := by
  obtain ⟨-, -, hkeyOf, hinsert, hafter⟩ := h
  obtain ⟨hrows, -, -⟩ := insertRecord_rows hof hinsert
  have hmem : newRow engine tables (newId 1) record (nextRowId s.rows) ∈ s'.rows := by
    rw [hrows]
    exact List.mem_append_right _ List.mem_cons_self
  have hbind : newRow engine tables (newId 1) record (nextRowId s.rows) tables.schema.storage.key =
      .scalar (engine.database.dialect.bind p) := by
    rw [newRow, recordRow_key hof hkey.lookup hkey.scalar hkey.named, get_withId hkeyOf,
      boundKey_scalar hkey _ hp]
  rw [← getRecord_eq_ok_iff, getRecord_eq hof hkey hfield hp hmem hbind, hafter]
  cases isUnexpired later (newRow engine tables (newId 1) record (nextRowId s.rows) field) <;>
    simp [Except.mapError]

end SqlStore

namespace MongoStore

open Mongo

variable {validate : Value Scalar → Except ValidationError Record} {collection : MongoCollection}
  {schema : Schema} {now : ℤ} {newId : ℕ → String} {filter : Filter} {update : Update}
  {shouldUpsert : Bool} {returning : Returning} {documents documents' : List Document}
  {document document' : Document} {asked : Document × Document} {before after : Record}

/-- **An update of a matched document**: the server takes it, and the document is valid before it
and after it. -/
structure Matched (validate : Value Scalar → Except ValidationError Record)
    (collection : MongoCollection) (schema : Schema) (filter : Filter) (asked : Document × Document)
    (documents : List Document) (place : ℕ) (document document' : Document)
    (before after : Record) : Prop where
  found : (collection.scan (getQueryCollation schema filter) asked.1 documents).head? = some place
  document_at : documents[place]? = some document
  updated : collection.updated asked.2 documents place document = .ok document'
  valid_before : convertToRecord validate schema document = .ok before
  valid_after : convertToRecord validate schema document' = .ok after

/-- **An upsert that creates a document**, which is valid. -/
structure Upserted (validate : Value Scalar → Except ValidationError Record)
    (collection : MongoCollection) (schema : Schema) (newId : String) (filter : Filter)
    (asked : Document × Document) (documents documents' : List Document) (document : Document)
    (after : Record) : Prop where
  notFound : collection.scan (getQueryCollation schema filter) asked.1 documents = []
  upserted : collection.upserted asked.1 asked.2 = some document
  inserted : collection.insertOne documents (withKey newId document) = .ok documents'
  valid_after : convertToRecord validate schema (withKey newId document) = .ok after

theorem updateOne_matched (hasked : command schema now filter update = .ok asked) {place : ℕ}
    (h : Matched validate collection schema filter asked documents place document document' before
      after) :
    updateOne validate collection schema now newId filter update shouldUpsert returning documents =
      ⟨.ok (.record (versionAsked returning (some before) (some after))),
        documents.set place document'⟩ := by
  obtain ⟨hplace, hdocument, hupdated, hbefore, hafter⟩ := h
  have hlength : place < documents.length := (List.getElem?_eq_some_iff.mp hdocument).1
  have hset : (documents.set place document')[place]? = some document' :=
    List.getElem?_set_self hlength
  have hat : collection.updateAt asked.2 documents place = .ok (documents.set place document') := by
    unfold MongoCollection.updateAt
    rw [hdocument]
    dsimp only
    rw [hupdated]
    rfl
  have hfound : collection.findOneAndUpdate (getQueryCollation schema filter) asked.1 asked.2
      shouldUpsert (newId 0) returning documents =
        .ok (versionAsked returning (some document) (some document'),
          documents.set place document') := by
    unfold MongoCollection.findOneAndUpdate
    rw [hplace]
    dsimp only
    rw [hat]
    change Except.ok (MongoCollection.updateAnswer returning documents _ place, _) = _
    cases returning <;> simp [MongoCollection.updateAnswer, versionAsked, hdocument, hset]
  unfold updateOne
  rw [hasked]
  change answerCommand validate schema documents (collection.findOneAndUpdate _ asked.1 asked.2
    shouldUpsert (newId 0) returning documents) = _
  rw [hfound]
  cases returning <;> simp [answerCommand, answerRecord, versionAsked, hbefore, hafter]

theorem updateOne_upserted (hasked : command schema now filter update = .ok asked)
    (h : Upserted validate collection schema (newId 0) filter asked documents documents' document
      after) :
    updateOne validate collection schema now newId filter update true returning documents =
      ⟨.ok (.record (versionAsked returning none (some after))), documents'⟩ := by
  obtain ⟨hplace, hupserted, hinsert, hafter⟩ := h
  have hfound : collection.findOneAndUpdate (getQueryCollation schema filter) asked.1 asked.2
      true (newId 0) returning documents =
        .ok (versionAsked returning none (some (withKey (newId 0) document)), documents') := by
    unfold MongoCollection.findOneAndUpdate
    rw [hplace]
    dsimp only [List.head?_nil]
    rw [if_pos rfl, MongoCollection.upsertOne, hupserted]
    dsimp only
    rw [hinsert]
    cases returning <;> rfl
  unfold updateOne
  rw [hasked]
  change answerCommand validate schema documents (collection.findOneAndUpdate _ asked.1 asked.2
    true (newId 0) returning documents) = _
  rw [hfound]
  cases returning <;> simp [answerCommand, answerRecord, versionAsked, hafter]

end MongoStore

/-! ## Both databases -/

/-- **An update of a record that expires is committed**, and returns the version of the record that
is asked for, exactly when SQL reads the record back. Under a plain key it does exactly when the record
has not expired where it reads it: before the update, and after it if that version is asked for. In
MongoDB the update always is. -/
theorem committed_iff {schema : Schema} (hsome : getTablesOf schema = some tables)
    (hfield : schema.storage.expires = some field)
    (filter : Filter) (update : Update) (returning : Returning) (newId : ℕ → String) :
    (∀ (engine : SqlEngine) (now : ℕ → ℤ) (s s' : engine.Tables tables) (changes : SqlStore.Changes),
      SqlStore.translateUpdate engine.isoformat tables update = .ok changes →
      (∀ (shouldUpsert : Bool) (row : Row) (before after : Record),
        SqlStore.Matched engine (now 0) filter changes s s' row before after →
        (SqlStore.updateOne engine now newId filter update shouldUpsert returning s =
            ⟨.ok (.record (versionAsked returning (some before) (some after))), s'⟩ ↔
          SqlStore.IsReadBack engine now returning (readKey (row schema.storage.key)) s s' before
            after) ∧
        ∀ type, HasPlainKey tables type →
          (SqlStore.IsReadBack engine now returning (readKey (row schema.storage.key)) s s' before
              after ↔
            isUnexpired (now 1) (row field) = true ∧ (returning = .after →
              isUnexpired (now 2) (SqlStore.rowAfter engine tables changes row field) = true))) ∧
      ∀ (key : PyValue) (record after : Record),
        SqlStore.Upserted engine (now 0) newId filter update s s' key record after →
        (SqlStore.updateOne engine now newId filter update true returning s =
            ⟨.ok (.record (versionAsked returning none (some after))), s'⟩ ↔
          (returning = .after → SqlStore.Takes engine (now 2) key s' after)) ∧
        ∀ type p, HasPlainKey tables type → key = .scalar p → p.kind = type →
          (SqlStore.Takes engine (now 2) key s' after ↔
            isUnexpired (now 2) (SqlStore.newRow engine tables (newId 1) record
              (SqlStore.nextRowId s.rows) field) = true)) ∧
    ∀ (validate : Value Scalar → Except ValidationError Record) (collection : MongoCollection)
      (now : ℤ) (documents documents' : List Document) (asked : Document × Document),
      MongoStore.command schema now filter update = .ok asked →
      (∀ (shouldUpsert : Bool) (place : ℕ) (document document' : Document) (before after : Record),
        MongoStore.Matched validate collection schema filter asked documents place document document'
          before after →
        MongoStore.updateOne validate collection schema now newId filter update shouldUpsert returning
            documents =
          ⟨.ok (.record (versionAsked returning (some before) (some after))),
            documents.set place document'⟩) ∧
      ∀ (document : Document) (after : Record),
        MongoStore.Upserted validate collection schema (newId 0) filter asked documents documents'
          document after →
        MongoStore.updateOne validate collection schema now newId filter update true returning
            documents =
          ⟨.ok (.record (versionAsked returning none (some after))), documents'⟩ := by
  obtain ⟨childFields, hof⟩ := getTablesOf_spec hsome
  have hschema : tables.schema = schema := hof.schema_eq
  rw [← hschema] at hof hfield
  refine ⟨fun engine now s s' changes hchanges => ⟨?_, ?_⟩,
    fun validate collection now documents documents' asked hasked => ⟨?_, ?_⟩⟩
  · intro shouldUpsert row before after hmatched
    rw [← hschema]
    -- SQL reads the record again after the update, where MongoDB returns what it wrote
    exact ⟨SqlStore.updateOne_matched_iff hchanges hmatched,
      fun type hkey => SqlStore.isReadBack_iff hof hkey hfield hmatched⟩
  · intro key record after hupserted
    refine ⟨SqlStore.updateOne_upserted_iff hchanges hupserted, ?_⟩
    rintro type p hkey rfl hp
    exact SqlStore.takes_upserted_iff hof hkey hfield hp hupserted
  · intro shouldUpsert place document document' before after hmatched
    exact MongoStore.updateOne_matched hasked hmatched
  · intro document after hupserted
    exact MongoStore.updateOne_upserted hasked hupserted

end

/-! ## A nonce that is spent -/

def nonceTables : SchemaTables := (getTablesOf nonceSchema).get (by decide +kernel)

theorem hasPlainKey_nonceTables : HasPlainKey nonceTables .string :=
  ⟨by decide +kernel, by decide +kernel, by decide, by decide +kernel⟩

/-- The nonce of a device, which expires at an instant. -/
def nonceUntil (t : ℤ) : Record :=
  [("nonce", .scalar (.str "n")), ("device_name", .scalar (.str "loke")),
    ("expires_at", .scalar (.datetime t (some 0)))]

/-- The table of a nonce that expires at 10. -/
def heldNonce : petEngine.Tables nonceTables :=
  (SqlStore.insertRecord petEngine.isoformat SqlStore.empty "" (nonceUntil 10)).toOption.get
    (by decide +kernel)

def heldRow : Row := heldNonce.rows.head (by decide +kernel)

/-- Have a nonce expire at an instant. -/
def expireAt (t : ℤ) : Update := [("$set", [("expires_at", .scalar (.datetime t (some 0)))])]

def expireAtChanges (t : ℤ) : SqlStore.Changes where
  values := [("expires_at", .value (.scalar (.datetime t (some 0))))]

theorem matched_heldNonce (t : ℤ) (h : (SqlStore.updateKey petEngine (.scalar (.str "n"))
    (expireAtChanges t) heldNonce).toOption.isSome = true) :
    SqlStore.Matched petEngine 0 [] (expireAtChanges t) heldNonce
      ((SqlStore.updateKey petEngine (.scalar (.str "n")) (expireAtChanges t)
        heldNonce).toOption.get h) heldRow [] [] := by
  have hkey : heldRow nonceTables.schema.storage.key = .scalar (.text "n") := by decide +kernel
  refine ⟨List.head_mem _, ?_, ?_, rfl, rfl⟩
  · rw [hkey]
    with_unfolding_all rfl
  · rw [hkey]
    exact eq_ok_of_toOption h

/-- A nonce of a device, as an upsert that creates it sets it. -/
def upsertedNonce (t : ℤ) : Record :=
  [("nonce", .scalar (.str "n")), ("expires_at", .scalar (.datetime t (some 0)))]

theorem upserted_nonce (t : ℤ) (h : (SqlStore.insertRecord petEngine.isoformat
    (SqlStore.empty : petEngine.Tables nonceTables) (petId 1)
      (upsertedNonce t)).toOption.isSome = true) :
    SqlStore.Upserted petEngine 0 petId [.field "nonce" (.scalar (.str "n"))] (expireAt t)
      SqlStore.empty ((SqlStore.insertRecord petEngine.isoformat
        (SqlStore.empty : petEngine.Tables nonceTables) (petId 1) (upsertedNonce t)).toOption.get h)
      (.scalar (.str "n")) (upsertedNonce t) [] where
  notFound := by with_unfolding_all rfl
  constructed := by with_unfolding_all rfl
  hasKey := rfl
  inserted := eq_ok_of_toOption h
  valid_after := rfl

theorem committed_until_twenty :
    (∃ s', SqlStore.updateOne petEngine (fun _ => 0) petId [] (expireAt 20) false .after heldNonce =
        ⟨.ok (.record (some [])), s'⟩) ∧
      ∃ s', SqlStore.updateOne petEngine (fun _ => 0) petId [.field "nonce" (.scalar (.str "n"))]
          (expireAt 20) true .after (SqlStore.empty : petEngine.Tables nonceTables) =
        ⟨.ok (.record (some [])), s'⟩ := by
  have hsome : getTablesOf nonceSchema = some nonceTables := (Option.some_get _).symm
  have hchanges : SqlStore.translateUpdate petEngine.isoformat nonceTables (expireAt 20) =
      .ok (expireAtChanges 20) := by with_unfolding_all rfl
  have hmatched := matched_heldNonce 20 (by decide +kernel)
  have hupserted := upserted_nonce 20 (by decide +kernel)
  constructor
  · have hiff := ((committed_iff hsome rfl [] (expireAt 20) .after petId).1 petEngine (fun _ => 0)
      heldNonce _ _ hchanges).1 false heldRow [] [] hmatched
    exact ⟨_, hiff.1.mpr ((hiff.2 _ hasPlainKey_nonceTables).mpr
      ⟨by decide +kernel, fun _ => by decide +kernel⟩)⟩
  · have hiff := ((committed_iff hsome rfl [.field "nonce" (.scalar (.str "n"))] (expireAt 20) .after
      petId).1 petEngine (fun _ => 0) SqlStore.empty _ _ hchanges).2 (.scalar (.str "n"))
      (upsertedNonce 20) [] hupserted
    exact ⟨_, hiff.1.mpr fun _ => (hiff.2 _ _ hasPlainKey_nonceTables rfl rfl).mpr
      (by decide +kernel)⟩

/-- A nonce that has not expired, set to expire now: the update raises, and is rolled back. -/
theorem spent_nonce_rolled_back :
    isUnexpired 0 (heldRow "expires_at") = true ∧
      (∃ s' : petEngine.Tables nonceTables, SqlStore.Matched petEngine 0 [] (expireAtChanges 0)
        heldNonce s' heldRow [] []) ∧
      SqlStore.updateOne petEngine (fun _ => 0) petId [] (expireAt 0) false .after heldNonce =
        ⟨.error .index, heldNonce⟩ := by
  have hmatched := matched_heldNonce 0 (by decide +kernel)
  have hchanges : SqlStore.translateUpdate petEngine.isoformat nonceTables (expireAt 0) =
      .ok (expireAtChanges 0) := by with_unfolding_all rfl
  obtain ⟨childFields, hof⟩ := getTablesOf_spec
    (Option.some_get (by decide +kernel : (getTablesOf nonceSchema).isSome = true)).symm
  have hexpired : isUnexpired 0 (SqlStore.rowAfter petEngine nonceTables (expireAtChanges 0) heldRow
      "expires_at") = false := by decide +kernel
  exact ⟨by decide +kernel, ⟨_, hmatched⟩, SqlStore.updateOne_expired (fun _ => 0) hof
    hasPlainKey_nonceTables rfl hchanges hmatched hexpired⟩

end Mss
