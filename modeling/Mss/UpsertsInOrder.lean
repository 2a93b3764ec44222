import Mss.InsertedRecords
import Mss.Storage.Upserts

/-!
# Concurrent upserts of one key act in some order

Any number of calls upsert the record of one key at once, statement by statement. What they leave is
what they would leave one after another, in the order in which they committed: one record of the key,
with the changes of every call that returned. What a call returns is what it would return then, with
one difference: a call that lost its insert to another returns None where it was asked for the record
before.

* `Upsert.Does`: what a call does to the tables that it finds.
* `Upsert.rules`: what a call knows at each statement.
* **`upserts_inOrder`**: every interleaving.
-/

namespace Mss

open Storage

namespace SqlStore

section

variable {engine : SqlEngine} {tables : SchemaTables} {childFields : List String}
  {type : ColumnType} {s s' t : engine.Tables tables} {p : PyScalar} {call : Upsert}

/-! ## The statements of a write -/

theorem runStatements_nil (s : engine.Tables tables) : runStatements engine [] s = .ok s := rfl

theorem runStatements_cons (statement : Statement engine tables)
    (rest : List (Statement engine tables)) (s : engine.Tables tables) :
    runStatements engine (statement :: rest) s = statement s >>= runStatements engine rest :=
  List.foldlM_cons

theorem runStatements_update {key : PyValue} {changes : Changes}
    {statements : List (Statement engine tables)}
    (h : updateStatements engine key changes = .ok statements) (s : engine.Tables tables) :
    runStatements engine statements s = updateKey engine key changes s := by
  unfold updateStatements at h
  unfold updateKey writeChanges writeLists
  dsimp only at h ⊢
  split_ifs at h with hchanges
  obtain rfl := Except.ok.inj h
  rw [if_neg hchanges, runStatements_cons]
  refine bind_congr fun s₀ => ?_
  unfold runStatements
  simp only [List.foldlM_append, List.foldlM_map, bind_assoc]

theorem runStatements_insert (newId : String) (record : Record) {row : Row}
    (hrow : row = recordRow engine.isoformat engine.database.dialect tables
      (withId tables.schema newId record) (nextRowId s.rows)) (h : insertRow s row = .ok s') :
    runStatements engine (insertStatements engine tables (withId tables.schema newId record)) s' =
      insertRecord engine.isoformat s newId record := by
  subst hrow
  unfold insertRecord insertStatements runStatements
  dsimp only
  rw [h, List.foldlM_map]
  rfl

/-! ## The key -/

/-- **The key that is found** is that of the one row of the key, if it has not expired. -/
theorem findFirstKey_keyFilter (hof : tables.Of tables.schema childFields)
    (hkey : HasPlainKey tables type) (hp : p.kind = type) (instant : ℤ) :
    findFirstKey engine instant (filterOfKey tables.schema (.scalar p)) s =
      .ok ((s.rows.find? (isLiveOfKey tables (engine.database.dialect.bind p) instant)).map fun _ =>
        .scalar (engine.database.dialect.bind p).toPython) := by
  obtain ⟨clause, hclause, hmatched⟩ := exists_keyClause hof hkey hp instant s
  unfold findFirstKey selectRows
  rw [hclause]
  show Except.ok ((page 0 (some 1) ((engine.plan [rowIdTerm]).run
    (matchedRows engine.database s.stored.toStoredRows clause))).head?.map fun row =>
      readKey (row tables.schema.storage.key)) = _
  rw [hmatched]
  cases hfind : s.rows.find? (isLiveOfKey tables (engine.database.dialect.bind p) instant) with
  | none =>
    rw [Option.toList_none, List.perm_nil.mp ((engine.plan [rowIdTerm]).perm [])]
    rfl
  | some row =>
    have hk : row tables.schema.storage.key = .scalar (engine.database.dialect.bind p) := by
      have hlive := List.find?_some hfind
      rw [isLiveOfKey, Bool.and_eq_true, isOfKey, decide_eq_true_eq] at hlive
      exact hlive.1
    rw [Option.toList_some, List.perm_singleton.mp ((engine.plan [rowIdTerm]).perm [row])]
    show Except.ok (some (readKey (row tables.schema.storage.key))) = _
    rw [hk]
    rfl

/-! ## What a call does -/

namespace Upsert

/-- The record of the key was found: by the first statement, with the record before, or by a later
one. -/
def Found (engine : SqlEngine) (filter : Filter) (call : Upsert) (key : PyValue)
    (before : Option Record) (s : engine.Tables tables) : Prop :=
  match before with
  | none => findFirstKey engine (call.now 1) filter s = .ok (some key)
  | some record => findFirstKey engine (call.now 0) filter s = .ok (some key) ∧
      getRecord engine (call.now 1) key s = .ok record

/-- **What a call does to the tables that it finds**: what its transaction does alone; or, if its
insert was refused, the changes of the record that is found after that, where it returns no record
before. -/
inductive Does (engine : SqlEngine) (filter : Filter) (call : Upsert) :
    engine.Tables tables → Option Record → engine.Tables tables → Prop
  | alone {s s' : engine.Tables tables} {answer : Option Record}
      (body : updateOneBody engine call.now call.newId filter call.update true call.returning s =
        .ok (answer, s')) : Does engine filter call s answer s'
  | late {s s' : engine.Tables tables} {answer : Option Record} {key : PyValue} {changes : Changes}
      (translated : translateUpdate engine.isoformat tables call.update = .ok changes)
      (found : findFirstKey engine (call.now 1) filter s = .ok (some key))
      (written : updateKey engine key changes s = .ok s')
      (answers : answerUpserted engine call.now call.returning key s' = .ok (answer, s')) :
      Does engine filter call s answer s'

/-- **What a call has written** before it reads its answer. -/
inductive Wrote (engine : SqlEngine) (filter : Filter) (call : Upsert) (key : PyValue) :
    Option Record → engine.Tables tables → engine.Tables tables → Prop
  | insert {s t : engine.Tables tables} {record : Record} {changes : Changes}
      (translated : translateUpdate engine.isoformat tables call.update = .ok changes)
      (values : valuesToInsert engine filter call tables = .ok record)
      (key_eq : record.get tables.schema.storage.key = key)
      (inserted : insertRecord engine.isoformat s (call.newId 1) record = .ok t) :
      Wrote engine filter call key none s t
  | update {s t : engine.Tables tables} {before : Option Record} {changes : Changes}
      (translated : translateUpdate engine.isoformat tables call.update = .ok changes)
      (found : Found engine filter call key before s)
      (written : updateKey engine key changes s = .ok t) :
      Wrote engine filter call key before s t

/-- What a call knows while it has locked or written the record. -/
def Holds (engine : SqlEngine) (filter : Filter) (call : Upsert) :
    Phase engine tables → engine.Tables tables → engine.Tables tables → Prop
  | .inserting key rest, s, t => ∃ record changes,
      translateUpdate engine.isoformat tables call.update = .ok changes ∧
      valuesToInsert engine filter call tables = .ok record ∧
      record.get tables.schema.storage.key = key ∧
      runStatements engine rest t = insertRecord engine.isoformat s (call.newId 1) record
  | .reading key, s, t => t = s ∧ findFirstKey engine (call.now 0) filter s = .ok (some key)
  | .writing key before rest, s, t => ∃ changes,
      translateUpdate engine.isoformat tables call.update = .ok changes ∧
      Found engine filter call key before s ∧
      runStatements engine rest t = updateKey engine key changes s
  | .answering key before, s, t => Wrote engine filter call key before s t
  | .committing answer, s, t => Does engine filter call s answer t
  | .looking, _, _ | .missed, _, _ | .refused _, _, _ | .returned _, _, _ | .raised _, _, _ => False

/-- What a call knows while it has not. -/
def Free (engine : SqlEngine) (call : Upsert) : Phase engine tables → Prop
  | .looking | .refused _ | .returned _ | .raised _ => True
  | .missed => ∃ changes, translateUpdate engine.isoformat tables call.update = .ok changes
  | .inserting _ _ | .reading _ | .writing _ _ _ | .answering _ _ | .committing _ => False

/-- What a call has returned. -/
def Phase.answered {engine : SqlEngine} : Phase engine tables → Option (Option Record)
  | .returned answer => some answer
  | _ => none

variable {filter : Filter} {key : PyValue} {before : Option Record}

theorem beginWrites_ok {phase : Phase engine tables}
    (h : beginWrites engine call key before = .ok phase) :
    ∃ changes statements, translateUpdate engine.isoformat tables call.update = .ok changes ∧
      updateStatements engine key changes = .ok statements ∧
      phase = .writing key before statements := by
  obtain ⟨changes, hchanges, h⟩ := bind_ok h
  obtain ⟨statements, hstatements, h⟩ := bind_ok h
  exact ⟨changes, statements, mapError_ok hchanges, hstatements, (Except.ok.inj h).symm⟩

theorem answered_of_beginWrites {phase : Phase engine tables}
    (h : beginWrites engine call key before = .ok phase) : phase.answered = none := by
  obtain ⟨_, _, -, -, rfl⟩ := beginWrites_ok h
  rfl

theorem holds_of_beginWrites {phase : Phase engine tables}
    (h : beginWrites engine call key before = .ok phase)
    (hfound : Found engine filter call key before s) : Holds engine filter call phase s s := by
  obtain ⟨changes, statements, hchanges, hstatements, rfl⟩ := beginWrites_ok h
  exact ⟨changes, hchanges, hfound, runStatements_update hstatements s⟩

theorem newRow_key (hof : tables.Of tables.schema childFields) (hkey : HasPlainKey tables type)
    (hp : p.kind = type) {record : Record}
    (hrecord : record.get tables.schema.storage.key = .scalar p) (newId : String) (number : ℤ) :
    newRow engine tables newId record number tables.schema.storage.key =
      .scalar (engine.database.dialect.bind p) := by
  rw [newRow, recordRow_key hof hkey.lookup hkey.scalar hkey.named, get_withId hrecord,
    boundKey_scalar hkey _ hp]

theorem find?_eq_none_of_inserted (hof : tables.Of tables.schema childFields)
    (hkey : HasPlainKey tables type) (hp : p.kind = type) {record : Record}
    (hrecord : record.get tables.schema.storage.key = .scalar p) {newId : String}
    (h : insertRecord engine.isoformat s newId record = .ok t) (instant : ℤ) :
    s.rows.find? (isLiveOfKey tables (engine.database.dialect.bind p) instant) = none := by
  refine List.find?_eq_none.mpr fun row hrow hyes => ?_
  rw [isLiveOfKey, Bool.and_eq_true, isOfKey, decide_eq_true_eq] at hyes
  exact ne_of_inserted hof hkey h hrow (hyes.1.trans (newRow_key hof hkey hp hrecord _ _).symm)

/-- **What was written is what the call does**, once the answer is read. -/
theorem does_of_wrote (hof : tables.Of tables.schema childFields) (hkey : HasPlainKey tables type)
    (hp : p.kind = type) (hkeeps : ∀ record,
      valuesToInsert engine (filterOfKey tables.schema (.scalar p)) call tables = .ok record →
        record.get tables.schema.storage.key = .scalar p)
    (h : Wrote engine (filterOfKey tables.schema (.scalar p)) call key before s t) :
    (call.returning = .before →
      Does engine (filterOfKey tables.schema (.scalar p)) call s before t) ∧
    ∀ record, call.returning = .after → getRecord engine (call.now 2) key t = .ok record →
      Does engine (filterOfKey tables.schema (.scalar p)) call s (some record) t := by
  cases h with
  -- nobody had the key, and the record was inserted
  | insert htranslated hvalues hkeyOf hinserted =>
    rename_i record changes
    have hnone : findFirstKey engine (call.now 0) (filterOfKey tables.schema (.scalar p)) s =
        .ok none := by
      rw [findFirstKey_keyFilter hof hkey hp,
        find?_eq_none_of_inserted hof hkey hp (hkeeps record hvalues) hinserted]
      rfl
    have hupserted : insertUpsertedRecord engine call.newId (call.now 1)
        (filterOfKey tables.schema (.scalar p)) call.update s = .ok (key, t) := by
      simp only [insertUpsertedRecord, mapError_ok hvalues, Except.mapError, bind, Except.bind,
        hinserted, hkeyOf]
      rfl
    have hbody : updateOneBody engine call.now call.newId (filterOfKey tables.schema (.scalar p))
        call.update true call.returning s =
          answerUpserted engine call.now call.returning key t := by
      unfold updateOneBody
      rw [htranslated, hnone]
      show (insertUpsertedRecord engine call.newId (call.now 1) _ call.update s >>= fun upserted =>
        answerUpserted engine call.now call.returning upserted.1 upserted.2) = _
      rw [hupserted]
      rfl
    constructor
    · intro hreturning
      refine .alone ?_
      rw [hbody, hreturning]
      rfl
    · intro answer hreturning hanswer
      refine .alone ?_
      rw [hbody, hreturning, answerUpserted]
      rw [hanswer]
      rfl
  | update htranslated hfound hwritten =>
    -- a record was found, by this call or after another's insert was seen
    cases before with
    | none =>
      constructor
      · intro hreturning
        refine .late htranslated hfound hwritten ?_
        rw [hreturning]
        rfl
      · intro answer hreturning hanswer
        refine .late htranslated hfound hwritten ?_
        rw [hreturning, answerUpserted]
        rw [hanswer]
        rfl
    | some record =>
      have hbody : updateOneBody engine call.now call.newId (filterOfKey tables.schema (.scalar p))
          call.update true call.returning s =
            answerUpdated engine call.now call.returning key record t := by
        unfold updateOneBody
        rw [htranslated, hfound.1]
        show (getRecord engine (call.now 1) key s >>= fun before =>
          updateKey engine key _ s >>= fun s' =>
            answerUpdated engine call.now call.returning key before s') = _
        rw [hfound.2]
        show (updateKey engine key _ s >>= fun s' =>
          answerUpdated engine call.now call.returning key record s') = _
        rw [hwritten]
        rfl
      constructor
      · intro hreturning
        refine .alone ?_
        rw [hbody, hreturning]
        rfl
      · intro answer hreturning hanswer
        refine .alone ?_
        rw [hbody, hreturning, answerUpdated]
        rw [hanswer]
        rfl

/-! ## The statements of a call -/

/-- **What a statement may come to** while its call does not hold the record. -/
def FreeNext (engine : SqlEngine) (filter : Filter) (call : Upsert) (phase : Phase engine tables)
    (s : engine.Tables tables) (effect : Effect engine tables) : Prop :=
  effect.Obeys Phase.answered phase (Free engine call) (fun phase t => Holds engine filter call phase s t)
    (Free engine call) fun answer => Does engine filter call s answer s

/-- What one may come to while its call holds it. -/
def HoldsNext (engine : SqlEngine) (filter : Filter) (call : Upsert) (phase : Phase engine tables)
    (s t : engine.Tables tables) (effect : Effect engine tables) : Prop :=
  effect.Obeys Phase.answered phase (fun phase => Holds engine filter call phase s t)
    (fun phase t => Holds engine filter call phase s t) (Free engine call) fun answer =>
      Does engine filter call s answer t

theorem next_looking (s : engine.Tables tables) :
    FreeNext engine filter call .looking s (next engine filter call .looking s) := by
  unfold next
  dsimp only
  cases htranslated : translateUpdate engine.isoformat tables call.update with
  | error e => exact ⟨trivial, rfl⟩
  | ok changes =>
    cases hfound : findFirstKey engine (call.now 0) filter s with
    | error e => exact ⟨trivial, rfl⟩
    | ok found =>
      cases found with
      | none => exact ⟨⟨changes, htranslated⟩, rfl⟩
      | some key => exact ⟨⟨rfl, hfound⟩, rfl, rfl⟩

theorem next_missed (hfree : Free engine call (.missed : Phase engine tables))
    (s : engine.Tables tables) :
    FreeNext engine filter call .missed s (next engine filter call .missed s) := by
  obtain ⟨changes, htranslated⟩ := hfree
  unfold next
  dsimp only
  cases hvalues : valuesToInsert engine filter call tables with
  | error e => exact ⟨trivial, rfl⟩
  | ok record =>
    dsimp only
    cases hrow : insertRow s (recordRow engine.isoformat engine.database.dialect tables
      (withId tables.schema (call.newId 1) record) (nextRowId s.rows)) with
    | ok s' =>
      refine ⟨⟨record, changes, htranslated, hvalues, rfl, ?_⟩, rfl, rfl⟩
      exact runStatements_insert (call.newId 1) record rfl hrow
    | error e =>
      cases e <;> exact ⟨trivial, rfl⟩

theorem next_refused (violation : Violation) (s : engine.Tables tables) :
    FreeNext engine filter call (.refused violation) s
      (next engine filter call (.refused violation) s) := by
  unfold next
  dsimp only
  cases hfound : findFirstKey engine (call.now 1) filter s with
  | error e => exact ⟨trivial, rfl⟩
  | ok found =>
    cases found with
    | none => exact ⟨trivial, rfl⟩
    | some key =>
      dsimp only
      cases hbegin : beginWrites engine call key none with
      | error e => exact ⟨trivial, rfl⟩
      | ok phase =>
        exact ⟨holds_of_beginWrites hbegin hfound, answered_of_beginWrites hbegin, rfl⟩

theorem next_inserting {rest : List (Statement engine tables)}
    (h : Holds engine filter call (.inserting key rest) s t) :
    HoldsNext engine filter call (.inserting key rest) s t
      (next engine filter call (.inserting key rest) t) := by
  obtain ⟨record, changes, htranslated, hvalues, hkeyOf, hrest⟩ := h
  cases rest with
  | nil =>
    rw [runStatements_nil] at hrest
    exact ⟨.insert htranslated hvalues hkeyOf hrest.symm, rfl⟩
  | cons statement rest =>
    rw [runStatements_cons] at hrest
    unfold next
    dsimp only
    cases hstatement : statement t with
    | ok t' =>
      rw [hstatement] at hrest
      exact ⟨⟨record, changes, htranslated, hvalues, hkeyOf, hrest⟩, rfl, rfl⟩
    | error e =>
      cases e <;> exact ⟨trivial, rfl⟩

theorem next_reading (h : Holds engine filter call (.reading key) s t) :
    HoldsNext engine filter call (.reading key) s t (next engine filter call (.reading key) t) := by
  obtain ⟨rfl, hfound⟩ := h
  unfold next
  dsimp only
  cases hread : getRecord engine (call.now 1) key t with
  | error e => exact ⟨trivial, rfl⟩
  | ok before =>
    dsimp only
    cases hbegin : beginWrites engine call key (some before) with
    | error e => exact ⟨trivial, rfl⟩
    | ok phase =>
      exact ⟨holds_of_beginWrites hbegin ⟨hfound, hread⟩, answered_of_beginWrites hbegin⟩

theorem next_writing {rest : List (Statement engine tables)}
    (h : Holds engine filter call (.writing key before rest) s t) :
    HoldsNext engine filter call (.writing key before rest) s t
      (next engine filter call (.writing key before rest) t) := by
  obtain ⟨changes, htranslated, hfound, hrest⟩ := h
  cases rest with
  | nil =>
    rw [runStatements_nil] at hrest
    exact ⟨.update htranslated hfound hrest.symm, rfl⟩
  | cons statement rest =>
    rw [runStatements_cons] at hrest
    unfold next
    dsimp only
    cases hstatement : statement t with
    | error e => exact ⟨trivial, rfl⟩
    | ok t' =>
      rw [hstatement] at hrest
      exact ⟨⟨changes, htranslated, hfound, hrest⟩, rfl, rfl⟩

theorem next_answering (hof : tables.Of tables.schema childFields) (hkey : HasPlainKey tables type)
    (hp : p.kind = type) (hkeeps : ∀ record,
      valuesToInsert engine (filterOfKey tables.schema (.scalar p)) call tables = .ok record →
        record.get tables.schema.storage.key = .scalar p)
    (h : Holds engine (filterOfKey tables.schema (.scalar p)) call (.answering key before) s t) :
    HoldsNext engine (filterOfKey tables.schema (.scalar p)) call (.answering key before) s t
      (next engine (filterOfKey tables.schema (.scalar p)) call (.answering key before) t) := by
  have hdoes := does_of_wrote hof hkey hp hkeeps h
  unfold next
  dsimp only
  cases hreturning : call.returning with
  | before => exact ⟨hdoes.1 hreturning, rfl⟩
  | after =>
    dsimp only
    cases hread : getRecord engine (call.now 2) key t with
    | ok record => exact ⟨hdoes.2 record hreturning hread, rfl⟩
    | error e => exact ⟨trivial, rfl⟩

/-- **What every call knows at its statements.** -/
def rules (hof : tables.Of tables.schema childFields) (hkey : HasPlainKey tables type)
    (hp : p.kind = type) {ι : Type} (calls : ι → Upsert) (hkeeps : ∀ i record,
      valuesToInsert engine (filterOfKey tables.schema (.scalar p)) (calls i) tables = .ok record →
        record.get tables.schema.storage.key = .scalar p) :
    Rules (fun i => next engine (filterOfKey tables.schema (.scalar p)) (calls i))
      (fun i => (Does engine (filterOfKey tables.schema (.scalar p)) (calls i) :
        engine.Tables tables → Option Record → engine.Tables tables → Prop)) where
  Free i := Free engine (calls i)
  Holds i := Holds engine (filterOfKey tables.schema (.scalar p)) (calls i)
  answered := Phase.answered
  free := by
    intro i phase s hfree
    cases phase with
    | looking => exact next_looking s
    | missed => exact next_missed hfree s
    | refused violation => exact next_refused violation s
    | returned answer => exact ⟨trivial, rfl⟩
    | raised e => exact ⟨trivial, rfl⟩
    | inserting | reading | writing | answering | committing => exact hfree.elim
  holds := by
    intro i phase s t hholds
    cases phase with
    | inserting key rest => exact next_inserting hholds
    | reading key => exact next_reading hholds
    | writing key before rest => exact next_writing hholds
    | answering key before => exact next_answering hof hkey hp (hkeeps i) hholds
    | committing answer => exact ⟨⟨trivial, hholds⟩, rfl, rfl⟩
    | looking | missed | refused | returned | raised => exact hholds.elim

/-! ## The record of the key, and the others -/

/-- The records of the other keys are the same. -/
structure OthersKept (k : Scalar) (s s' : engine.Tables tables) : Prop where
  rows : s'.rows.filter (fun row => !isOfKey tables k row) =
    s.rows.filter fun row => !isOfKey tables k row
  records : ∀ row ∈ s.rows, isOfKey tables k row = false →
    s'.stored.recordOf row = s.stored.recordOf row

theorem OthersKept.trans {k : Scalar} {s s' s'' : engine.Tables tables} (h : OthersKept k s s')
    (h' : OthersKept k s' s'') : OthersKept k s s'' := by
  refine ⟨h'.rows.trans h.rows, fun row hrow hother => ?_⟩
  have hmem : row ∈ s'.rows.filter fun row => !isOfKey tables k row := by
    rw [h.rows]
    refine List.mem_filter.mpr ⟨hrow, ?_⟩
    rw [hother]
    rfl
  exact (h'.records row (List.mem_of_mem_filter hmem) hother).trans (h.records row hrow hother)

/-- **One record of a key is written**: it is the only one of its key, and the others are the same. -/
structure OneWritten (k : Scalar) (s s' : engine.Tables tables) : Prop
    extends OthersKept k s s' where
  one : ∃ row, s'.rows.filter (isOfKey tables k) = [row]

theorem recordOf_kept_of_key (hkey : HasPlainKey tables type) {k : Scalar} {row : Row}
    (hrow : row ∈ s.rows) (hother : isOfKey tables k row = false)
    (h : ∀ k', k' ≠ k → ChildrenKept k' s s') : s'.stored.recordOf row = s.stored.recordOf row := by
  obtain ⟨k', hk', -⟩ := key_of_row hkey hrow
  refine recordOf_kept hk' (h k' fun heq => ?_)
  rw [isOfKey, hk', heq, decide_eq_true rfl] at hother
  cases hother

theorem tables_of_answerUpserted {now : ℕ → ℤ} {returning : Returning} {answer : Option Record}
    (h : answerUpserted engine now returning key s = .ok (answer, s')) : s' = s := by
  cases returning with
  | before =>
    cases h
    rfl
  | after =>
    obtain ⟨record, -, h⟩ := bind_ok h
    cases h
    rfl

theorem tables_of_answerUpdated {now : ℕ → ℤ} {returning : Returning} {record : Record}
    {answer : Option Record} (h : answerUpdated engine now returning key record s = .ok (answer, s')) :
    s' = s := by
  cases returning with
  | before =>
    cases h
    rfl
  | after =>
    obtain ⟨record, -, h⟩ := bind_ok h
    cases h
    rfl

theorem oneWritten_of_insert (hof : tables.Of tables.schema childFields)
    (hkey : HasPlainKey tables type) (hp : p.kind = type) {record : Record}
    (hrecord : record.get tables.schema.storage.key = .scalar p) {newId : String}
    (h : insertRecord engine.isoformat s newId record = .ok s') :
    OneWritten (engine.database.dialect.bind p) s s' := by
  obtain ⟨hrows, -, -⟩ := insertRecord_rows hof h
  have hnewKey : newRow engine tables newId record (nextRowId s.rows) tables.schema.storage.key =
      .scalar (engine.database.dialect.bind p) := newRow_key hof hkey hp hrecord _ _
  have hnew : isOfKey tables (engine.database.dialect.bind p)
      (newRow engine tables newId record (nextRowId s.rows)) = true := decide_eq_true hnewKey
  refine ⟨⟨?_, fun row hrow hother => recordOf_kept_of_key hkey hrow hother fun k' hne => ?_⟩,
    newRow engine tables newId record (nextRowId s.rows), ?_⟩
  · rw [hrows, List.filter_append, List.filter_cons_of_neg (by simp [hnew]), List.filter_nil,
      List.append_nil]
  · refine kept_insertRecord hof h fun heq => hne ?_
    rw [get_withId hrecord, boundKey_scalar hkey _ hp] at heq
    exact (Value.scalar.inj heq).symm
  · refine filter_isOfKey ?_ hnewKey
    rw [hrows]
    exact List.mem_append_right _ List.mem_cons_self

theorem oneWritten_of_update (hof : tables.Of tables.schema childFields)
    (hkey : HasPlainKey tables type) (hp : p.kind = type) {changes : Changes}
    (htranslated : translateUpdate engine.isoformat tables call.update = .ok changes) {instant : ℤ}
    (hfound : findFirstKey engine instant (filterOfKey tables.schema (.scalar p)) s = .ok (some key))
    (h : updateKey engine key changes s = .ok s') :
    OneWritten (engine.database.dialect.bind p) s s' := by
  rw [findFirstKey_keyFilter hof hkey hp] at hfound
  obtain ⟨row, hfind, rfl⟩ := Option.map_eq_some_iff.mp (Except.ok.inj hfound)
  have hlive := List.find?_some hfind
  rw [isLiveOfKey, Bool.and_eq_true, isOfKey, decide_eq_true_eq] at hlive
  set k := engine.database.dialect.bind p
  have hkind : k.toPython.kind = type :=
    (kind_toPython k).trans ((kind_bind engine.database.dialect p).trans hp)
  have hrows := rows_updateScalar hkey hkind h
  rw [bind_toPython, rowAfter_eq htranslated] at hrows
  -- a row stays of its key
  have hsame : isOfKey tables k ∘ (fun row => if row tables.schema.storage.key = .scalar k then
      updatedRow engine tables call.update row else row) = isOfKey tables k := by
    funext row
    rw [Function.comp_apply]
    split_ifs
    · rw [isOfKey, isOfKey, updatedRow, if_pos rfl]
    · rfl
  refine ⟨⟨?_, fun row hrow hother => recordOf_kept_of_key hkey hrow hother fun k' hne => ?_⟩,
    updatedRow engine tables call.update row, ?_⟩
  · rw [hrows, List.filter_map]
    have hothers : (fun row => !isOfKey tables k row) ∘ (fun row =>
        if row tables.schema.storage.key = .scalar k then updatedRow engine tables call.update row
        else row) = fun row => !isOfKey tables k row := by
      funext row
      exact congrArg (fun b => !b) (congrFun hsame row)
    rw [hothers]
    refine (List.map_congr_left fun row hrow => ?_).trans (List.map_id _)
    have hno := List.of_mem_filter hrow
    rw [Bool.not_eq_true', isOfKey, decide_eq_false_iff_not] at hno
    exact if_neg hno
  · refine kept_writeChanges hof (fun heq => hne ?_) h
    rw [boundKey_scalar hkey _ hkind, bind_toPython] at heq
    exact (Value.scalar.inj heq).symm
  · rw [hrows, List.filter_map, hsame, filter_isOfKey (List.mem_of_find?_eq_some hfind) hlive.1,
      List.map_singleton, if_pos hlive.1]

/-- **What a call does writes the one record of the key.** -/
theorem oneWritten_of_does (hof : tables.Of tables.schema childFields)
    (hkey : HasPlainKey tables type) (hp : p.kind = type) (hkeeps : ∀ record,
      valuesToInsert engine (filterOfKey tables.schema (.scalar p)) call tables = .ok record →
        record.get tables.schema.storage.key = .scalar p) {answer : Option Record}
    (h : Does engine (filterOfKey tables.schema (.scalar p)) call s answer s') :
    OneWritten (engine.database.dialect.bind p) s s' := by
  cases h with
  | late htranslated hfound hwritten =>
    exact oneWritten_of_update hof hkey hp htranslated hfound hwritten
  | alone hbody =>
    obtain ⟨changes, htranslated, hbody⟩ := bind_ok hbody
    have htranslated := mapError_ok htranslated
    obtain ⟨found, hfound, hbody⟩ := bind_ok hbody
    cases found with
    | some key =>
      obtain ⟨before, -, hbody⟩ := bind_ok hbody
      obtain ⟨s₁, hwritten, hanswer⟩ := bind_ok hbody
      obtain rfl := tables_of_answerUpdated hanswer
      exact oneWritten_of_update hof hkey hp htranslated hfound hwritten
    | none =>
      obtain ⟨⟨key, s₁⟩, hupserted, hanswer⟩ := bind_ok hbody
      obtain rfl := tables_of_answerUpserted hanswer
      obtain ⟨record, hvalues, hupserted⟩ := bind_ok hupserted
      cases hinserted : insertRecord engine.isoformat s (call.newId 1) record with
      | ok s₂ =>
        rw [hinserted] at hupserted
        cases hupserted
        exact oneWritten_of_insert hof hkey hp (hkeeps record hvalues) hinserted
      | error e =>
        rw [hinserted] at hupserted
        cases e with
        | integrity violation =>
          obtain ⟨found, hfound, hupserted⟩ := bind_ok hupserted
          cases found with
          | none => cases hupserted
          | some key' =>
            obtain ⟨changes', htranslated', hupserted⟩ := bind_ok hupserted
            obtain ⟨s₂, hwritten, hupserted⟩ := bind_ok hupserted
            cases hupserted
            exact oneWritten_of_update hof hkey hp (mapError_ok htranslated') hfound hwritten
        | _ => cases hupserted

theorem answered_eq_some {phase : Phase engine tables} {answer : Option Record} :
    phase.answered = some answer ↔ phase = .returned answer := by
  cases phase <;> simp [Phase.answered]

end Upsert

end

end SqlStore

open SqlStore in
/-- **Concurrent upserts of one key act in some order.** In every interleaving of any number of calls,
what is committed is what the calls that returned do one after another, in the order in which they
committed: each of them once, with the answer that it returned. The key has one record as soon as one
of them returned, and the other records are as they were at the start. A call that has to wait waits
for one that can go on. -/
theorem upserts_inOrder {schema : Schema} {tables : SchemaTables}
    (htables : getTablesOf schema = some tables) {type : ColumnType} (hkey : HasPlainKey tables type)
    {engine : SqlEngine} {p : PyScalar} (hp : p.kind = type) {ι : Type} [DecidableEq ι]
    (calls : ι → Upsert) (hkeeps : ∀ i record,
      Upsert.valuesToInsert engine (filterOfKey tables.schema (.scalar p)) (calls i) tables = .ok record →
        record.get tables.schema.storage.key = .scalar p)
    {s₀ : engine.Tables tables}
    {w : Sharing ι (engine.Tables tables) (Upsert.Phase engine tables) (Option Record)}
    (h : Sharing.Reach
      (fun i => Upsert.next engine (filterOfKey tables.schema (.scalar p)) (calls i))
      { committed := s₀, phase := fun _ => .looking } w) :
    Serial (fun i => Upsert.Does engine (filterOfKey tables.schema (.scalar p)) (calls i)) s₀ w.log
        w.committed ∧
      (w.log.map Prod.fst).Nodup ∧
      (∀ i answer, (i, answer) ∈ w.log ↔ w.phase i = .returned answer) ∧
      (w.log ≠ [] → ∃ row,
        w.committed.rows.filter (isOfKey tables (engine.database.dialect.bind p)) = [row]) ∧
      Upsert.OthersKept (engine.database.dialect.bind p) s₀ w.committed ∧
      ∀ i, ∃ j w', Sharing.step
          (fun i => Upsert.next engine (filterOfKey tables.schema (.scalar p)) (calls i)) w j = some w' ∧
        (j = i ∨ ∃ t, w.holder = some (j, t)) := by
  obtain ⟨childFields, hof⟩ := getTablesOf_spec htables
  obtain rfl := hof.schema_eq
  have hlooking (i : ι) : (Upsert.rules hof hkey hp calls hkeeps).Free i .looking := trivial
  have hinv := (Upsert.rules hof hkey hp calls hkeeps).inv_of_reach hlooking (fun _ => rfl) h
  have hdoes (i : ι) (s : engine.Tables tables) (answer : Option Record) (s' : engine.Tables tables)
      (hdoes : Upsert.Does engine (filterOfKey tables.schema (.scalar p)) (calls i) s answer s') :
      Upsert.OneWritten (engine.database.dialect.bind p) s s' :=
    Upsert.oneWritten_of_does hof hkey hp (hkeeps i) hdoes
  refine ⟨hinv.serial, hinv.nodup, fun i answer => ?_, fun hlog => ?_, ?_, fun i => ?_⟩
  · exact (hinv.answers i answer).trans Upsert.answered_eq_some
  · exact hinv.serial.of_any hlog fun i s answer s' hd => (hdoes i s answer s' hd).one
  · exact hinv.serial.invariant ⟨rfl, fun _ _ _ => rfl⟩ fun i s answer s' hd hs =>
      hs.trans (hdoes i s answer s' hd).toOthersKept
  · obtain ⟨j, hheld, hj⟩ := Sharing.exists_isHeld_eq_false w i
    obtain ⟨w', hstep⟩ := Sharing.exists_step (fun i =>
      Upsert.next engine (filterOfKey tables.schema (.scalar p)) (calls i)) hheld
    exact ⟨j, w', hstep, hj⟩

/-- A server of devices. -/
def chipServer : SqlEngine := { deviceEngine with database := { sqlite with dialect := .postgresql } }

/-- Two upserts of one device, each with its qubits. -/
def chipUpserts (i : Fin 2) : SqlStore.Upsert where
  update := [("$set", [("qubits", .scalar (.int (5 + i)))])]
  returning := .after
  now := fun _ => 0
  newId := fun _ => ""

/-- The first inserts the device while the second looks for it, so that the insert of the second is
refused. -/
def chipSchedule : List (Fin 2) := [0, 1, 0, 0, 0, 0, 1, 1, 1, 1, 1, 1]

/-- The run of the schedule. -/
def upsertedChips : Option (Sharing (Fin 2) (chipServer.Tables chipTables)
    (SqlStore.Upsert.Phase chipServer chipTables) (Option Record)) :=
  Sharing.run (fun i => SqlStore.Upsert.next chipServer
      (filterOfKey chipTables.schema (.scalar (.str "cid"))) (chipUpserts i)) chipSchedule
    { committed := SqlStore.empty, phase := fun _ => .looking }

theorem chips_inserted (i : Fin 2) (record : Record)
    (h : SqlStore.Upsert.valuesToInsert chipServer
      (filterOfKey chipTables.schema (.scalar (.str "cid"))) (chipUpserts i) chipTables =
        .ok record) :
    record.get chipTables.schema.storage.key = .scalar (.str "cid") := by
  obtain rfl := Except.ok.inj h
  rw [chipTables_schema]
  rfl

/-- Both upserts return, in that order, and leave one device. -/
theorem upserts_inOrder_chips : ∃ w, upsertedChips = some w ∧ w.log.map Prod.fst = [0, 1] ∧
    Serial (fun i => SqlStore.Upsert.Does chipServer
        (filterOfKey chipTables.schema (.scalar (.str "cid"))) (chipUpserts i))
      SqlStore.empty w.log w.committed ∧
    ∃ row, w.committed.rows.filter (SqlStore.isOfKey chipTables (.text "cid")) = [row] := by
  have htables : getTablesOf chipSchema = some chipTables := (Option.some_get _).symm
  obtain ⟨w, hw⟩ : ∃ w, upsertedChips = some w := Option.isSome_iff_exists.mp (by decide +kernel)
  have hlog : w.log.map Prod.fst = [0, 1] := by
    have hrun : upsertedChips.map (fun w => w.log.map Prod.fst) = some [0, 1] := by decide +kernel
    rw [hw] at hrun
    exact Option.some.inj hrun
  obtain ⟨hserial, -, -, hone, -⟩ := upserts_inOrder htables chips_plain (p := .str "cid") rfl
    chipUpserts chips_inserted (Sharing.reach_run _ chipSchedule hw)
  refine ⟨w, hw, hlog, hserial, hone fun hnil => ?_⟩
  rw [hnil] at hlog
  cases hlog

end Mss
