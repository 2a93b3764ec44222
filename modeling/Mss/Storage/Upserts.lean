import Mss.Lib.Slots
import Mss.Storage.Writes

/-!
# Upserts, statement by statement

Several calls upsert the record of one key at once, each in a transaction of its own. In PostgreSQL,
at READ COMMITTED, a statement sees what is committed and what its own transaction wrote. The key is
found for update, so its row is locked until the transaction ends; an insert waits for another's of
the same key that is not committed. So at any time one call at most has locked or written the record.

* `Upsert`: what a call is given; `Upsert.Phase`: where it is in its transaction.
* `updateStatements`, `insertStatements`: the statements of an update of a key and of an insert.
* **`Upsert.next`**: the next statement of a call.
-/

namespace Mss

open Storage

namespace SqlStore

section

variable (engine : SqlEngine) {tables : SchemaTables}

/-- A statement, on the tables that it sees. -/
abbrev Statement (engine : SqlEngine) (tables : SchemaTables) : Type :=
  engine.Tables tables → Except WriteError (engine.Tables tables)

/-- Run statements one after another. -/
def runStatements (statements : List (Statement engine tables)) (s : engine.Tables tables) :
    Except WriteError (engine.Tables tables) :=
  statements.foldlM (fun s statement => statement s) s

/-- **The statements of an update of a key**: the columns, then each list replaced, each element added
and each removed. -/
def updateStatements (key : PyValue) (changes : Changes) :
    Except WriteError (List (Statement engine tables)) :=
  let keyName := tables.schema.storage.key
  let bound := boundKey engine.database.dialect tables key
  if changesKey key (changes.values.lookup keyName) then
    .error (.raised (.queryError
      ("an update cannot change " ++ tables.schema.name ++ "." ++ keyName)))
  else .ok (
    writeValues bound (changes.values.filter fun change => change.1 != keyName) ::
      (changes.listReplacements.map (fun replacement s =>
          replaceList engine.isoformat bound s replacement) ++
        changes.listAdditions.map (fun addition s => addElement bound s addition) ++
        changes.listRemovals.map fun removal s => removeElement bound s removal))

/-- The statements of an insert after that of the row: the lists, one after another. -/
def insertStatements (tables : SchemaTables) (values : Record) : List (Statement engine tables) :=
  tables.listTables.map fun list s => insertList engine.isoformat values s list

end

/-- **What an upsert is given**: the update, the record to return, the instants and ids it comes to.
Its filter is that of the key. -/
structure Upsert where
  update : Update
  returning : Returning
  now : ℕ → ℤ
  newId : ℕ → String

/-- **Where an upsert is**: it looks for the key, and updates the record that it found, or inserts one;
where another inserted it first, it looks again. Then it reads its answer and commits. -/
inductive Upsert.Phase (engine : SqlEngine) (tables : SchemaTables)
  | looking
  | missed
  | inserting (key : PyValue) (rest : List (Statement engine tables))
  | refused (violation : Violation)
  | reading (key : PyValue)
  | writing (key : PyValue) (before : Option Record) (rest : List (Statement engine tables))
  | answering (key : PyValue) (before : Option Record)
  | committing (answer : Option Record)
  | returned (answer : Option Record)
  | raised (error : WriteError)

/-- What a statement of an upsert comes to. -/
abbrev Upsert.Effect (engine : SqlEngine) (tables : SchemaTables) : Type :=
  Storage.Effect (engine.Tables tables) (Upsert.Phase engine tables) (Option Record)

namespace Upsert

variable (engine : SqlEngine) {tables : SchemaTables} (filter : Filter) (call : Upsert)

/-- Begin to write the changes of the record of a key. -/
def beginWrites (key : PyValue) (before : Option Record) :
    Except WriteError (Phase engine tables) := do
  let changes ← (translateUpdate engine.isoformat tables call.update).mapError .raised
  return .writing key before (← updateStatements engine key changes)

/-- The values of the record to insert. -/
def valuesToInsert (tables : SchemaTables) : Except WriteError Record :=
  (engine.construct (withUpsertId tables.schema (call.newId 0)
    (upsertedValues filter call.update))).mapError .invalid

/-- **The next statement of an upsert**, on the tables that it sees. What raises rolls back. -/
def next : Phase engine tables → engine.Tables tables → Effect engine tables
  | .looking, s =>
    match translateUpdate engine.isoformat tables call.update,
      findFirstKey engine (call.now 0) filter s with
    | .error e, _ => .rollsBack (.raised (.raised e))
    | .ok _, .error e => .rollsBack (.raised e)
    | .ok _, .ok none => .reads .missed
    | .ok _, .ok (some key) => .writes (.reading key) s
  | .missed, s =>
    match valuesToInsert engine filter call tables with
    | .error e => .rollsBack (.raised e)
    | .ok record =>
      let values := withId tables.schema (call.newId 1) record
      match insertRow s (recordRow engine.isoformat engine.database.dialect tables values
        (nextRowId s.rows)) with
      | .ok s' => .writes (.inserting (record.get tables.schema.storage.key)
          (insertStatements engine tables values)) s'
      | .error (.integrity violation) => .reads (.refused violation)
      | .error e => .rollsBack (.raised e)
  | .inserting key [], _ => .reads (.answering key none)
  | .inserting key (statement :: rest), s =>
    match statement s with
    | .ok s' => .writes (.inserting key rest) s'
    -- back at the savepoint, where nothing was written
    | .error (.integrity violation) => .rollsBack (.refused violation)
    | .error e => .rollsBack (.raised e)
  | .refused violation, s =>
    match findFirstKey engine (call.now 1) filter s with
    | .error e => .rollsBack (.raised e)
    | .ok none => .rollsBack (.raised (.integrity violation))
    | .ok (some key) =>
      match beginWrites engine call key none with
      | .error e => .rollsBack (.raised e)
      | .ok phase => .writes phase s
  | .reading key, s =>
    match getRecord engine (call.now 1) key s with
    | .error e => .rollsBack (.raised e)
    | .ok before =>
      match beginWrites engine call key (some before) with
      | .error e => .rollsBack (.raised e)
      | .ok phase => .reads phase
  | .writing key before [], _ => .reads (.answering key before)
  | .writing key before (statement :: rest), s =>
    match statement s with
    | .ok s' => .writes (.writing key before rest) s'
    | .error e => .rollsBack (.raised e)
  | .answering key before, s =>
    match call.returning with
    | .before => .reads (.committing before)
    | .after =>
      match getRecord engine (call.now 2) key s with
      | .ok record => .reads (.committing (some record))
      | .error e => .rollsBack (.raised e)
  | .committing answer, _ => .commits (.returned answer) answer
  | .returned answer, _ => .reads (.returned answer)
  | .raised e, _ => .reads (.raised e)

end Upsert

end SqlStore

end Mss
