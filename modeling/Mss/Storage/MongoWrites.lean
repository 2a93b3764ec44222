import Mss.Storage.MongoFilters
import Mss.Storage.Writes

/-!
# The writes of MongoDB

Each write is one command of the server's, on one document or on several, and what the server
returns is validated afterwards. The server writes one document at a time: a bulk of inserts, or an
update of many documents, stops at the first that it refuses and keeps the others.

* `Mongo.convertToDocument`, `Mongo.translateUpdate`: a record and an update as MongoDB takes them.
* **`MongoCollection`**: what the server does to a collection's documents; `insertOne`,
  `insertMany`, `findOneAndUpdate`, `updateMany`, `findOneAndDelete`: its commands.
* **`MongoStore.insertMany`**, **`updateOne`**, **`updateMany`**, **`deleteOne`**.
-/

namespace Mss

open Storage

namespace Mongo

/-! ## Records and updates -/

/-- **The document of a record**: its id, if it has one, is the document's key. -/
def convertToDocument (schema : Schema) (record : Record) : Except FindError Document := do
  let document ← convertToDocumentValues schema.fields record
  let others := document.filter fun field => field.1 != "id"
  match Value.get "id" document with
  | .null => return others
  | recordId => return others ++ [(keyField, recordId)]

/-- The document with a key, which the driver makes if it has none. -/
def withKey (newId : String) (document : Document) : Document :=
  if (document.lookup keyField).isSome then document
  else document ++ [(keyField, .scalar (.objectId newId))]

/-- The change of a field, as MongoDB takes it. -/
def translateChange (schema : Schema) (change : String × PyValue) :
    Except FindError (String × Bson) := do
  return (getDocumentField change.1, ← convertToBsonValue schema change.1 change.2)

/-- The changes of an operator, as MongoDB takes them. -/
def translateChanges (schema : Schema) (entry : String × FieldChanges) :
    Except FindError (String × Bson) := do
  return (entry.1, .document (← entry.2.mapM (translateChange schema)))

/-- **The update as MongoDB takes it**, without the operators that have no changes. -/
def translateUpdate (schema : Schema) (update : Update) : Except FindError Document :=
  (update.filter fun entry => !entry.2.isEmpty).mapM (translateChanges schema)

end Mongo

open Mongo

/-! ## The server -/

/-- **What the server does to a collection**: the documents that a query matches, by their places
and in the order it comes to them; the documents that its validator takes; those that a unique index
keeps apart; and what an update makes of a document, or of a query. It comes to a document once. -/
structure MongoCollection extends MongoServer where
  scan : Option Collation → Document → List Document → List ℕ
  nodup_scan : ∀ collation query documents, (scan collation query documents).Nodup
  mem_scan : ∀ collation query documents i, i ∈ scan collation query documents ↔
    (documents[i]?).any (isMatch collation query) = true
  accepts : Document → Bool
  isDuplicate : Document → Document → Bool
  applyUpdate : Document → Document → Option Document
  upserted : Document → Document → Option Document

namespace MongoCollection

variable (collection : MongoCollection)

/-- Whether a unique index keeps a document apart from one of others. -/
def clashes (document : Document) (others : List Document) : Bool :=
  others.any (collection.isDuplicate document)

/-- Insert a document. -/
def insertOne (documents : List Document) (document : Document) :
    Except ServerError (List Document) :=
  if collection.accepts document then
    if collection.clashes document documents then .error .duplicateKey
    else .ok (documents ++ [document])
  else .error .documentInvalid

/-- Insert documents, one after another. -/
def insertMany (documents : List Document) (batch : List Document) :
    Outcome ServerError (List Document) Unit :=
  writeEach collection.insertOne batch documents

/-- What an update makes of a document. One that the validator does not take already is not
validated. -/
def updated (update : Document) (documents : List Document) (place : ℕ) (document : Document) :
    Except ServerError Document :=
  match collection.applyUpdate update document with
  | none => .error .badUpdate
  | some document' =>
    if collection.accepts document && !collection.accepts document' then .error .documentInvalid
    else if collection.clashes document' (documents.eraseIdx place) then .error .duplicateKey
    else .ok document'

/-- Update the document at a place. -/
def updateAt (update : Document) (documents : List Document) (place : ℕ) :
    Except ServerError (List Document) :=
  match documents[place]? with
  | none => .ok documents
  | some document => do
    return documents.set place (← collection.updated update documents place document)

/-- What an upsert that inserts a document returns. -/
def upsertAnswer (returning : Returning) (document : Document) : Option Document :=
  match returning with
  | .before => none
  | .after => some document

/-- The version of the document at a place that an update returns. -/
def updateAnswer (returning : Returning) (before after : List Document) (place : ℕ) :
    Option Document :=
  match returning with
  | .before => before[place]?
  | .after => after[place]?

/-- Insert the document that an update makes of a query; it is returned if the one after is. -/
def upsertOne (query update : Document) (newId : String) (returning : Returning)
    (documents : List Document) : Except ServerError (Option Document × List Document) :=
  match collection.upserted query update with
  | none => .error .badUpdate
  | some document => do
    let documents' ← collection.insertOne documents (withKey newId document)
    return (upsertAnswer returning (withKey newId document), documents')

/-- Update the first document that the server comes to, and return it as it was or as it is. -/
def findOneAndUpdate (collation : Option Collation) (query update : Document)
    (shouldUpsert : Bool) (newId : String) (returning : Returning) (documents : List Document) :
    Except ServerError (Option Document × List Document) :=
  match (collection.scan collation query documents).head? with
  | none =>
    if shouldUpsert then collection.upsertOne query update newId returning documents
    else .ok (none, documents)
  | some place => do
    let documents' ← collection.updateAt update documents place
    return (updateAnswer returning documents documents' place, documents')

/-- Update every document that the server comes to, one after another. -/
def updateMany (collation : Option Collation) (query update : Document)
    (documents : List Document) : Outcome ServerError (List Document) Unit :=
  writeEach (collection.updateAt update) (collection.scan collation query documents) documents

/-- Delete the first document that the server comes to, and return it. -/
def findOneAndDelete (collation : Option Collation) (query : Document)
    (documents : List Document) : Option Document × List Document :=
  match (collection.scan collation query documents).head? with
  | none => (none, documents)
  | some place => (documents[place]?, documents.eraseIdx place)

end MongoCollection

/-- The number of documents that differ. -/
def modifiedCount (documents documents' : List Document) : ℕ :=
  (documents.zip documents').countP fun pair => decide (pair.1 ≠ pair.2)

/-- **Duplicate key errors** become the storage layer's error. -/
def translateDuplicateKeyErrors : ServerError → CallError
  | .duplicateKey => .duplicateKey
  | error => .server error

/-! ## The store -/

namespace MongoStore

section

variable (validate : Value Scalar → Except ValidationError Record) (collection : MongoCollection)
  (schema : Schema) (now : ℤ) (newId : ℕ → String)

/-- Go on with what is converted, or raise before the server is asked. -/
def andThen {A : Type} (converted : Except FindError A) (documents : List Document)
    (command : A → Outcome CallError (List Document) Answer) :
    Outcome CallError (List Document) Answer :=
  match converted with
  | .error e => .refuse (.find e) documents
  | .ok a => command a

/-- The record of what the server returned, validated when it has been written. -/
def answerRecord (returned : Option Document) (documents : List Document) :
    Outcome CallError (List Document) Answer :=
  match returned with
  | none => ⟨.ok (.record none), documents⟩
  | some document =>
    match convertToRecord validate schema document with
    | .error e => ⟨.error (.find (.invalid e)), documents⟩
    | .ok record => ⟨.ok (.record (some record)), documents⟩

/-- What a command comes to: the server refuses it, or its answer is validated. -/
def answerCommand (documents : List Document) :
    Except ServerError (Option Document × List Document) →
      Outcome CallError (List Document) Answer
  | .error e => .refuse (translateDuplicateKeyErrors e) documents
  | .ok (returned, documents') => answerRecord validate schema returned documents'

/-- **Insert a record.** -/
def insert (record : Record) (documents : List Document) :
    Outcome CallError (List Document) Answer :=
  andThen (convertToDocument schema record) documents fun document =>
    match collection.insertOne documents (withKey (newId 0) document) with
    | .error e => .refuse (translateDuplicateKeyErrors e) documents
    | .ok documents' => ⟨.ok (.record (some record)), documents'⟩

/-- The documents of a batch, each with a key. -/
def batchOf (records : List Record) : Except FindError (List Document) := do
  let documents ← records.mapM (convertToDocument schema)
  return documents.zipIdx.map fun document => withKey (newId document.2) document.1

/-- **Insert records**, in an ordered bulk. -/
def insertMany (records : List Record) (documents : List Document) :
    Outcome CallError (List Document) Answer :=
  if records.isEmpty then ⟨.ok (.records []), documents⟩
  else
    andThen (batchOf schema newId records) documents fun batch =>
      let outcome := collection.insertMany documents batch
      ⟨(outcome.result.mapError translateDuplicateKeyErrors).map fun _ => .records records,
        outcome.state⟩

/-- The query of a filter and an update, as the server takes them. -/
def command (filter : Filter) (update : Update) : Except FindError (Document × Document) := do
  return (← translateUnexpiredFilter schema now filter, ← Mongo.translateUpdate schema update)

/-- **Update the first matched record**, or insert one if none matched and it should upsert. -/
def updateOne (filter : Filter) (update : Update) (shouldUpsert : Bool) (returning : Returning)
    (documents : List Document) : Outcome CallError (List Document) Answer :=
  andThen (command schema now filter update) documents fun asked =>
    answerCommand validate schema documents
      (collection.findOneAndUpdate (getQueryCollation schema filter) asked.1 asked.2 shouldUpsert
        (newId 0) returning documents)

/-- **Update every matched record**, and count those that the server changed. -/
def updateMany (filter : Filter) (update : Update) (documents : List Document) :
    Outcome CallError (List Document) Answer :=
  andThen (command schema now filter update) documents fun asked =>
    let outcome :=
      collection.updateMany (getQueryCollation schema filter) asked.1 asked.2 documents
    ⟨(outcome.result.mapError translateDuplicateKeyErrors).map fun _ =>
      .count (modifiedCount documents outcome.state), outcome.state⟩

/-- **Delete the first matched record.** -/
def deleteOne (filter : Filter) (documents : List Document) :
    Outcome CallError (List Document) Answer :=
  andThen (translateUnexpiredFilter schema now filter) documents fun query =>
    let (returned, documents') :=
      collection.findOneAndDelete (getQueryCollation schema filter) query documents
    answerRecord validate schema returned documents'

/-- The store's writes, at the instant and with the ids they come to. -/
def write (write : Write) (documents : List Document) : Outcome CallError (List Document) Answer :=
  match write with
  | .insert record => insert collection schema newId record documents
  | .insertMany records => insertMany collection schema newId records documents
  | .updateOne filter update shouldUpsert returning =>
    updateOne validate collection schema now newId filter update shouldUpsert returning documents
  | .updateMany filter update => updateMany collection schema now filter update documents
  | .deleteOne filter => deleteOne validate collection schema now filter documents

end

end MongoStore

end Mss
