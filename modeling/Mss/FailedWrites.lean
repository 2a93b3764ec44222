import Mss.FilterAgreement
import Mss.Pages
import Mss.SqlInserts
import Mss.Storage.MongoWrites

/-!
# Writes that raise

A write in SQL that raises leaves the tables as they were. MongoDB writes one document at a time, and
what it returns is validated afterwards, so that a write that raises `DuplicateKeyError` or a
`ValidationError` may have written.

* `IsConflict`: the errors in question.
* `MongoCollection.Takes`: the documents that may be inserted, one after another.
* `MongoCollection.updateAll_eq_iff`: updates that change nothing.
* **`MongoStore.FailsFirst`**: what MongoDB refuses, it refuses before it has changed anything.
* **`failed_writes`**: then, and only then, a write that raises changes nothing.
-/

namespace Mss

open Storage

/-- The errors of a write that conflicts with what is stored: a unique value that is taken, and a
record that its schema refuses. -/
def IsConflict : CallError → Prop
  | .duplicateKey | .find (.invalid _) => True
  | _ => False

/-! ## SQL -/

namespace SqlStore

variable {engine : SqlEngine} {tables : SchemaTables}

theorem unchanged_inTransaction {α : Type} {kind : CallError → Prop}
    (translate : WriteError → CallError) (answer : α → Answer)
    (body : engine.Tables tables → Except WriteError (α × engine.Tables tables))
    (s : engine.Tables tables) : (inTransaction engine translate answer body s).Unchanged kind s := by
  intro e he _
  unfold inTransaction at he ⊢
  cases hresult : (transact (fun s => (body s).map fun r => (answer r.1, r.2)) s).result with
  | ok a =>
    rw [Outcome.mapError, hresult] at he
    cases he
  | error e' =>
    have hkept := @unchanged_transact _ _ _ (fun _ : WriteError => True)
      (fun s => (body s).map fun r => (answer r.1, r.2)) s
    exact hkept e' hresult trivial

/-- **A write in SQL that raises changes nothing.** -/
theorem unchanged_write {kind : CallError → Prop} (now : ℕ → ℤ) (newId : ℕ → String)
    (write : Write) (s : engine.Tables tables) :
    (SqlStore.write engine now newId write s).Unchanged kind s := by
  cases write <;> exact unchanged_inTransaction _ _ _ s

end SqlStore

theorem unchanged_database {σ : Type} {kind : CallError → Prop} {schema : Schema} {write : Write}
    {storeWrite : Write → σ → Outcome CallError σ Answer} {s : σ}
    (h : Database.check schema write = .ok () → (storeWrite write s).Unchanged kind s) :
    (Database.write schema storeWrite write s).Unchanged kind s := by
  unfold Database.write
  cases hcheck : Database.check schema write with
  | error e => exact Outcome.unchanged_refuse _
  | ok u => exact h hcheck

/-! ## Documents -/

open Mongo

namespace MongoCollection

variable (collection : MongoCollection)

/-- Documents that may be inserted, one after another. -/
def Takes (documents : List Document) : List Document → Prop
  | [] => True
  | document :: batch => collection.accepts document = true ∧
      collection.clashes document documents = false ∧ Takes (documents ++ [document]) batch

/-- A document of a batch clashes only if it is the first. -/
def ClashesFirst (documents batch : List Document) : Prop :=
  ∀ earlier document later, batch = earlier ++ document :: later →
    collection.Takes documents earlier → collection.accepts document = true →
    collection.clashes document (documents ++ earlier) = true → earlier = []

/-- Before a document whose update clashes come only documents that are as the update makes
them. -/
def ClashesUnchanged (collation : Option Collation) (query update : Document)
    (documents : List Document) : Prop :=
  ∀ earlier place later documents',
    collection.scan collation query documents = earlier ++ place :: later →
    earlier.foldlM (collection.updateAt update) documents = .ok documents' →
    collection.updateAt update documents' place = .error .duplicateKey →
    ∀ i ∈ earlier, ∀ document, documents[i]? = some document →
      collection.applyUpdate update document = some document

variable {collection} {documents documents' batch : List Document} {document : Document}

theorem insertOne_ok_iff : collection.insertOne documents document = .ok documents' ↔
    collection.accepts document = true ∧ collection.clashes document documents = false ∧
      documents' = documents ++ [document] := by
  unfold insertOne
  split_ifs with haccepts hclashes
  · simp [hclashes]
  · rw [Bool.not_eq_true] at hclashes
    simp [haccepts, hclashes, eq_comm]
  · simp [haccepts]

theorem insertOne_duplicate_iff :
    collection.insertOne documents document = .error .duplicateKey ↔
      collection.accepts document = true ∧ collection.clashes document documents = true := by
  unfold insertOne
  split_ifs with haccepts hclashes
  · simp [haccepts, hclashes]
  · simp [haccepts, hclashes]
  · simp [haccepts]

theorem insertAll_ok_iff : batch.foldlM collection.insertOne documents = .ok documents' ↔
    collection.Takes documents batch ∧ documents' = documents ++ batch := by
  induction batch generalizing documents with
  | nil =>
    rw [List.foldlM_nil, List.append_nil]
    constructor
    · intro h
      cases h
      exact ⟨trivial, rfl⟩
    · rintro ⟨_, rfl⟩
      rfl
  | cons document batch ih =>
    rw [List.foldlM_cons]
    constructor
    · intro h
      obtain ⟨documents₁, hfirst, hrest⟩ := bind_ok h
      obtain ⟨haccepts, hclashes, rfl⟩ := insertOne_ok_iff.mp hfirst
      obtain ⟨htakes, rfl⟩ := ih.mp hrest
      exact ⟨⟨haccepts, hclashes, htakes⟩, by simp⟩
    · rintro ⟨⟨haccepts, hclashes, htakes⟩, rfl⟩
      have hfirst := insertOne_ok_iff.mpr ⟨haccepts, hclashes, rfl⟩
      rw [hfirst]
      exact ih.mpr ⟨htakes, by simp⟩

theorem takes_append {earlier later : List Document} :
    collection.Takes documents (earlier ++ later) ↔
      collection.Takes documents earlier ∧ collection.Takes (documents ++ earlier) later := by
  induction earlier generalizing documents with
  | nil => simp [Takes]
  | cons document earlier ih => simp [Takes, ih, and_assoc]

theorem unchanged_insertMany_iff :
    (collection.insertMany documents batch).Unchanged (· = .duplicateKey) documents ↔
      collection.ClashesFirst documents batch := by
  rw [insertMany, unchanged_writeEach_iff]
  constructor
  · intro h earlier document later hbatch htakes haccepts hclashes
    have hsame := h earlier document later _ _ hbatch (insertAll_ok_iff.mpr ⟨htakes, rfl⟩)
      (insertOne_duplicate_iff.mpr ⟨haccepts, hclashes⟩) rfl
    exact List.append_right_eq_self.mp hsame
  · rintro h earlier document later documents' e hbatch hearlier hdocument rfl
    obtain ⟨htakes, rfl⟩ := insertAll_ok_iff.mp hearlier
    obtain ⟨haccepts, hclashes⟩ := insertOne_duplicate_iff.mp hdocument
    rw [h earlier document later hbatch htakes haccepts hclashes, List.append_nil]

/-! ### Updates -/

variable {update : Document} {place : ℕ}

theorem updated_ok {document' : Document}
    (h : collection.updated update documents place document = .ok document') :
    collection.applyUpdate update document = some document' := by
  unfold updated at h
  split at h
  · cases h
  · rename_i hupdate
    split_ifs at h
    cases h
    exact hupdate

/-- What an update does at a place: the document there, if any, becomes what the update makes of
it. -/
theorem updateAt_ok (h : collection.updateAt update documents place = .ok documents') :
    (∀ i, i ≠ place → documents'[i]? = documents[i]?) ∧
      ∀ document, documents[place]? = some document → ∃ document',
        collection.applyUpdate update document = some document' ∧
          documents' = documents.set place document' := by
  unfold updateAt at h
  split at h
  · rename_i hnone
    cases h
    exact ⟨fun _ _ => rfl, fun _ hsome => by rw [hnone] at hsome; cases hsome⟩
  · rename_i d hd
    obtain ⟨d', hd', h⟩ := bind_ok h
    cases h
    refine ⟨fun i hi => List.getElem?_set_ne (Ne.symm hi), fun document hdocument => ?_⟩
    obtain rfl : d = document := Option.some.inj (hd.symm.trans hdocument)
    exact ⟨d', updated_ok hd', rfl⟩

theorem length_updateAt (h : collection.updateAt update documents place = .ok documents') :
    documents'.length = documents.length := by
  unfold updateAt at h
  split at h
  · cases h
    rfl
  · obtain ⟨document', _, h⟩ := bind_ok h
    cases h
    exact List.length_set

theorem length_updateAll {places : List ℕ}
    (h : places.foldlM (collection.updateAt update) documents = .ok documents') :
    documents'.length = documents.length :=
  foldlM_invariant (p := fun d => d.length = documents.length)
    (fun _ _ _ hstep hlength => (length_updateAt hstep).trans hlength) h rfl

theorem updateAll_ok {places : List ℕ} (hnodup : places.Nodup)
    (h : places.foldlM (collection.updateAt update) documents = .ok documents') :
    (∀ i, i ∉ places → documents'[i]? = documents[i]?) ∧
      ∀ i ∈ places, ∀ document, documents[i]? = some document →
        ∃ document', collection.applyUpdate update document = some document' ∧
          documents'[i]? = some document' := by
  induction places generalizing documents with
  | nil =>
    cases h
    simp
  | cons place places ih =>
    rw [List.foldlM_cons] at h
    obtain ⟨documents₁, hfirst, hrest⟩ := bind_ok h
    obtain ⟨hnew, hnodup⟩ := List.nodup_cons.mp hnodup
    obtain ⟨hkept, hwritten⟩ := ih hnodup hrest
    obtain ⟨hothers, hplace⟩ := updateAt_ok hfirst
    refine ⟨fun i hi => ?_, fun i hi document hdocument => ?_⟩
    · rw [List.mem_cons, not_or] at hi
      rw [hkept i hi.2, hothers i hi.1]
    · obtain rfl | hi := List.mem_cons.mp hi
      · obtain ⟨document', happly, rfl⟩ := hplace document hdocument
        refine ⟨document', happly, ?_⟩
        rw [hkept i hnew, List.getElem?_set_self (List.getElem?_eq_some_iff.mp hdocument).1]
      · have hne : i ≠ place := fun heq => hnew (heq ▸ hi)
        exact hwritten i hi document ((hothers i hne).trans hdocument)

/-- **Updates change nothing** if every document is as the update makes it. -/
theorem updateAll_eq_iff {places : List ℕ} (hnodup : places.Nodup)
    (h : places.foldlM (collection.updateAt update) documents = .ok documents') :
    documents' = documents ↔ ∀ i ∈ places, ∀ document, documents[i]? = some document →
      collection.applyUpdate update document = some document := by
  obtain ⟨hkept, hwritten⟩ := updateAll_ok hnodup h
  constructor
  · rintro rfl i hi document hdocument
    obtain ⟨document', happly, hsame⟩ := hwritten i hi document hdocument
    rw [happly, ← hsame, hdocument]
  · intro hsame
    refine List.ext_getElem? fun i => ?_
    by_cases hi : i ∈ places
    · cases hdocument : documents[i]? with
      | none =>
        rw [List.getElem?_eq_none_iff] at hdocument ⊢
        rwa [length_updateAll h]
      | some document =>
        obtain ⟨document', happly, hafter⟩ := hwritten i hi document hdocument
        rw [hafter, ← happly, hsame i hi document hdocument]
    · exact hkept i hi

theorem unchanged_updateMany_iff {collation : Option Collation} {query : Document} :
    (collection.updateMany collation query update documents).Unchanged (· = .duplicateKey)
        documents ↔ collection.ClashesUnchanged collation query update documents := by
  rw [updateMany, unchanged_writeEach_iff]
  have hscan := collection.nodup_scan collation query documents
  constructor
  · intro h earlier place later documents' hplaces hearlier hplace
    rw [hplaces] at hscan
    exact (updateAll_eq_iff (List.nodup_append.mp hscan).1 hearlier).mp
      (h earlier place later documents' _ hplaces hearlier hplace rfl)
  · rintro h earlier place later documents' e hplaces hearlier hplace rfl
    rw [hplaces] at hscan
    exact (updateAll_eq_iff (List.nodup_append.mp hscan).1 hearlier).mpr
      (h earlier place later documents' hplaces hearlier hplace)

end MongoCollection

/-! ## Reading back -/

namespace MongoStore

section

variable (validate : Value Scalar → Except ValidationError Record) (collection : MongoCollection)
  (schema : Schema) (now : ℤ) (newId : ℕ → String)

/-- A document that reads back as a record. -/
def IsRecord (document : Document) : Prop :=
  ∃ record, convertToRecord validate schema document = .ok record

/-- The version of an updated document that is returned. -/
def versionOf (returning : Returning) (document document' : Document) : Document :=
  match returning with
  | .before => document
  | .after => document'

/-- What an update returns is a record, where the update changes the document. -/
def UpdateReadsBack (collation : Option Collation) (query change : Document)
    (returning : Returning) (documents : List Document) : Prop :=
  ∀ place document document', (collection.scan collation query documents).head? = some place →
    documents[place]? = some document →
    collection.updated change documents place document = .ok document' → document' ≠ document →
    IsRecord validate schema (versionOf returning document document')

/-- What an upsert returns is a record. -/
def UpsertReadsBack (collation : Option Collation) (query change : Document)
    (documents : List Document) : Prop :=
  ∀ document, (collection.scan collation query documents).head? = none →
    collection.upserted query change = some document →
    collection.accepts (withKey (newId 0) document) = true →
    collection.clashes (withKey (newId 0) document) documents = false →
    IsRecord validate schema (withKey (newId 0) document)

/-- The document that is deleted is a record. -/
def DeletesRecord (collation : Option Collation) (query : Document) (documents : List Document) :
    Prop :=
  ∀ place document, (collection.scan collation query documents).head? = some place →
    documents[place]? = some document → IsRecord validate schema document

/-- **What MongoDB refuses of a write, it refuses before it has changed anything**: the clash of a
batch is its first document's, that of an update of many comes before any that changes its document,
and the document that an update or a deletion returns is a record. -/
def FailsFirst (documents : List Document) : Write → Prop
  | .insert _ => True
  | .insertMany records => ∀ batch, batchOf schema newId records = .ok batch →
      collection.ClashesFirst documents batch
  | .updateOne filter update shouldUpsert returning => ∀ query change,
      command schema now filter update = .ok (query, change) →
      UpdateReadsBack validate collection schema (getQueryCollation schema filter) query change
        returning documents ∧
      (shouldUpsert = true → returning = .after →
        UpsertReadsBack validate collection schema newId (getQueryCollation schema filter) query
          change documents)
  | .updateMany filter update => ∀ query change,
      command schema now filter update = .ok (query, change) →
      collection.ClashesUnchanged (getQueryCollation schema filter) query change documents
  | .deleteOne filter => ∀ query, translateUnexpiredFilter schema now filter = .ok query →
      DeletesRecord validate collection schema (getQueryCollation schema filter) query documents

end

variable {validate : Value Scalar → Except ValidationError Record} {collection : MongoCollection}
  {schema : Schema} {now : ℤ} {newId : ℕ → String} {documents documents' : List Document}

theorem unchanged_andThen_iff {A : Type} {kind : CallError → Prop} {converted : Except FindError A}
    {command : A → Outcome CallError (List Document) Answer} :
    (andThen converted documents command).Unchanged kind documents ↔
      ∀ a, converted = .ok a → (command a).Unchanged kind documents := by
  cases converted with
  | error e => exact iff_of_true (Outcome.unchanged_refuse _) fun _ h => by cases h
  | ok a => exact ⟨fun h a' ha => by cases ha; exact h, fun h => h a rfl⟩

theorem isConflict_translate {e : ServerError} :
    IsConflict (translateDuplicateKeyErrors e) ↔ e = .duplicateKey := by
  cases e <;> simp [translateDuplicateKeyErrors, IsConflict]

theorem unchanged_bulk_iff {outcome : Outcome ServerError (List Document) Unit}
    {answer : Unit → Answer} :
    (⟨(outcome.result.mapError translateDuplicateKeyErrors).map answer, outcome.state⟩ :
      Outcome CallError (List Document) Answer).Unchanged IsConflict documents ↔
      outcome.Unchanged (· = .duplicateKey) documents := by
  obtain ⟨result, state⟩ := outcome
  cases result with
  | ok u => exact iff_of_true (Outcome.unchanged_ok _ _) (Outcome.unchanged_ok _ _)
  | error e =>
    refine Outcome.unchanged_error_iff.trans (Iff.trans ?_ Outcome.unchanged_error_iff.symm)
    rw [isConflict_translate]

theorem unchanged_answerRecord_iff {returned : Option Document} :
    (answerRecord validate schema returned documents').Unchanged IsConflict documents ↔
      ∀ document, returned = some document →
        documents' ≠ documents → IsRecord validate schema document := by
  cases returned with
  | none => exact iff_of_true (Outcome.unchanged_ok _ _) fun _ h => by cases h
  | some document =>
    unfold answerRecord
    simp only [Option.some.injEq, forall_eq']
    cases hrecord : convertToRecord validate schema document with
    | ok record =>
      exact iff_of_true (Outcome.unchanged_ok _ _) fun _ => ⟨record, hrecord⟩
    | error e =>
      refine Outcome.unchanged_error_iff.trans ⟨fun h hne => absurd (h trivial) hne, fun h _ => ?_⟩
      by_contra hne
      obtain ⟨record, hok⟩ := h hne
      rw [hrecord] at hok
      cases hok

/-! ### The commands -/

theorem unchanged_insert (record : Record) :
    (insert collection schema newId record documents).Unchanged IsConflict documents := by
  refine unchanged_andThen_iff.mpr fun document _ => ?_
  split
  · exact Outcome.unchanged_refuse _
  · exact Outcome.unchanged_ok _ _

theorem unchanged_insertMany_iff {records : List Record} :
    (insertMany collection schema newId records documents).Unchanged IsConflict documents ↔
      ∀ batch, batchOf schema newId records = .ok batch →
        collection.ClashesFirst documents batch := by
  unfold insertMany
  split
  · rename_i hempty
    refine iff_of_true (Outcome.unchanged_ok _ _) fun batch hbatch => ?_
    rw [List.isEmpty_iff.mp hempty] at hbatch
    cases hbatch
    intro earlier document later hnil
    exact absurd hnil (by simp)
  · refine unchanged_andThen_iff.trans (forall₂_congr fun batch _ => ?_)
    exact unchanged_bulk_iff.trans MongoCollection.unchanged_insertMany_iff

theorem unchanged_updateMany_iff {filter : Filter} {update : Update} :
    (updateMany collection schema now filter update documents).Unchanged IsConflict documents ↔
      ∀ query change, command schema now filter update = .ok (query, change) →
        collection.ClashesUnchanged (getQueryCollation schema filter) query change documents := by
  refine unchanged_andThen_iff.trans (Iff.trans Prod.forall ?_)
  refine forall_congr' fun query => forall₂_congr fun change _ => ?_
  exact unchanged_bulk_iff.trans MongoCollection.unchanged_updateMany_iff

theorem exists_of_head {collation : Option Collation} {query : Document} {place : ℕ}
    (h : (collection.scan collation query documents).head? = some place) :
    ∃ document, documents[place]? = some document := by
  have hmem := (collection.mem_scan collation query documents place).mp (List.mem_of_head? h)
  obtain ⟨document, hdocument, _⟩ := (Option.any_eq_true _ _).mp hmem
  exact ⟨document, hdocument⟩

theorem unchanged_answerCommand_iff
    {result : Except ServerError (Option Document × List Document)} :
    (answerCommand validate schema documents result).Unchanged IsConflict documents ↔
      ∀ document documents', result = .ok (some document, documents') → documents' ≠ documents →
        IsRecord validate schema document := by
  cases result with
  | error e => exact iff_of_true (Outcome.unchanged_refuse _) fun _ _ h => by cases h
  | ok answer =>
    obtain ⟨returned, documents'⟩ := answer
    refine unchanged_answerRecord_iff.trans ⟨?_, ?_⟩
    · rintro h document _ ⟨⟩ hne
      exact h document rfl hne
    · rintro h document rfl hne
      exact h document documents' rfl hne

variable {collation : Option Collation} {query change : Document} {returning : Returning}
  {shouldUpsert : Bool}

theorem unchanged_upsert_iff (hhead : (collection.scan collation query documents).head? = none) :
    (answerCommand validate schema documents
        (collection.upsertOne query change (newId 0) returning documents)).Unchanged IsConflict
          documents ↔
      (returning = .after →
        UpsertReadsBack validate collection schema newId collation query change documents) := by
  refine unchanged_answerCommand_iff.trans ⟨?_, ?_⟩
  · rintro h rfl document _ hupserted haccepts hclashes
    refine h _ (documents ++ [withKey (newId 0) document]) ?_ (by simp)
    simp only [MongoCollection.upsertOne, hupserted,
      MongoCollection.insertOne_ok_iff.mpr ⟨haccepts, hclashes, rfl⟩]
    rfl
  · intro h document documents' hresult _
    unfold MongoCollection.upsertOne at hresult
    split at hresult
    · cases hresult
    · rename_i inserted hinserted
      obtain ⟨documents₁, hinsert, hresult⟩ := bind_ok hresult
      obtain ⟨haccepts, hclashes, _⟩ := MongoCollection.insertOne_ok_iff.mp hinsert
      cases returning with
      | before => cases hresult
      | after =>
        cases hresult
        exact h rfl inserted hhead hinserted haccepts hclashes

theorem unchanged_update_iff {place : ℕ}
    (hhead : (collection.scan collation query documents).head? = some place) :
    (answerCommand validate schema documents
        (collection.findOneAndUpdate collation query change shouldUpsert (newId 0) returning
          documents)).Unchanged IsConflict documents ↔
      UpdateReadsBack validate collection schema collation query change returning documents := by
  obtain ⟨document, hdocument⟩ := exists_of_head hhead
  have hlength := (List.getElem?_eq_some_iff.mp hdocument).1
  simp only [MongoCollection.findOneAndUpdate, hhead, MongoCollection.updateAt, hdocument]
  refine unchanged_answerCommand_iff.trans ⟨?_, ?_⟩
  · intro h place' before after hhead' hbefore hupdated hne
    obtain rfl : place = place' := Option.some.inj (hhead.symm.trans hhead')
    obtain rfl : document = before := Option.some.inj (hdocument.symm.trans hbefore)
    have hset : documents.set place after ≠ documents := by
      intro heq
      have hplace := List.getElem?_set_self (a := after) hlength
      rw [heq, hdocument] at hplace
      exact hne (Option.some.inj hplace).symm
    refine h _ (documents.set place after) ?_ hset
    rw [hupdated]
    cases returning with
    | before => exact congrArg (fun d => Except.ok (d, _)) hdocument
    | after => exact congrArg (fun d => Except.ok (d, _)) (List.getElem?_set_self hlength)
  · intro h returned documents' hresult hchanged
    obtain ⟨documents₁, hupdate, hanswer⟩ := bind_ok hresult
    obtain ⟨after, hupdated, hset⟩ := bind_ok hupdate
    cases hset
    obtain ⟨hreturned, rfl⟩ := Prod.mk.inj (Except.ok.inj hanswer)
    have hne : after ≠ document := by
      rintro rfl
      obtain ⟨_, hsame⟩ := List.getElem?_eq_some_iff.mp hdocument
      exact hchanged (by rw [← hsame, List.set_getElem_self])
    have hvalid := h place document after hhead hdocument hupdated hne
    cases returning with
    | before =>
      obtain rfl : document = returned := Option.some.inj (hdocument.symm.trans hreturned)
      exact hvalid
    | after =>
      obtain rfl : after = returned :=
        Option.some.inj ((List.getElem?_set_self hlength).symm.trans hreturned)
      exact hvalid

theorem unchanged_updateOne_iff {filter : Filter} {update : Update} :
    (updateOne validate collection schema now newId filter update shouldUpsert returning
        documents).Unchanged IsConflict documents ↔
      FailsFirst validate collection schema now newId documents
        (.updateOne filter update shouldUpsert returning) := by
  refine unchanged_andThen_iff.trans (Iff.trans Prod.forall ?_)
  refine forall_congr' fun query => forall₂_congr fun change _ => ?_
  cases hhead : (collection.scan (getQueryCollation schema filter) query documents).head? with
  | some place =>
    refine (unchanged_update_iff hhead).trans (and_iff_left fun _ _ document hnone => ?_).symm
    rw [hhead] at hnone
    cases hnone
  | none =>
    have hupdate : UpdateReadsBack validate collection schema (getQueryCollation schema filter)
        query change returning documents := by
      intro place _ _ hsome
      rw [hhead] at hsome
      cases hsome
    rw [and_iff_right hupdate]
    simp only [MongoCollection.findOneAndUpdate, hhead]
    cases shouldUpsert with
    | true => simpa using unchanged_upsert_iff hhead
    | false => exact iff_of_true (Outcome.unchanged_ok _ _) fun h => by cases h

theorem unchanged_deleteOne_iff {filter : Filter} :
    (deleteOne validate collection schema now filter documents).Unchanged IsConflict documents ↔
      ∀ query, translateUnexpiredFilter schema now filter = .ok query →
        DeletesRecord validate collection schema (getQueryCollation schema filter) query
          documents := by
  refine unchanged_andThen_iff.trans (forall₂_congr fun query _ => ?_)
  unfold MongoCollection.findOneAndDelete
  cases hhead : (collection.scan (getQueryCollation schema filter) query documents).head? with
  | none =>
    refine iff_of_true (Outcome.unchanged_ok _ _) fun place _ hsome => ?_
    rw [hhead] at hsome
    cases hsome
  | some place =>
    obtain ⟨document, hdocument⟩ := exists_of_head hhead
    have hlength := (List.getElem?_eq_some_iff.mp hdocument).1
    have hne : documents.eraseIdx place ≠ documents := by
      intro heq
      have := congrArg List.length heq
      rw [List.length_eraseIdx_of_lt hlength] at this
      omega
    refine unchanged_answerRecord_iff.trans ⟨?_, ?_⟩
    · intro h place' before hhead' hbefore
      obtain rfl : place = place' := Option.some.inj (hhead.symm.trans hhead')
      exact h before hbefore hne
    · intro h returned hreturned _
      exact h place returned hhead hreturned

/-- **A write in MongoDB that conflicts changes nothing** if, and only if, MongoDB refuses it before
it has changed anything. -/
theorem unchanged_write_iff (write : Write) :
    (MongoStore.write validate collection schema now newId write documents).Unchanged IsConflict
      documents ↔ FailsFirst validate collection schema now newId documents write := by
  cases write with
  | insert record => exact iff_of_true (unchanged_insert record) trivial
  | insertMany records => exact unchanged_insertMany_iff
  | updateOne filter update shouldUpsert returning => exact unchanged_updateOne_iff
  | updateMany filter update => exact unchanged_updateMany_iff
  | deleteOne filter => exact unchanged_deleteOne_iff

/-- **A bulk that does not raise stores its batch.** -/
theorem stores_insertMany {records : List Record} {answer : Answer}
    (h : (insertMany collection schema newId records documents).result = .ok answer) :
    ∃ batch, batchOf schema newId records = .ok batch ∧
      (insertMany collection schema newId records documents).state = documents ++ batch := by
  unfold insertMany at h ⊢
  split_ifs at h ⊢ with hempty
  · rw [List.isEmpty_iff.mp hempty]
    exact ⟨[], rfl, (List.append_nil _).symm⟩
  · unfold andThen at h ⊢
    cases hbatch : batchOf schema newId records with
    | error e =>
      rw [hbatch] at h
      cases h
    | ok batch =>
      rw [hbatch] at h
      refine ⟨batch, rfl, ?_⟩
      cases hresult : (collection.insertMany documents batch).result with
      | error e =>
        simp only [hresult] at h
        cases h
      | ok u => exact (MongoCollection.insertAll_ok_iff.mp (writeEach_ok hresult)).2

end MongoStore

/-- **A bulk in SQL that does not raise stores its batch.** -/
theorem SqlStore.stores_insertMany {engine : SqlEngine} {schema : Schema} {tables : SchemaTables}
    (hsome : getTablesOf schema = some tables) {newId : ℕ → String} {records : List Record}
    {s : engine.Tables tables} {answer : Answer}
    (h : (SqlStore.insertMany engine newId records s).result = .ok answer) :
    StoresBatch newId records.zipIdx s (SqlStore.insertMany engine newId records s).state := by
  obtain ⟨childFields, hof⟩ := getTablesOf_spec hsome
  have hbody := transact_ok (mapError_ok h)
  obtain ⟨r, hr⟩ := map_ok hbody
  obtain ⟨s', hfold, hr'⟩ := bind_ok hr
  cases hr'
  rw [hr] at hbody
  exact (Prod.mk.inj (Except.ok.inj hbody)).2 ▸ insertMany_rows hof hfold

/-! ## Both stores -/

section

variable {engine : SqlEngine} {schema : Schema} {tables : SchemaTables}

/-- **A write that conflicts changes nothing** in SQL. In MongoDB it changes nothing if, and only
if, MongoDB refuses it before it has changed anything. A bulk that does not raise stores its batch
in both. -/
theorem failed_writes (hsome : getTablesOf schema = some tables)
    (validate : Value Scalar → Except ValidationError Record) (collection : MongoCollection)
    (now : ℕ → ℤ) (newId : ℕ → String) (write : Write) (s : engine.Tables tables)
    (documents : List Document) :
    (Database.write schema (SqlStore.write engine now newId) write s).Unchanged IsConflict s ∧
      ((Database.write schema (MongoStore.write validate collection schema (now 0) newId) write
        documents).Unchanged IsConflict documents ↔
        (Database.check schema write = .ok () →
          MongoStore.FailsFirst validate collection schema (now 0) newId documents write)) ∧
      ∀ records answer, write = .insertMany records →
        ((Database.write schema (SqlStore.write engine now newId) write s).result = .ok answer →
          SqlStore.StoresBatch newId records.zipIdx s
            (Database.write schema (SqlStore.write engine now newId) write s).state) ∧
        ((Database.write schema (MongoStore.write validate collection schema (now 0) newId) write
          documents).result = .ok answer →
          ∃ batch, MongoStore.batchOf schema newId records = .ok batch ∧
            (Database.write schema (MongoStore.write validate collection schema (now 0) newId) write
              documents).state = documents ++ batch) := by
  refine ⟨unchanged_database fun _ => SqlStore.unchanged_write now newId write s, ?_, ?_⟩
  · unfold Database.write
    cases hcheck : Database.check schema write with
    | error e => exact iff_of_true (Outcome.unchanged_refuse _) fun h => by cases h
    | ok u =>
      refine MongoStore.unchanged_write_iff write |>.trans ⟨fun h _ => h, fun h => h rfl⟩
  · rintro records answer rfl
    exact ⟨SqlStore.stores_insertMany hsome, MongoStore.stores_insertMany⟩

end

/-! ## A batch of pets -/

/-- SQLite, as the store uses it; every record is valid. -/
def petEngine : SqlEngine where
  database := sqlite
  references := fun _ _ => true
  text := byCodePoint
  plan := fun order => Sorting.byMerging (compareRows byCodePoint order)
  lower := String.toLower
  isoformat := fun _ _ => ""
  validate := fun _ => .ok []
  construct := .ok

/-- A pet of a name. -/
def pet (name : String) : Record :=
  [("id", .none), ("name", .scalar (.str name)), ("age", .scalar (.int 0)), ("owner_id", .none),
    ("friend_ids", .sequence .list []), ("stats", .dict [("walks", .scalar (.int 0))]),
    ("expires_at", .none)]

/-- Ids, one after another. -/
def petId (n : ℕ) : String := "00000000000000000000000" ++ toString n

/-- The pets of a server whose unique index is on their names. -/
def petCollection : MongoCollection where
  toMongoServer := anyMatch
  scan := fun _ _ documents => List.range documents.length
  nodup_scan := fun _ _ _ => List.nodup_range
  mem_scan := by
    intro collation query documents i
    rw [List.mem_range, Option.any_eq_true]
    constructor
    · intro h
      exact ⟨documents[i], List.getElem?_eq_getElem h, rfl⟩
    · rintro ⟨document, hdocument, _⟩
      exact (List.getElem?_eq_some_iff.mp hdocument).1
  accepts := fun _ => true
  isDuplicate := fun a b =>
    decide (Value.get "name" a = Value.get "name" b) ||
      decide (Value.get keyField a = Value.get keyField b)
  applyUpdate := fun _ document => some document
  upserted := fun _ _ => none

theorem failed_writes_pets :
    (Database.write petSchema (SqlStore.write petEngine (fun _ => 0) petId)
      (.insertMany [pet "Rex", pet "Rex"]) SqlStore.empty).Unchanged IsConflict
        (SqlStore.empty : petEngine.Tables petTables) :=
  (failed_writes (Option.some_get _).symm (fun _ => .ok []) petCollection (fun _ => 0) petId
    (.insertMany [pet "Rex", pet "Rex"]) SqlStore.empty []).1

/-- The second of two pets of one name is refused in MongoDB, and the first is stored. So is an
invalid pet deleted, before it is found to be invalid. -/
theorem written_despite_error :
    (∃ document, Database.write petSchema
        (MongoStore.write (fun _ => .ok []) petCollection petSchema 0 petId)
        (.insertMany [pet "Rex", pet "Rex"]) [] = ⟨.error .duplicateKey, [document]⟩) ∧
      Database.write petSchema
        (MongoStore.write (fun _ => .error ⟨["name"]⟩) petCollection petSchema 0 petId)
        (.deleteOne []) [petDocument] = ⟨.error (.find (.invalid ⟨["name"]⟩)), []⟩ ∧
      ¬ (Database.write petSchema
        (MongoStore.write (fun _ => .ok []) petCollection petSchema 0 petId)
        (.insertMany [pet "Rex", pet "Rex"]) []).Unchanged IsConflict [] := by
  have hstored : ∃ document, Database.write petSchema
      (MongoStore.write (fun _ => .ok []) petCollection petSchema 0 petId)
      (.insertMany [pet "Rex", pet "Rex"]) [] = ⟨.error .duplicateKey, [document]⟩ := ⟨_, rfl⟩
  refine ⟨hstored, rfl, ?_⟩
  obtain ⟨document, hstored⟩ := hstored
  intro h
  have := h .duplicateKey (by rw [hstored]) trivial
  rw [hstored] at this
  cases this

end Mss
