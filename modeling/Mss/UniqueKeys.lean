import Mss.FailedWrites
import Mss.Storage.Indexes

/-!
# Keys that identify a record

SQL keeps the keys of a table apart. MongoDB keeps apart what an index is asked to: a key is one that
is `_id`, or is declared unique, which four schemas of the app do not do.

* `mem_getIndexes`: the unique indexes that a schema asks for.
* `MongoCollection.Apart`: documents that the indexes keep apart; `apart_write`: after any write.
* **`keepsKeys_iff`**: the indexes keep the key apart if, and only if, it is `_id` or is unique.
* `SqlStore.Taken`, `MongoStore.Taken`: a key or a unique group's values that are stored already.
* **`SqlStore.insert_duplicate_iff`**, **`MongoStore.insert_duplicate_iff`**: an insert raises exactly
  where they are.
* **`keys_identify`**: after any run, no two records have one key.
-/

namespace Mss

open Storage Mongo

/-! ## Runs -/

/-- A call that writes, with the instants and the ids that it comes to. -/
structure Call where
  write : Write
  now : ℕ → ℤ
  newId : ℕ → String

/-- The state after some calls, whether they raise or not. -/
def Database.run {σ : Type} (schema : Schema)
    (storeWrite : (ℕ → ℤ) → (ℕ → String) → Write → σ → Outcome CallError σ Answer)
    (calls : List Call) (s : σ) : σ :=
  calls.foldl (fun s call =>
    (Database.write schema (storeWrite call.now call.newId) call.write s).state) s

theorem Database.run_invariant {σ : Type} {schema : Schema} {p : σ → Prop}
    {storeWrite : (ℕ → ℤ) → (ℕ → String) → Write → σ → Outcome CallError σ Answer}
    (hwrite : ∀ now newId write s, p s → p (storeWrite now newId write s).state)
    (calls : List Call) {s : σ} (hs : p s) : p (Database.run schema storeWrite calls s) := by
  unfold Database.run
  induction calls generalizing s with
  | nil => exact hs
  | cons call calls ih =>
    rw [List.foldl_cons]
    refine ih ?_
    unfold Database.write
    split
    · exact hs
    · exact hwrite _ _ _ _ hs

/-! ## Indexes -/

namespace Mongo

theorem mem_setDefaults {indexes : List IndexModel} {index : IndexModel}
    (h : index ∈ setDefaults indexes) : index ∈ indexes := by
  induction indexes with
  | nil => exact h
  | cons first indexes ih =>
    obtain rfl | h := List.mem_cons.mp h
    · exact List.mem_cons_self
    · exact List.mem_cons_of_mem _ (ih (List.mem_filter.mp h).1)

theorem mem_setDefaults_append {indexes others : List IndexModel}
    (hkeys : ∀ i ∈ indexes, ∀ j ∈ indexes, i.keys = j.keys → i = j) {index : IndexModel}
    (h : index ∈ indexes) : index ∈ setDefaults (indexes ++ others) := by
  induction indexes with
  | nil => cases h
  | cons first indexes ih =>
    rw [List.cons_append, setDefaults, List.mem_cons]
    by_cases hsame : index.keys = first.keys
    · exact .inl (hkeys index h first List.mem_cons_self hsame)
    · obtain rfl | h := List.mem_cons.mp h
      · exact absurd rfl hsame
      · refine .inr (List.mem_filter.mpr ⟨ih (fun i hi j hj => ?_) h, by simpa using hsame⟩)
        exact hkeys i (List.mem_cons_of_mem _ hi) j (List.mem_cons_of_mem _ hj)

theorem isUnique_otherIndexes {schema : Schema} {index : IndexModel}
    (h : index ∈ otherIndexes schema) : index.isUnique = false := by
  simp only [otherIndexes, List.mem_append, List.mem_map] at h
  obtain ((⟨_, _, rfl⟩ | ⟨_, _, rfl⟩) | ⟨_, _, rfl⟩) | ⟨_, _, rfl⟩ := h <;> rfl

/-- **The unique indexes that a schema asks for** are those of its unique groups, but for `_id`. -/
theorem mem_getIndexes {schema : Schema} {index : IndexModel} :
    index ∈ getIndexes schema ∧ index.isUnique = true ↔
      ∃ group ∈ schema.storage.unique, index = uniqueIndex schema.storage group ∧
        getIndexKeys group ≠ [(keyField, false)] := by
  constructor
  · rintro ⟨hmem, hunique⟩
    obtain ⟨hmem, hkeys⟩ := List.mem_filter.mp hmem
    obtain hmem | hmem := List.mem_append.mp (mem_setDefaults hmem)
    · obtain ⟨group, hgroup, rfl⟩ := List.mem_map.mp hmem
      exact ⟨group, hgroup, rfl, by simpa [uniqueIndex] using hkeys⟩
    · rw [isUnique_otherIndexes hmem] at hunique
      cases hunique
  · rintro ⟨group, hgroup, rfl, hkeys⟩
    refine ⟨List.mem_filter.mpr ⟨?_, by simpa [uniqueIndex] using hkeys⟩, rfl⟩
    refine mem_setDefaults_append ?_ (List.mem_map_of_mem hgroup)
    intro i hi j hj hsame
    obtain ⟨g, _, rfl⟩ := List.mem_map.mp hi
    obtain ⟨g', _, rfl⟩ := List.mem_map.mp hj
    have hsame : getIndexKeys g = getIndexKeys g' := hsame
    rw [uniqueIndex, uniqueIndex, hsame]

/-! ### Entries -/

section

variable {fold : String → String} {collation : Option Collation} {v w : Bson} {a b : Document}
  {key : String}

theorem isEqual_self (v : Bson) : isEqual fold collation v v = true := by
  unfold isEqual
  split <;> simp_all

theorem isEqual_symm (h : isEqual fold collation v w = true) :
    isEqual fold collation w v = true := by
  unfold isEqual at h ⊢
  split at h
  · cases collation <;> simpa [eq_comm] using h
  all_goals simp_all

theorem isEqual_mono (h : isEqual fold none v w = true) : isEqual fold collation v w = true := by
  unfold isEqual at h ⊢
  split at h <;> simp_all

theorem sharesKey_iff : sharesKey fold collation key a b = true ↔
    ∃ v ∈ indexEntries key a, ∃ w ∈ indexEntries key b, isEqual fold collation v w = true := by
  simp [sharesKey, List.any_eq_true]

theorem sharesKey_symm (h : sharesKey fold collation key a b = true) :
    sharesKey fold collation key b a = true := by
  obtain ⟨v, hv, w, hw, hvw⟩ := sharesKey_iff.mp h
  exact sharesKey_iff.mpr ⟨w, hw, v, hv, isEqual_symm hvw⟩

theorem sharesKey_mono (h : sharesKey fold none key a b = true) :
    sharesKey fold collation key a b = true := by
  obtain ⟨v, hv, w, hw, hvw⟩ := sharesKey_iff.mp h
  exact sharesKey_iff.mpr ⟨v, hv, w, hw, isEqual_mono hvw⟩

theorem indexEntries_field (hkey : '.' ∉ key.toList) (a : Document) :
    indexEntries key a = entriesOf (Value.get key a) := by
  rw [indexEntries, pathParts_name hkey, Value.reached_field, List.flatMap_singleton]

theorem exists_entry (v : Bson) : ∃ w, w ∈ entriesOf v := by
  unfold entriesOf
  split
  · exact ⟨_, List.mem_singleton_self _⟩
  · rename_i items hne
    cases items with
    | nil => exact absurd rfl hne
    | cons w items => exact ⟨w, List.mem_cons_self⟩
  · exact ⟨_, List.mem_singleton_self _⟩

theorem sharesKey_of_eq (hkey : '.' ∉ key.toList) (h : Value.get key a = Value.get key b) :
    sharesKey fold collation key a b = true := by
  obtain ⟨w, hw⟩ := exists_entry (Value.get key a)
  refine sharesKey_iff.mpr ⟨w, ?_, w, ?_, isEqual_self w⟩
  · rwa [indexEntries_field hkey]
  · rwa [indexEntries_field hkey, ← h]

theorem isDuplicate_symm {indexes : List IndexModel} (h : isDuplicate fold indexes a b = true) :
    isDuplicate fold indexes b a = true := by
  simp only [isDuplicate, IndexModel.isDuplicate, Bool.or_eq_true, List.any_eq_true,
    Bool.and_eq_true, List.all_eq_true] at h ⊢
  obtain h | ⟨index, hindex, hunique, hall⟩ := h
  · exact .inl (sharesKey_symm h)
  · exact .inr ⟨index, hindex, hunique, fun key hkey => sharesKey_symm (hall key hkey)⟩

/-- Whether two documents share the values of a unique group, as its index compares them. -/
def SharesGroup (fold : String → String) (spec : StorageSpec) (group : List String)
    (a b : Document) : Prop :=
  ∀ key ∈ getIndexKeys group,
    sharesKey fold (getIndexCollation spec (getIndexKeys group)) key.1 a b = true

/-- **What a schema's indexes keep apart**: documents of one `_id`, or that share a unique group's
values. -/
theorem isDuplicate_getIndexes {schema : Schema} :
    isDuplicate fold (getIndexes schema) a b = true ↔
      sharesKey fold none keyField a b = true ∨ ∃ group ∈ schema.storage.unique,
        getIndexKeys group ≠ [(keyField, false)] ∧ SharesGroup fold schema.storage group a b := by
  rw [isDuplicate, Bool.or_eq_true, List.any_eq_true]
  refine or_congr_right ⟨?_, ?_⟩
  · rintro ⟨index, hmem, hindex⟩
    rw [IndexModel.isDuplicate, Bool.and_eq_true, List.all_eq_true] at hindex
    obtain ⟨group, hgroup, rfl, hkeys⟩ := mem_getIndexes.mp ⟨hmem, hindex.1⟩
    exact ⟨group, hgroup, hkeys, hindex.2⟩
  · rintro ⟨group, hgroup, hkeys, hshares⟩
    refine ⟨_, (mem_getIndexes.mpr ⟨group, hgroup, rfl, hkeys⟩).1, ?_⟩
    rw [IndexModel.isDuplicate, Bool.and_eq_true, List.all_eq_true]
    exact ⟨rfl, hshares⟩

end

end Mongo

/-! ## Documents kept apart -/

namespace MongoCollection

variable (collection : MongoCollection)

/-- The indexes keep the documents apart. -/
def Apart (documents : List Document) : Prop :=
  documents.Pairwise fun a b => collection.isDuplicate a b = false

variable {collection} {documents documents' : List Document} {document : Document}

theorem clashes_eq_false_iff :
    collection.clashes document documents = false ↔
      ∀ d ∈ documents, collection.isDuplicate document d = false := by
  simp [clashes, List.any_eq_false]

variable (hsymm : ∀ a b, collection.isDuplicate a b = true → collection.isDuplicate b a = true)
include hsymm

theorem isDuplicate_false_symm {a b : Document} (h : collection.isDuplicate a b = false) :
    collection.isDuplicate b a = false := by
  by_contra hne
  rw [Bool.not_eq_false] at hne
  rw [hsymm b a hne] at h
  cases h

theorem apart_insertOne (h : collection.insertOne documents document = .ok documents')
    (hapart : collection.Apart documents) : collection.Apart documents' := by
  obtain ⟨_, hclashes, rfl⟩ := insertOne_ok_iff.mp h
  refine List.pairwise_append.mpr ⟨hapart, List.pairwise_singleton _ _, ?_⟩
  intro a ha b hb
  rw [List.mem_singleton.mp hb]
  exact isDuplicate_false_symm hsymm (clashes_eq_false_iff.mp hclashes a ha)

theorem apart_updateAt {update : Document} {place : ℕ}
    (h : collection.updateAt update documents place = .ok documents')
    (hapart : collection.Apart documents) : collection.Apart documents' := by
  unfold updateAt at h
  split at h
  · cases h
    exact hapart
  · rename_i before hbefore
    obtain ⟨after, hupdated, h⟩ := bind_ok h
    cases h
    have hothers : ∀ i (hi : i < documents.length), i ≠ place →
        collection.isDuplicate after documents[i] = false := by
      intro i hi hne
      unfold updated at hupdated
      split at hupdated
      · cases hupdated
      · split_ifs at hupdated with _ hclashes
        cases hupdated
        rw [Bool.not_eq_true] at hclashes
        exact clashes_eq_false_iff.mp hclashes _
          (List.mem_eraseIdx_iff_getElem.mpr ⟨i, hi, hne, rfl⟩)
    refine List.pairwise_iff_getElem.mpr fun i j hi hj hij => ?_
    rw [List.length_set] at hi hj
    rw [List.getElem_set, List.getElem_set]
    split_ifs with h₁ h₂ h₂
    · omega
    · exact hothers j hj (Ne.symm h₂)
    · exact isDuplicate_false_symm hsymm (hothers i hi (Ne.symm h₁))
    · exact List.pairwise_iff_getElem.mp hapart i j hi hj hij

end MongoCollection

namespace MongoStore

variable {validate : Value Scalar → Except ValidationError Record} {collection : MongoCollection}
  {schema : Schema} {now : ℤ} {newId : ℕ → String} {documents : List Document}

theorem state_andThen {A : Type} {p : List Document → Prop} {converted : Except FindError A}
    {command : A → Outcome CallError (List Document) Answer} (hp : p documents)
    (hcommand : ∀ a, p (command a).state) : p (andThen converted documents command).state := by
  cases converted with
  | error e => exact hp
  | ok a => exact hcommand a

theorem state_answerRecord (returned : Option Document) (documents' : List Document) :
    (answerRecord validate schema returned documents').state = documents' := by
  unfold answerRecord
  split
  · rfl
  · split <;> rfl

theorem state_answerCommand {p : List Document → Prop} (hp : p documents)
    {result : Except ServerError (Option Document × List Document)}
    (hresult : ∀ returned documents', result = .ok (returned, documents') → p documents') :
    p (answerCommand validate schema documents result).state := by
  cases result with
  | error e => exact hp
  | ok answer =>
    change p (answerRecord validate schema answer.1 answer.2).state
    rw [state_answerRecord]
    exact hresult answer.1 answer.2 rfl

/-- **A write keeps apart what the indexes do.** -/
theorem apart_write
    (hsymm : ∀ a b, collection.isDuplicate a b = true → collection.isDuplicate b a = true)
    (write : Write) (hapart : collection.Apart documents) :
    collection.Apart
      (MongoStore.write validate collection schema now newId write documents).state := by
  cases write with
  | insert record =>
    refine state_andThen hapart fun document => ?_
    cases hinsert : collection.insertOne documents (withKey (newId 0) document) with
    | error e => exact hapart
    | ok documents' => exact MongoCollection.apart_insertOne hsymm hinsert hapart
  | insertMany records =>
    change collection.Apart (insertMany collection schema newId records documents).state
    unfold insertMany
    split
    · exact hapart
    · exact state_andThen hapart fun batch =>
        writeEach_invariant (fun _ _ _ h => MongoCollection.apart_insertOne hsymm h) batch hapart
  | updateOne filter update shouldUpsert returning =>
    refine state_andThen hapart fun asked => state_answerCommand hapart ?_
    intro returned documents' hresult
    unfold MongoCollection.findOneAndUpdate at hresult
    split at hresult
    · split at hresult
      · unfold MongoCollection.upsertOne at hresult
        split at hresult
        · cases hresult
        · obtain ⟨documents₁, hinsert, hanswer⟩ := bind_ok hresult
          cases hanswer
          exact MongoCollection.apart_insertOne hsymm hinsert hapart
      · cases hresult
        exact hapart
    · obtain ⟨documents₁, hupdate, hanswer⟩ := bind_ok hresult
      cases hanswer
      exact MongoCollection.apart_updateAt hsymm hupdate hapart
  | updateMany filter update =>
    exact state_andThen hapart fun asked =>
      writeEach_invariant (fun _ _ _ h => MongoCollection.apart_updateAt hsymm h) _ hapart
  | deleteOne filter =>
    refine state_andThen hapart fun query => ?_
    change collection.Apart (answerRecord validate schema _
      (collection.findOneAndDelete (getQueryCollation schema filter) query documents).2).state
    rw [state_answerRecord, MongoCollection.findOneAndDelete]
    split
    · exact hapart
    · exact hapart.sublist (List.eraseIdx_sublist _ _)

/-! ### Inserts -/

variable {fold : String → String} {document : Document}

/-- **The key of a document, or a unique group's values, are stored already.** -/
def Taken (fold : String → String) (schema : Schema) (documents : List Document)
    (document : Document) : Prop :=
  ∃ d ∈ documents, sharesKey fold none (getDocumentField schema.storage.key) document d = true ∨
    ∃ group ∈ schema.storage.unique, SharesGroup fold schema.storage group document d

/-- The `_id` of a document is no other's, where it is not its key. -/
def HasFreshId (fold : String → String) (schema : Schema) (documents : List Document)
    (document : Document) : Prop :=
  schema.storage.key = "id" ∨
    ∀ d ∈ documents, sharesKey fold none keyField document d = false

end MongoStore

theorem app_fields : ∀ app ∈ appSchemas,
    (∀ group ∈ app.storage.unique, getIndexKeys group ≠ [(keyField, false)]) ∧
      getIndexKeys [app.storage.key] = [(getDocumentField app.storage.key, false)] ∧
      '.' ∉ (getDocumentField app.storage.key).toList ∧ app.storage.key ≠ rowId ∧
      getColumnType (.scalar app.keyType) ≠ .json ∧
      (app.storage.hasUniqueKey = false →
        app.storage.unique = [] ∧ getDocumentField app.storage.key ≠ keyField) := by
  decide +kernel

section

variable {schema : Schema} {app : AppSchema} {fold : String → String} {a b : Document}

theorem isDuplicate_of_sharesKey (happ : app ∈ appSchemas) (his : schema.Is app)
    (hunique : app.storage.hasUniqueKey = true)
    (hkey : sharesKey fold none (getDocumentField schema.storage.key) a b = true) :
    isDuplicate fold (getIndexes schema) a b = true := by
  obtain ⟨hgroups, hkeys, -⟩ := app_fields app happ
  rw [his.1] at hkey
  rw [isDuplicate_getIndexes, his.1]
  rw [StorageSpec.hasUniqueKey, Bool.or_eq_true, decide_eq_true_iff, List.contains_iff_mem]
    at hunique
  obtain hid | hgroup := hunique
  · rw [hid] at hkey
    exact .inl hkey
  · refine .inr ⟨_, hgroup, hgroups _ hgroup, fun key hmem => ?_⟩
    rw [hkeys, List.mem_singleton] at hmem
    rw [hmem]
    exact sharesKey_mono hkey

/-- **The indexes keep the key of a schema of the app apart** if, and only if, it is `_id` or is
declared unique. -/
theorem keepsKeys_iff (happ : app ∈ appSchemas) (his : schema.Is app) (fold : String → String) :
    (∀ a b : Document, isDuplicate fold (getIndexes schema) a b = false →
      Value.get (getDocumentField schema.storage.key) a ≠
        Value.get (getDocumentField schema.storage.key) b) ↔
      app.storage.hasUniqueKey = true := by
  obtain ⟨-, -, hundotted, -, -, hnone⟩ := app_fields app happ
  constructor
  · intro h
    by_contra hunique
    rw [Bool.not_eq_true] at hunique
    obtain ⟨hgroups, hkey⟩ := hnone hunique
    -- two documents of different ids and no other fields
    let a : Document := [(keyField, .scalar (.objectId "a"))]
    let b : Document := [(keyField, .scalar (.objectId "b"))]
    have hapart : isDuplicate fold (getIndexes schema) a b = false := by
      rw [← Bool.not_eq_true, isDuplicate_getIndexes, his.1, hgroups]
      simp [a, b, sharesKey_iff, indexEntries_field (show '.' ∉ keyField.toList by decide),
        Value.get, entriesOf, isEqual]
    have hmissing (d : Document) (hd : d = a ∨ d = b) :
        Value.get (getDocumentField schema.storage.key) d = .null := by
      rw [his.1]
      obtain rfl | rfl := hd <;>
        simp [a, b, Value.get, List.lookup_cons, beq_false_of_ne hkey]
    exact h a b hapart ((hmissing a (.inl rfl)).trans (hmissing b (.inr rfl)).symm)
  · intro hunique a b hapart hsame
    have hshares : sharesKey fold none (getDocumentField schema.storage.key) a b = true :=
      sharesKey_of_eq (by rw [his.1]; exact hundotted) hsame
    rw [isDuplicate_of_sharesKey happ his hunique hshares] at hapart
    cases hapart

namespace MongoStore

variable {collection : MongoCollection} {newId : ℕ → String} {documents : List Document}
  {document : Document}

theorem clashes_iff (happ : app ∈ appSchemas) (his : schema.Is app)
    (hunique : app.storage.hasUniqueKey = true)
    (hindexes : collection.isDuplicate = isDuplicate fold (getIndexes schema))
    (hfresh : HasFreshId fold schema documents document) :
    collection.clashes document documents = true ↔ Taken fold schema documents document := by
  rw [MongoCollection.clashes, List.any_eq_true, hindexes]
  refine exists_congr fun d => and_congr_right fun hd => ⟨fun h => ?_, ?_⟩
  · obtain hid | ⟨group, hgroup, -, hshares⟩ := isDuplicate_getIndexes.mp h
    · obtain hkey | hothers := hfresh
      · rw [hkey]
        exact .inl hid
      · rw [hothers d hd] at hid
        cases hid
    · exact .inr ⟨group, hgroup, hshares⟩
  · rintro (hkey | ⟨group, hgroup, hshares⟩)
    · exact isDuplicate_of_sharesKey happ his hunique hkey
    · refine isDuplicate_getIndexes.mpr (.inr ⟨group, hgroup, ?_, hshares⟩)
      rw [his.1] at hgroup
      exact (app_fields app happ).1 group hgroup

theorem translate_eq_duplicateKey {e : ServerError} :
    translateDuplicateKeyErrors e = .duplicateKey ↔ e = .duplicateKey := by
  cases e <;> simp [translateDuplicateKeyErrors]

/-- **An insert in MongoDB raises `DuplicateKeyError` exactly where what it inserts is taken.** -/
theorem insert_duplicate_iff (happ : app ∈ appSchemas) (his : schema.Is app)
    (hunique : app.storage.hasUniqueKey = true)
    (hindexes : collection.isDuplicate = isDuplicate fold (getIndexes schema)) {record : Record}
    (hdocument : convertToDocument schema record = .ok document)
    (haccepts : collection.accepts (withKey (newId 0) document) = true)
    (hfresh : HasFreshId fold schema documents (withKey (newId 0) document)) :
    (insert collection schema newId record documents).result = .error .duplicateKey ↔
      Taken fold schema documents (withKey (newId 0) document) := by
  rw [← clashes_iff happ his hunique hindexes hfresh]
  unfold insert andThen
  simp only [hdocument, MongoCollection.insertOne, haccepts, if_true]
  cases collection.clashes (withKey (newId 0) document) documents with
  | true => simp [Outcome.refuse, translateDuplicateKeyErrors]
  | false => simp

/-- **So does an insert of many**, for a document of the batch or another. -/
theorem insertMany_duplicate_iff (happ : app ∈ appSchemas) (his : schema.Is app)
    (hunique : app.storage.hasUniqueKey = true)
    (hindexes : collection.isDuplicate = isDuplicate fold (getIndexes schema))
    {records : List Record} {batch : List Document}
    (hbatch : batchOf schema newId records = .ok batch)
    (haccepts : ∀ document ∈ batch, collection.accepts document = true)
    (hfresh : ∀ earlier document later, batch = earlier ++ document :: later →
      HasFreshId fold schema (documents ++ earlier) document) :
    (insertMany collection schema newId records documents).result = .error .duplicateKey ↔
      ∃ earlier document later, batch = earlier ++ document :: later ∧
        Taken fold schema (documents ++ earlier) document := by
  have hclashes {earlier document later} (h : batch = earlier ++ document :: later) :=
    clashes_iff happ his hunique hindexes (hfresh earlier document later h)
  have hresult : (insertMany collection schema newId records documents).result =
      .error .duplicateKey ↔
        (collection.insertMany documents batch).result = .error .duplicateKey := by
    unfold insertMany
    split_ifs with hempty
    · rw [List.isEmpty_iff.mp hempty] at hbatch
      cases hbatch
      exact iff_of_false (fun h => by cases h) fun h => by cases h
    · unfold andThen
      simp only [hbatch]
      cases hbulk : (collection.insertMany documents batch).result with
      | ok u => simp [Except.mapError, Except.map]
      | error e => simp [Except.mapError, Except.map, translate_eq_duplicateKey]
  rw [hresult]
  constructor
  · intro h
    obtain ⟨earlier, document, later, hsplit, hearlier, hduplicate⟩ := writeEach_error h
    refine ⟨earlier, document, later, hsplit, (hclashes hsplit).mp ?_⟩
    rw [(MongoCollection.insertAll_ok_iff.mp hearlier).2] at hduplicate
    exact (MongoCollection.insertOne_duplicate_iff.mp hduplicate).2
  · rintro ⟨earlier, document, later, hsplit, htaken⟩
    cases hbulk : (collection.insertMany documents batch).result with
    | ok u =>
      have htakes := (MongoCollection.insertAll_ok_iff.mp (writeEach_ok hbulk)).1
      rw [hsplit, MongoCollection.takes_append] at htakes
      obtain ⟨-, -, hfree, -⟩ := htakes
      rw [(hclashes hsplit).mpr htaken] at hfree
      cases hfree
    | error e =>
      obtain ⟨before, refused, after, hsplit', -, hrefused⟩ := writeEach_error hbulk
      have hmem : refused ∈ batch := by rw [hsplit']; simp
      unfold MongoCollection.insertOne at hrefused
      rw [if_pos (haccepts refused hmem)] at hrefused
      split_ifs at hrefused
      cases hrefused
      rfl

end MongoStore

end

/-! ## SQL -/

namespace SqlStore

variable {engine : SqlEngine} {tables : SchemaTables}

/-- The row that an insert would add. -/
def nextRow (s : engine.Tables tables) (newId : String) (record : Record) : Row :=
  newRow engine tables newId record (nextRowId s.rows)

/-- **The key of a record, or a unique group's values, are stored already.** -/
def Taken (s : engine.Tables tables) (newId : String) (record : Record) : Prop :=
  ∃ row ∈ s.rows, ∃ columns ∈ uniqueColumns tables.schema.storage,
    clashes engine.database columns row (nextRow s newId record) = true

/-- A record that can be stored, but for what is stored: its columns take its values, its key is not
None, and its lists hold nothing twice. -/
structure IsStorable (s : engine.Tables tables) (newId : String) (record : Record) : Prop where
  columns : ∀ column ∈ tables.columns, Fits column.2 (nextRow s newId record column.1) ∧
    inRange (nextRow s newId record column.1) = true
  key : isNullValue (nextRow s newId record tables.schema.storage.key) = false
  once : HoldsOnce engine tables newId record

section

variable {s : engine.Tables tables} {newId : String} {record : Record}

theorem rowIdOf_nextRow : rowIdOf (nextRow s newId record) = nextRowId s.rows := by
  simp [nextRow, newRow, recordRow, rowIdOf, rowOf, Value.get, orderKey, Scalar.toInt]

theorem lt_nextRowId {rows : List Row} {row : Row} (h : row ∈ rows) :
    rowIdOf row < nextRowId rows := by
  unfold nextRowId
  cases hmax : (rows.map rowIdOf).max? with
  | none =>
    rw [List.max?_eq_none_iff, List.map_eq_nil_iff] at hmax
    rw [hmax] at h
    cases h
  | some m =>
    have hle := (List.max?_eq_some_iff.mp hmax).2 (rowIdOf row) (List.mem_map_of_mem h)
    simp only [Option.map_some, Option.getD_some]
    omega

theorem unique_insertRow_iff :
    ({ s.toRawTables with rows := s.rows ++ [nextRow s newId record] } : RawTables).Unique
      engine.database tables ↔ ¬ Taken s newId record := by
  constructor
  · rintro ⟨-, hcolumns, -⟩ ⟨row, hrow, columns, hmem, hclash⟩
    have := (List.pairwise_append.mp (hcolumns columns hmem)).2.2 row hrow _ List.mem_cons_self
    rw [hclash] at this
    cases this
  · intro hfree
    refine ⟨?_, fun columns hmem => ?_, s.unique.2.2⟩
    · refine List.pairwise_append.mpr ⟨s.unique.1, List.pairwise_singleton _ _, ?_⟩
      intro row hrow new hnew
      rw [List.mem_singleton.mp hnew, rowIdOf_nextRow]
      exact lt_nextRowId hrow
    · refine List.pairwise_append.mpr ⟨s.unique.2.1 columns hmem, List.pairwise_singleton _ _, ?_⟩
      intro row hrow new hnew
      rw [List.mem_singleton.mp hnew, ← Bool.not_eq_true]
      exact fun hclash => hfree ⟨row, hrow, columns, hmem, hclash⟩

theorem insertRow_unique_iff (hstorable : IsStorable s newId record) :
    insertRow s (nextRow s newId record) = .error (.integrity .unique) ↔ Taken s newId record := by
  rw [insertRow, execute_unique_iff, unique_insertRow_iff, not_not]
  refine Iff.trans (and_iff_right ⟨fun row hrow => ?_, s.typed.2⟩)
    (and_iff_right ⟨fun row hrow => ?_, s.notNull.2⟩)
  · obtain hrow | hrow := List.mem_append.mp hrow
    · exact s.typed.1 row hrow
    · rw [List.mem_singleton.mp hrow]
      exact hstorable.columns
  · obtain hrow | hrow := List.mem_append.mp hrow
    · exact s.notNull.1 row hrow
    · rw [List.mem_singleton.mp hrow]
      exact hstorable.key

theorem insertList_not_unique {schema : Schema} {childFields : List String}
    (hof : tables.Of schema childFields) (honce : HoldsOnce engine tables newId record)
    {s' : engine.Tables tables} {list : String × ListTable} (hmem : list ∈ tables.listTables)
    (hold : ∀ child ∈ s'.childRows list.1, isChildOf (child list.2.parentColumn)
      (boundKey engine.database.dialect tables
        ((withId tables.schema newId record).get tables.schema.storage.key)) = false) :
    insertList engine.isoformat (withId tables.schema newId record) s' list ≠
      .error (.integrity .unique) := by
  intro h
  obtain h | ⟨elements, hitems, h⟩ := bind_error h
  · obtain ⟨_, _, h⟩ := mapError_error h
    cases h
  · split at h
    · cases h
    · obtain h | ⟨children, hchildren, h⟩ := bind_error h
      · obtain ⟨_, _, h⟩ := mapError_error h
        cases h
      · have hnew : newChildRows engine tables newId record list = .ok children := by
          rw [newChildRows, mapError_ok hitems]
          exact mapError_ok hchildren
        obtain ⟨hkeys, hdifferent⟩ := newChildRows_spec hof hmem honce hnew
        refine (execute_unique_iff.mp h).2.2 ⟨s'.unique.1, s'.unique.2.1, fun other hother => ?_⟩
        rw [childRows_withChildRows]
        by_cases hname : other.1 = list.1
        · rw [hname, Function.update_self, eq_of_name hof hother
            (hname ▸ lookup_of_mem hof.names hmem)]
          refine List.pairwise_append.mpr ⟨s'.unique.2.2 list hmem, hdifferent, ?_⟩
          intro child hchild new hnew
          rw [ListTable.primaryKey, List.all_cons, hkeys new hnew, hold child hchild,
            Bool.false_and]
        · rw [Function.update_of_ne hname]
          exact s'.unique.2.2 other hother

/-- **An insert in SQL raises a unique violation exactly where what it inserts is taken.** -/
theorem insertRecord_unique_iff {schema : Schema} {childFields : List String}
    (hof : tables.Of schema childFields) {type : ColumnType}
    (hcolumn : tables.columns.lookup tables.schema.storage.key = some type)
    (hjson : type ≠ .json) (hid : tables.schema.storage.key ≠ rowId)
    (hstorable : IsStorable s newId record) :
    insertRecord engine.isoformat s newId record = .error (.integrity .unique) ↔
      Taken s newId record := by
  constructor
  · intro h
    obtain h | ⟨s₁, hinsert, h⟩ := bind_error h
    · exact (insertRow_unique_iff hstorable).mp h
    · obtain ⟨earlier, list, later, s', hsplit, hearlier, hlist⟩ := foldlM_error h
      have hmem : list ∈ tables.listTables := by
        rw [hsplit]
        exact List.mem_append_right _ List.mem_cons_self
      have hnames := hof.names
      rw [hsplit, List.map_append, List.map_cons, List.nodup_append] at hnames
      obtain ⟨-, -, hothers⟩ := insertLists_rows hnames.1 hearlier
      have hraw := toRaw_of_execute hinsert
      have hsame : s'.childRows list.1 = s.childRows list.1 := by
        have hnew : list.1 ∉ earlier.map Prod.fst := fun hin =>
          hnames.2.2 _ hin _ List.mem_cons_self rfl
        rw [hothers _ hnew, hraw]
      refine absurd hlist (insertList_not_unique hof hstorable.once hmem fun child hchild => ?_)
      rw [hsame] at hchild
      rw [← recordRow_key hof hcolumn hjson hid (withId tables.schema newId record)
        (nextRowId s.rows)]
      exact childRows_apart hinsert hmem hchild
  · intro htaken
    have hrow := (insertRow_unique_iff hstorable).mpr htaken
    have hbind : insertRecord engine.isoformat s newId record =
        insertRow s (nextRow s newId record) >>= fun s' => tables.listTables.foldlM
          (insertList engine.isoformat (withId tables.schema newId record)) s' := rfl
    rw [hbind, hrow]
    rfl

/-! ### Calls -/

theorem translate_eq_duplicateKey {e : WriteError} :
    translateUniqueViolations e = .duplicateKey ↔ e = .integrity .unique := by
  obtain error | violation | _ | _ := e
  case integrity => cases violation <;> simp [translateUniqueViolations]
  all_goals simp [translateUniqueViolations, WriteError.toCall]

theorem inTransaction_duplicate_iff {α : Type} {answer : α → Answer}
    {body : engine.Tables tables → Except WriteError (α × engine.Tables tables)} :
    (inTransaction engine translateUniqueViolations answer body s).result = .error .duplicateKey ↔
      body s = .error (.integrity .unique) := by
  unfold inTransaction transact Outcome.mapError
  cases hbody : body s with
  | ok r =>
    simp only [hbody]
    exact iff_of_false (fun h => by cases h) fun h => by cases h
  | error e =>
    simp only [hbody]
    change Except.error (translateUniqueViolations e) = Except.error .duplicateKey ↔ _
    rw [Except.error.injEq, Except.error.injEq, translate_eq_duplicateKey]

theorem map_eq_error_iff {ε A B : Type} {x : Except ε A} {f : A → B} {e : ε} :
    (x >>= fun a => pure (f a)) = .error e ↔ x = .error e := by
  cases x with
  | ok a => exact iff_of_false (fun h => by cases h) fun h => by cases h
  | error e' => exact ⟨fun h => by cases h; rfl, fun h => by cases h; rfl⟩

variable {schema : Schema} {app : AppSchema} {ids : ℕ → String}

theorem keyColumn (hsome : getTablesOf schema = some tables) (happ : app ∈ appSchemas)
    (his : schema.Is app) : ∃ type, tables.columns.lookup tables.schema.storage.key = some type ∧
      type ≠ .json ∧ tables.schema.storage.key ≠ rowId := by
  obtain ⟨childFields, hof⟩ := getTablesOf_spec hsome
  obtain ⟨-, -, -, hid, hjson, -⟩ := app_fields app happ
  rw [hof.schema_eq, his.1]
  have hlookup := hof.lookup_columns hid
  rw [show schema.fields.lookup app.storage.key = _ from his.2] at hlookup
  split_ifs at hlookup with hchild
  · -- a list field holds no scalar
    obtain ⟨listTable, hmem⟩ := hof.childTable _ hchild
    have htable := (hof.isChild _ hmem).2
    simp only [getListTable, his.2] at htable
    cases htable
  · exact ⟨_, hlookup, hjson, hid⟩

/-- **An insert in SQL raises `DuplicateKeyError` exactly where what it inserts is taken.** -/
theorem insert_duplicate_iff (hsome : getTablesOf schema = some tables) (happ : app ∈ appSchemas)
    (his : schema.Is app) (hstorable : IsStorable s (ids 0) record) :
    (insert engine ids record s).result = .error .duplicateKey ↔ Taken s (ids 0) record := by
  obtain ⟨childFields, hof⟩ := getTablesOf_spec hsome
  obtain ⟨type, hcolumn, hjson, hid⟩ := keyColumn hsome happ his
  rw [← insertRecord_unique_iff hof hcolumn hjson hid hstorable]
  exact inTransaction_duplicate_iff.trans map_eq_error_iff

/-- **So does an insert of many**, for a record of the batch. -/
theorem insertMany_duplicate_iff (hsome : getTablesOf schema = some tables)
    (happ : app ∈ appSchemas) (his : schema.Is app) {records : List Record}
    (hstorable : ∀ earlier record later s', records.zipIdx = earlier ++ record :: later →
      earlier.foldlM (insertNumbered engine ids) s = .ok s' →
        IsStorable s' (ids record.2) record.1) :
    (insertMany engine ids records s).result = .error .duplicateKey ↔
      ∃ earlier record later s', records.zipIdx = earlier ++ record :: later ∧
        earlier.foldlM (insertNumbered engine ids) s = .ok s' ∧ Taken s' (ids record.2) record.1 := by
  obtain ⟨childFields, hof⟩ := getTablesOf_spec hsome
  obtain ⟨type, hcolumn, hjson, hid⟩ := keyColumn hsome happ his
  refine inTransaction_duplicate_iff.trans (map_eq_error_iff.trans ⟨fun h => ?_, ?_⟩)
  · obtain ⟨earlier, record, later, s', hsplit, hearlier, hrecord⟩ := foldlM_error h
    have hthis := hstorable earlier record later s' hsplit hearlier
    exact ⟨earlier, record, later, s', hsplit, hearlier,
      (insertRecord_unique_iff hof hcolumn hjson hid hthis).mp hrecord⟩
  · rintro ⟨earlier, record, later, s', hsplit, hearlier, htaken⟩
    have hthis := hstorable earlier record later s' hsplit hearlier
    rw [hsplit]
    exact foldlM_of_error hearlier
      ((insertRecord_unique_iff hof hcolumn hjson hid hthis).mpr htaken)

end

end SqlStore

/-! ## Both stores -/

section

/-- No two rows hold one key. -/
def SqlStore.KeysApart {engine : SqlEngine} {tables : SchemaTables} (s : engine.Tables tables) :
    Prop :=
  s.rows.Pairwise fun a b => ∀ k, a tables.schema.storage.key = .scalar k →
    b tables.schema.storage.key ≠ .scalar k

/-- **In SQL an insert raises `DuplicateKeyError` exactly where what it inserts is taken**, by what is
stored or by a record of its batch. -/
def SqlStore.RefusesTaken {engine : SqlEngine} {tables : SchemaTables} (schema : Schema)
    (s : engine.Tables tables) : Prop :=
  ∀ (now : ℕ → ℤ) (ids : ℕ → String),
    (∀ record, IsStorable s (ids 0) record →
      ((Database.write schema (SqlStore.write engine now ids) (.insert record) s).result =
        .error .duplicateKey ↔ Taken s (ids 0) record)) ∧
    ∀ records, (∀ earlier record later s', records.zipIdx = earlier ++ record :: later →
        earlier.foldlM (insertNumbered engine ids) s = .ok s' →
          IsStorable s' (ids record.2) record.1) →
      ((Database.write schema (SqlStore.write engine now ids) (.insertMany records) s).result =
        .error .duplicateKey ↔
        ∃ earlier record later s', records.zipIdx = earlier ++ record :: later ∧
          earlier.foldlM (insertNumbered engine ids) s = .ok s' ∧
            Taken s' (ids record.2) record.1)

/-- No two documents have one key. -/
def MongoStore.KeysApart (schema : Schema) (documents : List Document) : Prop :=
  documents.Pairwise fun a b => Value.get (getDocumentField schema.storage.key) a ≠
    Value.get (getDocumentField schema.storage.key) b

/-- **In MongoDB an insert raises `DuplicateKeyError` exactly where what it inserts is taken**, if the
validator takes it and its `_id` is new. -/
def MongoStore.RefusesTaken (validate : Value Scalar → Except ValidationError Record)
    (collection : MongoCollection) (fold : String → String) (schema : Schema)
    (documents : List Document) : Prop :=
  ∀ (now : ℤ) (ids : ℕ → String),
    (∀ record document, convertToDocument schema record = .ok document →
      collection.accepts (withKey (ids 0) document) = true →
      HasFreshId fold schema documents (withKey (ids 0) document) →
      ((Database.write schema (MongoStore.write validate collection schema now ids)
        (.insert record) documents).result = .error .duplicateKey ↔
          Taken fold schema documents (withKey (ids 0) document))) ∧
    ∀ records batch, batchOf schema ids records = .ok batch →
      (∀ document ∈ batch, collection.accepts document = true) →
      (∀ earlier document later, batch = earlier ++ document :: later →
        HasFreshId fold schema (documents ++ earlier) document) →
      ((Database.write schema (MongoStore.write validate collection schema now ids)
        (.insertMany records) documents).result = .error .duplicateKey ↔
          ∃ earlier document later, batch = earlier ++ document :: later ∧
            Taken fold schema (documents ++ earlier) document)

variable {app : AppSchema} {schema : Schema} {tables : SchemaTables}

theorem SqlStore.keysApart {engine : SqlEngine} (s : engine.Tables tables) :
    SqlStore.KeysApart s := by
  refine (s.unique.2.1 [⟨tables.schema.storage.key, false⟩] List.mem_cons_self).imp ?_
  intro a b hclash k ha hb
  simp [clashes, SqlDatabase.read, ha, hb, isChildOf_scalar] at hclash

/-- **The key of a schema of the app identifies one record.** In SQL no two records have one key after
any run. In MongoDB none have if the key is `_id` or is declared unique, and only then do the indexes
keep keys apart. In both an insert then raises `DuplicateKeyError` exactly where the key, or a unique
group's values, are taken. -/
theorem keys_identify (happ : app ∈ appSchemas) (his : schema.Is app)
    (hsome : getTablesOf schema = some tables) (engine : SqlEngine)
    (validate : Value Scalar → Except ValidationError Record) (collection : MongoCollection)
    (fold : String → String)
    (hindexes : collection.isDuplicate = isDuplicate fold (getIndexes schema))
    (calls : List Call) :
    (∀ s : engine.Tables tables,
      SqlStore.KeysApart (Database.run schema (SqlStore.write engine) calls s) ∧
        SqlStore.RefusesTaken schema (Database.run schema (SqlStore.write engine) calls s)) ∧
      ((∀ a b, collection.isDuplicate a b = false →
        Value.get (getDocumentField schema.storage.key) a ≠
          Value.get (getDocumentField schema.storage.key) b) ↔ app.storage.hasUniqueKey = true) ∧
      (app.storage.hasUniqueKey = true → ∀ documents, collection.Apart documents →
        MongoStore.KeysApart schema (Database.run schema
          (fun now => MongoStore.write validate collection schema (now 0)) calls documents) ∧
        MongoStore.RefusesTaken validate collection fold schema (Database.run schema
          (fun now => MongoStore.write validate collection schema (now 0)) calls documents)) := by
  have hkeeps := keepsKeys_iff happ his fold
  rw [← hindexes] at hkeeps
  refine ⟨fun s => ⟨SqlStore.keysApart _, fun now ids => ⟨fun record hstorable => ?_, ?_⟩⟩, hkeeps,
    fun hunique documents hapart => ⟨?_, fun now ids => ⟨?_, ?_⟩⟩⟩
  · exact SqlStore.insert_duplicate_iff hsome happ his hstorable
  · exact fun records hstorable => SqlStore.insertMany_duplicate_iff hsome happ his hstorable
  · have hsymm : ∀ a b, collection.isDuplicate a b = true → collection.isDuplicate b a = true := by
      rw [hindexes]
      exact fun a b => isDuplicate_symm
    refine (Database.run_invariant (p := collection.Apart) ?_ calls hapart).imp ?_
    · exact fun now newId write s hs => MongoStore.apart_write hsymm write hs
    · exact fun {a b} => hkeeps.mpr hunique a b
  · exact fun record document hdocument haccepts hfresh =>
      MongoStore.insert_duplicate_iff happ his hunique hindexes hdocument haccepts hfresh
  · exact fun records batch hbatch haccepts hfresh =>
      MongoStore.insertMany_duplicate_iff happ his hunique hindexes hbatch haccepts hfresh

end

/-! ## A nonce, and a device switched off -/

/-- The nonces of the backends' handshakes. -/
def nonceSchema : Schema where
  name := "BccNonce"
  fields := [("nonce", .scalar .str), ("device_name", .scalar .str),
    ("expires_at", .scalar .datetime)]
  allowsExtra := false
  storage := { table := "bcc_nonces", key := "nonce", unique := [["nonce"]]
               expires := some "expires_at" }
  undotted := by decide
  expiresAt := by decide

/-- The devices that are switched off. -/
def switchedOffSchema : Schema where
  name := "SwitchedOffDevice"
  fields := [("name", .scalar .str), ("switched_off_at", .scalar .datetime)]
  allowsExtra := false
  storage := { table := "switched_off_devices", key := "name" }
  undotted := by decide
  expiresAt := by decide

/-- The collection of a schema, with its indexes. -/
def indexed (schema : Schema) : MongoCollection :=
  { petCollection with isDuplicate := isDuplicate String.toLower (getIndexes schema) }

/-- A handshake's nonce. -/
def nonce : Record :=
  [("nonce", .scalar (.str "n")), ("device_name", .scalar (.str "loke")),
    ("expires_at", .scalar (.datetime 0 (some 0)))]

/-- A device that is switched off. -/
def loke : Record :=
  [("name", .scalar (.str "loke")), ("switched_off_at", .scalar (.datetime 0 (some 0)))]

/-- Two calls that insert a record, which get different ids. -/
def insertTwice (record : Record) : List Call :=
  [⟨.insert record, fun _ => 0, petId⟩, ⟨.insert record, fun _ => 0, fun n => petId (n + 1)⟩]

theorem keys_identify_nonce : MongoStore.KeysApart nonceSchema (Database.run nonceSchema
    (fun now => MongoStore.write (fun _ => .ok []) (indexed nonceSchema) nonceSchema (now 0))
    (insertTwice nonce) []) := by
  have hmem : (⟨"BccNonce", nonceSchema.storage, .str⟩ : AppSchema) ∈ appSchemas := by decide
  exact ((keys_identify hmem ⟨rfl, rfl⟩
    (Option.some_get (by decide +kernel : (getTablesOf nonceSchema).isSome = true)).symm petEngine
    (fun _ => .ok []) (indexed nonceSchema) String.toLower rfl (insertTwice nonce)).2.2 (by decide)
    [] .nil).1

/-- A device may be switched off twice in MongoDB: two records have its name. -/
theorem switched_off_twice :
    (⟨"SwitchedOffDevice", switchedOffSchema.storage, .str⟩ : AppSchema) ∈ appSchemas ∧
      (Database.run switchedOffSchema
        (fun now => MongoStore.write (fun _ => .ok []) (indexed switchedOffSchema) switchedOffSchema
          (now 0)) (insertTwice loke) []).map (Value.get "name") =
        [.scalar (.value (.text "loke")), .scalar (.value (.text "loke"))] ∧
      ¬ MongoStore.KeysApart switchedOffSchema (Database.run switchedOffSchema
        (fun now => MongoStore.write (fun _ => .ok []) (indexed switchedOffSchema) switchedOffSchema
          (now 0)) (insertTwice loke) []) := by
  have hnames : (Database.run switchedOffSchema
      (fun now => MongoStore.write (fun _ => .ok []) (indexed switchedOffSchema) switchedOffSchema
        (now 0)) (insertTwice loke) []).map (Value.get "name") =
      [.scalar (.value (.text "loke")), .scalar (.value (.text "loke"))] := by decide +kernel
  refine ⟨by decide, hnames, fun hapart => ?_⟩
  have hdifferent : ((Database.run switchedOffSchema
      (fun now => MongoStore.write (fun _ => .ok []) (indexed switchedOffSchema) switchedOffSchema
        (now 0)) (insertTwice loke) []).map (Value.get "name")).Pairwise (· ≠ ·) :=
    List.pairwise_map.mpr hapart
  rw [hnames] at hdifferent
  exact (List.pairwise_cons.mp hdifferent).1 _ List.mem_cons_self rfl

end Mss
