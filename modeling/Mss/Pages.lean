import Mss.Storage.MongoFilters
import Mss.FilterAgreement

/-!
# A find returns a slice

The records that a find returns are those at the positions from `skip` on, up to `limit`, of one
ordered list of the matched ones.

* `transCmp_compareRows`: an ORDER BY is an order.
* `NumberedRows.eq_of_inOrder`: with the row's id as its last clause, it decides between any two rows.
* `Slice`: the result of a find is a page of a list.
* `SqlStore.find_slice`, `SqlStore.find_pages`: every plan of the database cuts its pages from one
  list.
* `MongoStore.find_slice_iff`: a limit of 0 is no limit to MongoDB.
* **`find_slices`**: in SQL always, in MongoDB unless the limit is 0 and a record is left to return.
-/

namespace Mss

open Storage Std

/-! ## The order of rows -/

theorem Scalar.compare_swap (text : TextOrder) (a b : Scalar) :
    Scalar.compare text a b = (Scalar.compare text b a).swap := by
  cases a <;> cases b
  case bool.bool a b => exact OrientedOrd.eq_swap (a := a) (b := b)
  case int.int a b => exact OrientedOrd.eq_swap (a := a) (b := b)
  case float.float a b => exact OrientedOrd.eq_swap (a := a) (b := b)
  case datetime.datetime a b => exact OrientedOrd.eq_swap (a := a) (b := b)
  case text.text a b =>
    have h : text.cmp a b = (text.cmp b a).swap := OrientedCmp.eq_swap
    exact h
  all_goals rfl

theorem Scalar.isLE_trans (text : TextOrder) {a b c : Scalar}
    (hab : (Scalar.compare text a b).isLE) (hbc : (Scalar.compare text b c).isLE) :
    (Scalar.compare text a c).isLE := by
  cases a <;> cases b <;> cases c
  case bool.bool.bool => exact TransOrd.isLE_trans hab hbc
  case int.int.int => exact TransOrd.isLE_trans hab hbc
  case float.float.float => exact TransOrd.isLE_trans hab hbc
  case datetime.datetime.datetime => exact TransOrd.isLE_trans hab hbc
  case text.text.text =>
    have h {a b c} (hab : (text.cmp a b).isLE) (hbc : (text.cmp b c).isLE) : (text.cmp a c).isLE :=
      TransCmp.isLE_trans hab hbc
    exact h hab hbc
  all_goals first
    | rfl
    | exact absurd hab Bool.false_ne_true
    | exact absurd hbc Bool.false_ne_true

instance (text : TextOrder) : TransCmp (Scalar.compare text) where
  eq_swap := Scalar.compare_swap text _ _
  isLE_trans := Scalar.isLE_trans text

theorem OrderTerm.transCmp (text : TextOrder) (term : OrderTerm) : TransCmp (term.cmp text) := by
  have hdirected : TransCmp (if term.isDescending then fun x y => Scalar.compare text y x
      else Scalar.compare text) := by
    split
    · exact TransCmp.opposite
    · infer_instance
  have hnulls : TransCmp (compareNulls term.nullsFirst (if term.isDescending then
      fun x y => Scalar.compare text y x else Scalar.compare text)) := inferInstance
  exact { eq_swap := hnulls.eq_swap, isLE_trans := hnulls.isLE_trans }

/-- **An ORDER BY is an order.** -/
instance transCmp_compareRows (text : TextOrder) (order : List OrderTerm) :
    TransCmp (compareRows text order) := by
  refine transCmp_compareBy fun cmp hcmp => ?_
  obtain ⟨term, _, rfl⟩ := List.mem_map.mp hcmp
  exact term.transCmp text

theorem rowIdOf_of_cmp {text : TextOrder} {a b : Row} (h : rowIdTerm.cmp text a b = .eq) :
    rowIdOf a = rowIdOf b := by
  change compareNulls true (Scalar.compare text) (orderKey (a rowId)) (orderKey (b rowId)) = .eq at h
  unfold rowIdOf
  cases ha : orderKey (a rowId) with
  | none =>
    cases hb : orderKey (b rowId) with
    | none => rfl
    | some y =>
      rw [ha, hb] at h
      cases h
  | some x =>
    cases hb : orderKey (b rowId) with
    | none =>
      rw [ha, hb] at h
      cases h
    | some y =>
      rw [ha, hb] at h
      change Scalar.compare text x y = .eq at h
      show x.toInt = y.toInt
      cases x <;> cases y
      case int.int i j => exact LawfulEqOrd.eq_of_compare h
      all_goals first
        | rfl
        | cases h

theorem NumberedRows.eq_of_rowIdOf {tables : SchemaTables} (stored : NumberedRows tables) {a b : Row}
    (ha : a ∈ stored.rows) (hb : b ∈ stored.rows) (h : rowIdOf a = rowIdOf b) : a = b := by
  obtain ⟨i, hi, rfl⟩ := List.getElem_of_mem ha
  obtain ⟨j, hj, rfl⟩ := List.getElem_of_mem hb
  have hlt := List.pairwise_iff_getElem.mp stored.numbered
  rcases Nat.lt_trichotomy i j with hij | rfl | hij
  · have := hlt i j hi hj hij
    omega
  · rfl
  · have := hlt j i hj hi hij
    omega

/-- **An ORDER BY that ends with the row's id decides between any two rows.** -/
theorem NumberedRows.eq_of_inOrder {tables : SchemaTables} (stored : NumberedRows tables)
    {text : TextOrder} {order : List OrderTerm} (horder : rowIdTerm ∈ order) {a b : Row}
    (ha : a ∈ stored.rows) (hb : b ∈ stored.rows) (hab : InOrder text order a b)
    (hba : InOrder text order b a) : a = b := by
  have heq : compareRows text order a b = .eq := OrientedCmp.isLE_antisymm hab hba
  have hid := eq_of_compareBy heq _ (List.mem_map_of_mem horder)
  exact stored.eq_of_rowIdOf ha hb (rowIdOf_of_cmp hid)

theorem rowIdTerm_mem {tables : SchemaTables} {sort : List String} {order : List OrderTerm}
    (h : translateSort tables sort = .ok order) : rowIdTerm ∈ order := by
  obtain ⟨terms, _, h⟩ := bind_ok h
  cases h
  simp

/-! ## Finding -/

section

variable {R D : Type} {schema : Schema}

theorem mapM_readStored (hskip : schema.storage.shouldSkipInvalid = false)
    (convert : D → Except ValidationError R) (l : List D) :
    (l.mapM (readStored schema convert)).map List.reduceOption =
      l.mapM fun data => (convert data).mapError FindError.invalid := by
  have hread (data : D) : readStored schema convert data =
      ((convert data).mapError FindError.invalid).map some := by
    unfold readStored
    cases convert data with
    | ok record => rfl
    | error e => simp [hskip, Except.mapError, Except.map]
  induction l with
  | nil => rfl
  | cons data l ih =>
    rw [List.mapM_cons, List.mapM_cons, ← ih, hread]
    cases (convert data).mapError FindError.invalid with
    | error e => rfl
    | ok record => cases l.mapM (readStored schema convert) <;> rfl

theorem Database.find_of_checked {filter : Option Filter} {sort : List String}
    (hfilter : checkFilter schema (filter.getD []) = .ok ())
    (hsort : checkSort schema sort = .ok ())
    (storeFind : Filter → List String → ℕ → Option ℕ → Except FindError (List R)) (skip : ℕ)
    (limit : Option ℕ) :
    Database.find schema storeFind filter sort skip limit =
      storeFind (filter.getD []) sort skip limit := by
  rw [Database.find, hfilter, hsort]
  rfl

variable {lower : String → String} {database : SqlDatabase} {text : TextOrder}
  {tables : SchemaTables} {validate : Value Scalar → Except ValidationError R} {now : ℤ}
  {filter : Filter} {sort : List String} {clause : Clause} {order : List OrderTerm}

namespace SqlStore

theorem find_eq (hskip : tables.schema.storage.shouldSkipInvalid = false)
    {stored : StoredRows tables} (hclause : translateFilter lower tables now filter = .ok clause)
    (horder : translateSort tables sort = .ok order) (plan : SqlPlan text) (skip : ℕ)
    (limit : Option ℕ) :
    find lower database validate plan stored now filter sort skip limit =
      (selectRows database plan stored clause order skip limit).mapM
        (validateRow validate stored) := by
  have hread := mapM_readStored hskip (fun row => validate (stored.recordOf row))
    (selectRows database plan stored clause order skip limit)
  rw [find, findRecords, hclause, horder]
  exact hread

/-- The matched rows, in the one order that the clauses decide. -/
def orderedRows (database : SqlDatabase) (text : TextOrder) (stored : NumberedRows tables)
    (clause : Clause) (order : List OrderTerm) : List Row :=
  (Sorting.byMerging (compareRows text order)).run
    (matchedRows database stored.toStoredRows clause)

theorem selectRows_eq (stored : NumberedRows tables) (horder : translateSort tables sort = .ok order)
    (plan : SqlPlan text) (skip : ℕ) (limit : Option ℕ) :
    selectRows database plan stored.toStoredRows clause order skip limit =
      page skip limit (orderedRows database text stored clause order) := by
  have hone := (plan order).run_eq (Sorting.byMerging (compareRows text order))
    (l := matchedRows database stored.toStoredRows clause) fun a ha b hb =>
      stored.eq_of_inOrder (rowIdTerm_mem horder) (List.mem_filter.mp ha).1 (List.mem_filter.mp hb).1
  rw [selectRows, hone]
  rfl

/-- **A find in SQL returns a page of one list.** -/
theorem find_slice (hskip : tables.schema.storage.shouldSkipInvalid = false)
    (stored : NumberedRows tables) (hclause : translateFilter lower tables now filter = .ok clause)
    (horder : translateSort tables sort = .ok order) (plan : SqlPlan text) (skip : ℕ)
    (limit : Option ℕ) :
    find lower database validate plan stored.toStoredRows now filter sort skip limit =
      (page skip limit (orderedRows database text stored clause order)).mapM
        (validateRow validate stored.toStoredRows) := by
  rw [find_eq hskip hclause horder, selectRows_eq stored horder]

theorem find_pages (hskip : tables.schema.storage.shouldSkipInvalid = false)
    (stored : NumberedRows tables) (horder : translateSort tables sort = .ok order) {n k : ℕ}
    (hk : (matchedRows database stored.toStoredRows clause).length ≤ k * n)
    (plan : ℕ → SqlPlan text) {at_ : ℕ → ℤ}
    (hsame : ∀ i, ∃ clause', translateFilter lower tables (at_ i) filter = .ok clause' ∧
      matchedRows database stored.toStoredRows clause' =
        matchedRows database stored.toStoredRows clause) :
    ((List.range k).mapM fun i => find lower database validate (plan i) stored.toStoredRows (at_ i)
        filter sort (i * n) (some n)).map List.flatten =
      (orderedRows database text stored clause order).mapM
        (validateRow validate stored.toStoredRows) := by
  have hpage (i : ℕ) : find lower database validate (plan i) stored.toStoredRows (at_ i) filter sort
      (i * n) (some n) = (page (i * n) (some n) (orderedRows database text stored clause order)).mapM
        (validateRow validate stored.toStoredRows) := by
    obtain ⟨clause', hclause', hmatched⟩ := hsame i
    have hordered : orderedRows database text stored clause' order =
        orderedRows database text stored clause order := by
      rw [orderedRows, hmatched]
      rfl
    rw [find_slice hskip stored hclause' horder, hordered]
  simp only [hpage]
  refine mapM_page _ ?_
  rw [orderedRows, ((Sorting.byMerging _).perm _).length_eq]
  exact hk

end SqlStore

/-! ## Slices -/

/-- **What a find returns is a page of a list**, and no more than its limit. -/
def CutFrom (l : List D) (read : D → Except FindError R) (skip : ℕ) (limit : Option ℕ)
    (result : Except FindError (List R)) : Prop :=
  result = (page skip limit l).mapM read ∧
    ∀ found, result = .ok found → ∀ n ∈ limit, found.length ≤ n

theorem cutFrom_page (l : List D) (read : D → Except FindError R) (skip : ℕ) (limit : Option ℕ) :
    CutFrom l read skip limit ((page skip limit l).mapM read) := by
  refine ⟨rfl, fun found hfound n hn => ?_⟩
  obtain rfl := Option.mem_def.mp hn
  rw [length_of_mapM hfound]
  exact length_page_le skip n l

/-- What a find returns of documents: a page of them in an order of the sort. -/
def Slice (matching : List D) (r : D → D → Prop) (read : D → Except FindError R) (skip : ℕ)
    (limit : Option ℕ) (result : Except FindError (List R)) : Prop :=
  ∃ l, l.Perm matching ∧ l.Pairwise r ∧ CutFrom l read skip limit result

namespace MongoStore

open Mongo

/-- The record of a document, validated. -/
def validateDocument (validate : Value Scalar → Except ValidationError R) (schema : Schema)
    (document : Document) : Except FindError R :=
  (convertToRecord validate schema document).mapError .invalid

variable {server : MongoServer} {query : Document}

theorem find_eq (hskip : schema.storage.shouldSkipInvalid = false)
    (hquery : translateUnexpiredFilter schema now filter = .ok query) (plan : MongoPlan server)
    (documents : List Document) (skip : ℕ) (limit : Option ℕ) :
    find validate plan schema documents now filter sort skip limit =
      (server.find plan documents query (Mongo.translateSort sort) skip (limit.getD 0)
        (getQueryCollation schema filter)).mapM (validateDocument validate schema) := by
  have hread := mapM_readStored hskip (convertToRecord validate schema)
    (server.find plan documents query (Mongo.translateSort sort) skip (limit.getD 0)
      (getQueryCollation schema filter))
  rw [find, hquery]
  exact hread

theorem find_slice_iff (hskip : schema.storage.shouldSkipInvalid = false)
    (hquery : translateUnexpiredFilter schema now filter = .ok query) (plan : MongoPlan server)
    (documents : List Document) (skip : ℕ) (limit : Option ℕ) :
    Slice (documents.filter (server.isMatch (getQueryCollation schema filter) query))
        (server.order (getQueryCollation schema filter) (Mongo.translateSort sort))
        (validateDocument validate schema) skip limit
        (find validate plan schema documents now filter sort skip limit) ↔
      limit ≠ some 0 ∨
        (documents.filter (server.isMatch (getQueryCollation schema filter) query)).length ≤
          skip := by
  rw [find_eq hskip hquery]
  unfold MongoServer.find
  set matching := documents.filter (server.isMatch (getQueryCollation schema filter) query)
  set sorting := plan (getQueryCollation schema filter) (Mongo.translateSort sort)
  have hslice (limit' : Option ℕ) : Slice matching _ (validateDocument validate schema) skip limit'
      ((page skip limit' (sorting.run matching)).mapM (validateDocument validate schema)) :=
    ⟨sorting.run matching, sorting.perm _, sorting.sorted _, cutFrom_page _ _ _ _⟩
  have hlength : (sorting.run matching).length = matching.length := (sorting.perm _).length_eq
  cases limit with
  | none => exact iff_of_true (hslice none) (.inl (by simp))
  | some n =>
    cases n with
    | succ n => exact iff_of_true (hslice (some (n + 1))) (.inl (by simp))
    | zero =>
      constructor
      · -- nothing is asked for, so nothing may be found
        rintro ⟨l, -, -, hresult, -⟩
        rw [page_zero] at hresult
        have hnothing : _ = Except.ok ([] : List R) := hresult
        have hempty := length_of_mapM hnothing
        simp only [Option.getD_some, if_true, page, List.length_nil, List.length_drop,
          hlength] at hempty
        exact .inr (by omega)
      · rintro (h | h)
        · exact absurd rfl h
        · have hnone : page skip none (sorting.run matching) = [] :=
            List.drop_eq_nil_of_le (hlength ▸ h)
          have hzero := hslice (some 0)
          rw [page_zero] at hzero
          simpa only [Option.getD_some, if_true, hnone] using hzero

end MongoStore

/-- **Paging is a slice**: in SQL, pages of one list for every plan, skip and limit, so that
consecutive ones are that list; in MongoDB, unless the limit is 0 and a record is left to return. -/
theorem find_slices (hskip : schema.storage.shouldSkipInvalid = false) {filter : Option Filter}
    {sort : List String} (hfilter : checkFilter schema (filter.getD []) = .ok ())
    (hsort : checkSort schema sort = .ok ())
    (validate : Value Scalar → Except ValidationError R) :
    (∀ (lower : String → String) (database : SqlDatabase) (text : TextOrder)
        (tables : SchemaTables) (stored : NumberedRows tables) (now : ℤ) (clause : Clause)
        (order : List OrderTerm),
      getTablesOf schema = some tables →
      translateFilter lower tables now (filter.getD []) = .ok clause →
      translateSort tables sort = .ok order →
      ∃ rows : List Row, rows.Perm (matchedRows database stored.toStoredRows clause) ∧
        rows.Nodup ∧ rows.Pairwise (InOrder text order) ∧
        (∀ (plan : SqlPlan text) (skip : ℕ) (limit : Option ℕ),
          CutFrom rows (validateRow validate stored.toStoredRows) skip limit
            (Database.find schema
              (SqlStore.find lower database validate plan stored.toStoredRows now)
              filter sort skip limit)) ∧
        ∀ (n k : ℕ) (plan : ℕ → SqlPlan text) (at_ : ℕ → ℤ), rows.length ≤ k * n →
          (∀ i, ∃ clause', translateFilter lower tables (at_ i) (filter.getD []) = .ok clause' ∧
            matchedRows database stored.toStoredRows clause' =
              matchedRows database stored.toStoredRows clause) →
          ((List.range k).mapM fun i => Database.find schema
              (SqlStore.find lower database validate (plan i) stored.toStoredRows (at_ i))
              filter sort (i * n) (some n)).map List.flatten =
            rows.mapM (validateRow validate stored.toStoredRows)) ∧
    ∀ (server : MongoServer) (plan : MongoPlan server) (documents : List Document) (now : ℤ)
        (query : Document) (skip : ℕ) (limit : Option ℕ),
      Mongo.translateUnexpiredFilter schema now (filter.getD []) = .ok query →
      (Slice (documents.filter
            (server.isMatch (Mongo.getQueryCollation schema (filter.getD [])) query))
          (server.order (Mongo.getQueryCollation schema (filter.getD [])) (Mongo.translateSort sort))
          (MongoStore.validateDocument validate schema) skip limit
          (Database.find schema (MongoStore.find validate plan schema documents now)
            filter sort skip limit) ↔
        limit ≠ some 0 ∨
          (documents.filter
            (server.isMatch (Mongo.getQueryCollation schema (filter.getD [])) query)).length ≤
              skip) := by
  constructor
  · intro lower database text tables stored now clause order htables hclause horder
    obtain ⟨_, hof⟩ := getTablesOf_spec htables
    obtain rfl := hof.schema_eq
    let sorting := Sorting.byMerging (compareRows text order)
    have hperm : (SqlStore.orderedRows database text stored clause order).Perm
        (matchedRows database stored.toStoredRows clause) := sorting.perm _
    refine ⟨SqlStore.orderedRows database text stored clause order, hperm, ?_, sorting.sorted _,
      fun plan skip limit => ?_, fun n k plan at_ hk hsame => ?_⟩
    -- the rows are numbered, so that no two are the same
    · have hrows : stored.rows.Nodup := stored.numbered.imp fun {a b} hlt => by
        rintro rfl
        exact lt_irrefl _ hlt
      exact hperm.nodup_iff.mpr (hrows.filter _)
    · rw [Database.find_of_checked hfilter hsort, SqlStore.find_slice hskip stored hclause horder]
      exact cutFrom_page _ _ _ _
    · simp only [Database.find_of_checked hfilter hsort]
      exact SqlStore.find_pages hskip stored horder (hperm.length_eq ▸ hk) plan hsame
  · intro server plan documents now query skip limit hquery
    rw [Database.find_of_checked hfilter hsort]
    exact MongoStore.find_slice_iff hskip hquery plan documents skip limit

end

/-- A schema of pets, each of an owner and with friends among the owners. -/
def petSchema : Schema where
  name := "_Pet"
  fields := [("id", .scalar .id), ("name", .scalar .str), ("age", .scalar .int),
    ("owner_id", .generic .union [.scalar .id, .noneType]),
    ("friend_ids", .generic .list [.scalar .id]),
    ("stats", .model false [("walks", .scalar .int)]),
    ("expires_at", .generic .union [.scalar .datetime, .noneType])]
  allowsExtra := false
  storage := {
    table := "pets"
    key := "id"
    unique := [["name"]]
    expires := some "expires_at"
    references := ["owner_id", "friend_ids"] }
  undotted := by decide
  expiresAt := by decide

/-- The tables of the pets. -/
def petTables : SchemaTables := (getTablesOf petSchema).get (by decide +kernel)

/-- The row of a pet. -/
def petRow (number : ℤ) (hex name : String) (age : ℤ) : Row := fun column =>
  Value.get column [(rowId, .scalar (.int number)), ("id", .scalar (.text hex)),
    ("name", .scalar (.text name)), ("age", .scalar (.int age)),
    ("stats", .document [("walks", .scalar (.int 0))])]

/-- Two pets of one age. -/
def petRows : NumberedRows petTables where
  rows := [petRow 1 "00000000000000000000000a" "a" 3, petRow 2 "00000000000000000000000b" "b" 3]
  childRows := fun _ => []
  typed := by decide +kernel
  childTyped := by simp
  childKey := by simp
  numbered := by decide +kernel

/-- Text ordered by its code points. -/
def byCodePoint : TextOrder := ⟨compare, inferInstance⟩

/-- Documents that any query matches, in any order. -/
def anyMatch : MongoServer := ⟨fun _ _ _ => true, fun _ _ _ _ => True⟩

/-- The documents as they are stored. -/
def asStored : MongoPlan anyMatch := fun _ _ => ⟨fun l => l, fun _ => .refl _,
  fun _ => List.pairwise_of_forall fun _ _ => trivial⟩

/-- One stored pet. -/
def petDocument : Document := [("_id", .scalar (.objectId "00000000000000000000000a"))]

theorem find_slices_pets : ∃ clause order, ∃ rows : List Row,
    rows.Perm (matchedRows sqlite petRows.toStoredRows clause) ∧
      rows.Pairwise (InOrder byCodePoint order) ∧
      ∀ (plan : SqlPlan byCodePoint) (skip : ℕ) (limit : Option ℕ),
        CutFrom rows (validateRow (fun _ => .ok ()) petRows.toStoredRows) skip limit
          (Database.find petSchema (SqlStore.find String.toLower sqlite (fun _ => .ok ()) plan
            petRows.toStoredRows 0) none ["-age"] skip limit) := by
  have hclause : (translateFilter String.toLower petTables 0 []).toOption.isSome = true := by
    decide +kernel
  have horder : translateSort petTables ["-age"] = .ok [⟨"age", true, false⟩, rowIdTerm] := by
    decide +kernel
  cases h : translateFilter String.toLower petTables 0 [] with
  | error e =>
    rw [h] at hclause
    cases hclause
  | ok clause =>
    obtain ⟨rows, hperm, -, hordered, hcut, -⟩ := (@find_slices Unit petSchema rfl none ["-age"] rfl
      (by decide +kernel) fun _ => .ok ()).1 String.toLower sqlite byCodePoint petTables petRows 0
      clause _ (Option.some_get _).symm h horder
    exact ⟨clause, _, rows, hperm, hordered, hcut⟩

/-- A limit of 0 asks MongoDB for every record. -/
theorem find_limit_zero :
    checkFilter petSchema [] = .ok () ∧ checkSort petSchema [] = .ok () ∧
      Database.find petSchema (MongoStore.find (fun _ => .ok ()) asStored petSchema [petDocument] 0)
        none [] 0 (some 0) = .ok [()] ∧
      ¬ Slice [petDocument] (anyMatch.order none [])
        (MongoStore.validateDocument (fun _ => .ok ()) petSchema) 0 (some 0)
        (Database.find petSchema
          (MongoStore.find (fun _ => .ok ()) asStored petSchema [petDocument] 0) none [] 0
          (some 0)) := by
  have hfound : Database.find petSchema
      (MongoStore.find (fun _ => .ok ()) asStored petSchema [petDocument] 0) none [] 0 (some 0) =
      .ok [()] := rfl
  refine ⟨rfl, rfl, hfound, ?_⟩
  rintro ⟨l, -, -, hresult, -⟩
  rw [hfound, page_zero] at hresult
  cases hresult

end Mss
