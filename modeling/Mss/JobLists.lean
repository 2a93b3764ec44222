import Mss.CaseFolding
import Mss.Lib.Table
import Mss.Services.JobReads
import Mss.Storage.SqlStore

/-!
# Listing and reading jobs agree

A listing composes the reader's query with a filter of the jobs the reader may read; getting a job
asks the same in Python of the job that was read. Whatever the query is, the two agree, in SQL and in
MongoDB.

* `JobView`: the stored jobs as a database reads them; `JobView.Shows`, `JobView.IsLawful`.
* `JobView.list_sound`, `JobView.list_complete`, `JobView.list_congr`: a listing over a view.
* `SqlStore.jobView`, `MongoStore.jobView`: the views of the two stores.
* **`listing_agrees`**: what is listed is what may be read, and depends on nothing else.
-/

namespace Mss

open Storage

/-! ## Views -/

/-- **What is kept of a job's ids** when stored data are validated: texts as they are, and no
submitter where there is none. -/
structure KeepsIds (validate : Value Scalar → Except ValidationError Job) : Prop where
  jobId : ∀ fields job jobId, validate (.document fields) = .ok job →
    Value.get "job_id" fields = .scalar (.text jobId) → job.jobId = jobId
  userId : ∀ fields job userId, validate (.document fields) = .ok job →
    Value.get "user_id" fields = .scalar (.text userId) → job.userId = some userId
  noUser : ∀ fields job, validate (.document fields) = .ok job →
    Value.get "user_id" fields = .null → job.userId = none

theorem ok_of_toOption {ε A : Type} {x : Except ε A} {a : A} (h : x.toOption = some a) :
    x = .ok a := by
  cases x with
  | error e => cases h
  | ok b =>
    cases h
    rfl

theorem mapM_readStored_jobs {D : Type} (convert : D → Except ValidationError Job) (l : List D) :
    (l.mapM (readStored jobSchema convert)).map List.reduceOption =
      .ok (l.filterMap fun data => (convert data).toOption) := by
  have hread (data : D) : readStored jobSchema convert data = .ok (convert data).toOption := by
    unfold readStored
    cases convert data <;> rfl
  have hall : l.mapM (readStored jobSchema convert) =
      .ok (l.map fun data => (convert data).toOption) := by
    induction l with
    | nil => rfl
    | cons data l ih =>
      rw [List.mapM_cons, ih, hread]
      rfl
  rw [hall]
  change Except.ok (List.filterMap id _) = _
  rw [List.filterMap_map]
  rfl

/-- The filter of a job's id. -/
def idFilter (jobId : String) : Filter := filterOfKey jobSchema (.scalar (.str jobId))

/-- **The stored jobs as a database reads them**: which filters and sorts it takes, what a filter
matches, how that is sorted and cut to a page, and what is read of each. -/
structure JobView (D : Type) where
  accepts : Filter → List String → Except FindError Unit
  isMatch : Filter → D → Bool
  sorted : List String → List D → List D
  cut : ℕ → Option ℕ → List D → List D
  read : D → Option Job

namespace JobView

variable {D : Type} (view : JobView D)

/-- The jobs found among those stored. -/
def found (data : List D) (filter : Filter) (sort : List String) (skip : ℕ) (limit : Option ℕ) :
    List Job :=
  (view.cut skip limit (view.sorted sort (data.filter (view.isMatch filter)))).filterMap view.read

/-- **The view shows what is read** of the stored jobs. -/
structure Shows (jobs : Reads Job) (data : List D) : Prop where
  find : ∀ filter sort skip limit, jobs.find filter sort skip limit =
    (view.accepts filter sort).map fun _ => view.found data filter sort skip limit
  get : ∀ jobId, jobs.get (.scalar (.str jobId)) =
    .ok ((data.find? (view.isMatch (idFilter jobId))).bind view.read)

/-- **A lawful view**: a reader's listing is taken where the query is, a sort leaves no job out, a
page has some of them, two filters match what both do, and ids and submitters are told as the jobs
that are read have them. -/
structure IsLawful (data : List D) (reader : User) : Prop where
  accepted : ∀ f sort, view.accepts f sort = .ok () →
    view.accepts [.logical .and [f, readableFilter reader]] sort = .ok ()
  perm : ∀ sort l, (view.sorted sort l).Perm l
  sublist : ∀ skip limit l, (view.cut skip limit l).Sublist l
  whole : ∀ l, view.cut 0 none l = l
  both : ∀ f g d, view.isMatch [.logical .and [f, g]] d = (view.isMatch f d && view.isMatch g d)
  readable : ∀ d ∈ data, ∀ job, view.read d = some job →
    (view.isMatch (readableFilter reader) d = true ↔
      job.userId = none ∨ job.userId = some reader.id)
  keyed : ∀ d ∈ data, ∀ job, view.read d = some job →
    view.isMatch (idFilter job.jobId) d = true
  apart : ∀ d ∈ data, ∀ d' ∈ data, ∀ jobId, view.isMatch (idFilter jobId) d = true →
    view.isMatch (idFilter jobId) d' = true → d = d'

variable {view} {jobs : Reads Job} {data : List D} {h : Host} {reader : User} {query : JobQuery}
  {userId : Option Id} {sort : List String} {skip : ℕ} {limit : Option ℕ}

theorem getReadableJob_eq_ok_iff (hshows : view.Shows jobs data)
    (hlawful : view.IsLawful data reader) {jobId : String} {job : Job} :
    getReadableJob jobs h jobId reader false = .ok job ↔
      (∃ d ∈ data, view.isMatch (idFilter jobId) d = true ∧ view.read d = some job) ∧
        isJobReadableBy job reader = true := by
  have hget : getReadableJob jobs h jobId reader false = .ok job ↔
      (data.find? (view.isMatch (idFilter jobId))).bind view.read = some job ∧
        isJobReadableBy job reader = true := by
    unfold getReadableJob getStoredJob
    rw [hshows.get]
    cases (data.find? (view.isMatch (idFilter jobId))).bind view.read with
    | none =>
      refine iff_of_false ?_ fun hnone => by cases hnone.1
      intro hok
      cases hok
    | some stored =>
      change (if !isJobReadableBy stored reader then Except.error _ else Except.ok stored) = _ ↔ _
      cases hreadable : isJobReadableBy stored reader with
      | false =>
        refine iff_of_false (fun hok => by cases hok) ?_
        rintro ⟨hjob, htrue⟩
        cases hjob
        rw [hreadable] at htrue
        cases htrue
      | true =>
        constructor
        · intro hok
          cases hok
          exact ⟨rfl, hreadable⟩
        · rintro ⟨hjob, -⟩
          cases hjob
          rfl
  rw [hget, Option.bind_eq_some_iff]
  refine and_congr_left fun _ => ?_
  constructor
  · rintro ⟨d, hd, hread⟩
    exact ⟨d, List.mem_of_find?_eq_some hd, List.find?_some hd, hread⟩
  · rintro ⟨d, hd, hmatch, hread⟩
    cases hfind : data.find? (view.isMatch (idFilter jobId)) with
    | none => exact absurd hmatch (by simpa using List.find?_eq_none.mp hfind d hd)
    | some d' =>
      have heq : d' = d := hlawful.apart d' (List.mem_of_find?_eq_some hfind) d hd jobId
        (List.find?_some hfind) hmatch
      exact ⟨d', rfl, heq ▸ hread⟩

theorem mem_getLatestMany (hshows : view.Shows jobs data) {asked : Option User} {listed : List Job}
    (hlist : getLatestMany jobs query userId asked sort skip limit = .ok listed) {job : Job} :
    job ∈ listed ↔ ∃ full ∈ view.found data (listingFilter query userId asked) sort skip limit,
      full.withoutToken = job := by
  unfold getLatestMany at hlist
  rw [hshows.find] at hlist
  cases haccepts : view.accepts (listingFilter query userId asked) sort with
  | error e =>
    rw [haccepts] at hlist
    cases hlist
  | ok _ =>
    rw [haccepts] at hlist
    cases hlist
    exact List.mem_map

theorem mem_found_of_mem (hlawful : view.IsLawful data reader) {filter : Filter} {job : Job}
    (hjob : job ∈ view.found data filter sort skip limit) :
    ∃ d ∈ data, view.isMatch filter d = true ∧ view.read d = some job := by
  obtain ⟨d, hd, hread⟩ := List.mem_filterMap.mp hjob
  have hsorted := (hlawful.perm sort _).mem_iff.mp ((hlawful.sublist skip limit _).subset hd)
  obtain ⟨hmem, hmatch⟩ := List.mem_filter.mp hsorted
  exact ⟨d, hmem, hmatch, hread⟩

theorem mem_found_whole (hlawful : view.IsLawful data reader) {filter : Filter} {job : Job} {d : D}
    (hd : d ∈ data) (hmatch : view.isMatch filter d = true) (hread : view.read d = some job) :
    job ∈ view.found data filter sort 0 none := by
  refine List.mem_filterMap.mpr ⟨d, ?_, hread⟩
  rw [hlawful.whole]
  exact (hlawful.perm sort _).mem_iff.mpr (List.mem_filter.mpr ⟨hd, hmatch⟩)

theorem listingFilter_reader (hreader : reader.isSuperuser = false) :
    listingFilter query userId (some reader) =
      [.logical .and [jobFilter query userId, readableFilter reader]] := by
  simp [listingFilter, hreader]

theorem isJobReadableBy_iff (hreader : reader.isSuperuser = false) {job : Job} :
    isJobReadableBy job reader = true ↔ job.userId = none ∨ job.userId = some reader.id := by
  simp [isJobReadableBy, hreader]

/-- **Every listed job may be got** by the reader. -/
theorem list_sound (hshows : view.Shows jobs data) (hlawful : view.IsLawful data reader)
    (hreader : reader.isSuperuser = false) {listed : List Job}
    (hlist : getLatestMany jobs query userId (some reader) sort skip limit = .ok listed) :
    ∀ job ∈ listed, ∃ full, getReadableJob jobs h job.jobId reader false = .ok full ∧
      job = full.withoutToken := by
  intro job hjob
  obtain ⟨full, hfound, rfl⟩ := (mem_getLatestMany hshows hlist).mp hjob
  obtain ⟨d, hd, hmatch, hread⟩ := mem_found_of_mem hlawful hfound
  rw [listingFilter_reader hreader, hlawful.both, Bool.and_eq_true] at hmatch
  refine ⟨full, (getReadableJob_eq_ok_iff hshows hlawful).mpr
    ⟨⟨d, hd, hlawful.keyed d hd full hread, hread⟩, ?_⟩, rfl⟩
  exact (isJobReadableBy_iff hreader).mpr ((hlawful.readable d hd full hread).mp hmatch.2)

theorem list_ok (hshows : view.Shows jobs data) (hlawful : view.IsLawful data reader)
    (hreader : reader.isSuperuser = false) {all : List Job}
    (hall : getLatestMany jobs query userId none sort skip limit = .ok all) :
    ∃ listed, getLatestMany jobs query userId (some reader) sort skip limit = .ok listed := by
  unfold getLatestMany at hall ⊢
  rw [hshows.find] at hall ⊢
  have hquery : listingFilter query userId none = jobFilter query userId := rfl
  rw [hquery] at hall
  rw [listingFilter_reader hreader]
  cases haccepts : view.accepts (jobFilter query userId) sort with
  | error e =>
    rw [haccepts] at hall
    cases hall
  | ok _ =>
    rw [hlawful.accepted _ _ haccepts]
    exact ⟨_, rfl⟩

/-- **Every matching job that may be got is listed**, where nothing is skipped or cut off. -/
theorem list_complete (hshows : view.Shows jobs data) (hlawful : view.IsLawful data reader)
    (hreader : reader.isSuperuser = false) {all listed : List Job}
    (hall : getLatestMany jobs query userId none sort 0 none = .ok all)
    (hlist : getLatestMany jobs query userId (some reader) sort 0 none = .ok listed) {job full : Job}
    (hjob : job ∈ all) (hget : getReadableJob jobs h job.jobId reader false = .ok full) :
    job ∈ listed := by
  obtain ⟨whole, hfound, rfl⟩ := (mem_getLatestMany hshows hall).mp hjob
  obtain ⟨d, hd, hmatch, hread⟩ := mem_found_of_mem hlawful hfound
  obtain ⟨⟨d', hd', hid, hread'⟩, hreadable⟩ :=
    (getReadableJob_eq_ok_iff hshows hlawful).mp hget
  -- the job that is got is the one that the query matched
  have hsame : d' = d := hlawful.apart d' hd' d hd _ hid (hlawful.keyed d hd whole hread)
  subst hsame
  have hwhole : whole = full := Option.some.inj (hread.symm.trans hread')
  subst hwhole
  refine (mem_getLatestMany hshows hlist).mpr ⟨whole, ?_, rfl⟩
  refine mem_found_whole hlawful hd ?_ hread
  have hquery : view.isMatch (jobFilter query userId) d' = true := hmatch
  rw [listingFilter_reader hreader, hlawful.both, hquery, Bool.true_and]
  exact (hlawful.readable d' hd whole hread).mpr ((isJobReadableBy_iff hreader).mp hreadable)

/-- **A listing depends on the readable jobs only.** -/
theorem list_congr {jobs' : Reads Job} {data' : List D} (hshows : view.Shows jobs data)
    (hshows' : view.Shows jobs' data') (hlawful : view.IsLawful data reader)
    (hreader : reader.isSuperuser = false)
    (hsame : data.filter (view.isMatch (readableFilter reader)) =
      data'.filter (view.isMatch (readableFilter reader))) :
    getLatestMany jobs query userId (some reader) sort skip limit =
      getLatestMany jobs' query userId (some reader) sort skip limit := by
  have hfilter (l : List D) :
      l.filter (view.isMatch (listingFilter query userId (some reader))) =
        (l.filter (view.isMatch (readableFilter reader))).filter
          (view.isMatch (jobFilter query userId)) := by
    rw [listingFilter_reader hreader, List.filter_filter]
    exact List.filter_congr fun d _ => hlawful.both _ _ d
  unfold getLatestMany
  rw [hshows.find, hshows'.find, found, found, hfilter, hfilter, hsame]

end JobView

/-! ## SQL -/

theorem jobTables_spec : jobTables.schema.storage.expires = none ∧
    jobTables.listTables.isEmpty = true ∧ jobTables.schema.storage.caseInsensitive = [] ∧
    jobTables.schema.storage.key = "job_id" ∧
    jobTables.schema.storage.shouldSkipInvalid = true := by
  decide +kernel

/-- The column that a field of a job has, if it is no JSON. -/
structure IsJobColumn (name : String) (type : ColumnType) : Prop where
  column : getColumn jobTables name = .ok name
  lookup : jobTables.columns.lookup name = some type
  scalar : type ≠ .json
  undotted : '.' ∉ name.toList
  numbered : name ≠ rowId

theorem isJobColumn_text : ∀ name ∈ ["job_id", "user_id", "created_at"],
    IsJobColumn name .string := by
  have hcolumn : ∀ name ∈ ["job_id", "user_id", "created_at"],
      (getColumn jobTables name).toOption = some name ∧
      jobTables.columns.lookup name = some .string ∧ '.' ∉ name.toList ∧ name ≠ rowId := by
    decide +kernel
  intro name hname
  obtain ⟨hok, hlookup, hdot, hid⟩ := hcolumn name hname
  refine ⟨?_, hlookup, by decide, hdot, hid⟩
  cases hget : getColumn jobTables name with
  | ok column =>
    rw [hget] at hok
    cases hok
    rfl
  | error e =>
    rw [hget] at hok
    cases hok

namespace SqlStore

section

variable (lower : String → String) (database : SqlDatabase) {text : TextOrder}
  (plan : SqlPlan text) (validate : Value Scalar → Except ValidationError Job) (now : ℤ)

/-- Whether a filter matches a row of a job. -/
def isMatchedBy (stored : StoredRows jobTables) (filter : Filter) (row : Row) : Bool :=
  match translateFilter lower jobTables now filter with
  | .ok clause => clause.eval database stored row == .yes
  | .error _ => false

/-- Whether a filter and a sort are taken. -/
def acceptsRead (filter : Filter) (sort : List String) : Except FindError Unit := do
  (checkFilter jobSchema filter).mapError .refused
  (checkSort jobSchema sort).mapError .refused
  let _ ← (translateFilter lower jobTables now filter).mapError FindError.raised
  let _ ← (translateSort jobTables sort).mapError FindError.raised

/-- The rows of a statement in the order of a sort. -/
def sortRows (sort : List String) (rows : List Row) : List Row :=
  match translateSort jobTables sort with
  | .ok order => (plan order).run rows
  | .error _ => rows

/-- **The jobs of SQL's rows.** -/
def jobView (stored : StoredRows jobTables) : JobView Row where
  accepts := acceptsRead lower now
  isMatch := isMatchedBy lower database now stored
  sorted := sortRows plan
  cut := page
  read row := (validate (stored.recordOf row)).toOption

/-- What is read of the jobs in SQL. -/
def jobReads (stored : StoredRows jobTables) : Reads Job :=
  Database.reads jobSchema (SqlStore.reads lower database validate plan stored now)

end

variable {lower : String → String} {database : SqlDatabase} {text : TextOrder}
  {plan : SqlPlan text} {validate : Value Scalar → Except ValidationError Job} {now : ℤ}
  {stored : StoredRows jobTables} {name : String} {type : ColumnType} {condition : PyValue}

theorem translateFilter_jobs (filter : Filter) : translateFilter lower jobTables now filter =
    (translateEntries lower jobTables filter).map fun clauses =>
      .and [.and (.always :: clauses)] := by
  unfold translateFilter translateConditions
  rw [jobTables_spec.1]
  cases translateEntries lower jobTables filter <;> rfl

variable (lower database now) in
/-- **A filter of one column** is translated, and its clause means its condition. -/
theorem translateFilter_column (hcolumn : IsJobColumn name type)
    (hchecked : ∀ entry ∈ operatorsOf condition, isChecked entry)
    (hown : hasOwnOperands type condition = true)
    (hkept : hasKeptOperands database.dialect condition = true) :
    ∃ clause, translateFilter lower jobTables now [.field name condition] = .ok clause ∧
      ∀ (stored : StoredRows jobTables) (row : Row), Fits type (row name) →
        (clause.eval database stored row = .yes ↔
          ConditionMatches database.same [row name] condition) := by
  have hyields : Yields (fun _ => False) (getComparisonClause lower ⟨name, false⟩ condition false)
      fun clause => MeanAt database jobTables name type
        (fun x => ConditionMatches database.same [x] condition) [clause] :=
    yields_getComparisonClause jobTables lower hcolumn.scalar hchecked hown hkept _
  obtain ⟨clause, hclause, hmeans⟩ := hyields.exists_ok fun e he => he.elim
  have hlist : jobTables.listTables.lookup name = none := by
    rw [List.isEmpty_iff.mp jobTables_spec.2.1]
    rfl
  have hcase : jobTables.schema.storage.caseInsensitive.contains name = false := by
    rw [jobTables_spec.2.2.1]
    rfl
  refine ⟨.and [.and (.always :: [clause])], ?_, fun stored row hx => ?_⟩
  · have hfield : translateField lower jobTables name condition = .ok clause := by
      unfold translateField translateColumnCondition
      rw [hlist]
      dsimp only
      rw [hcolumn.column]
      change getComparisonClause lower ⟨name, _⟩ condition
        (jobTables.schema.storage.caseInsensitive.contains name) = _
      rw [hcase]
      exact hclause
    rw [translateFilter_jobs, translateEntries, translateEntry, hfield]
    rfl
  · rw [eval_and, List.forall_mem_singleton, eval_conditions]
    exact hmeans stored row hx

theorem isMatchedBy_eq_true {filter : Filter} {row : Row} {clause : Clause}
    (hclause : translateFilter lower jobTables now filter = .ok clause) :
    isMatchedBy lower database now stored filter row = true ↔
      clause.eval database stored row = .yes := by
  unfold isMatchedBy
  rw [hclause]
  exact beq_iff_eq

theorem isMatchedBy_and (f g : Filter) (row : Row) :
    isMatchedBy lower database now stored [.logical .and [f, g]] row =
      (isMatchedBy lower database now stored f row && isMatchedBy lower database now stored g row) := by
  unfold isMatchedBy
  rw [translateFilter_jobs, translateFilter_jobs, translateFilter_jobs]
  simp only [translateEntries, translateEntry, translateItems]
  cases translateEntries lower jobTables f with
  | error e => rfl
  | ok fs =>
    cases translateEntries lower jobTables g with
    | error e => exact (Bool.and_false _).symm
    | ok gs =>
      have hyes (clause : Clause) : (clause.eval database stored row == .yes) = true ↔
          clause.eval database stored row = .yes := beq_iff_eq
      refine Bool.eq_iff_iff.mpr ?_
      rw [Bool.and_eq_true]
      change ((Clause.and [.and [.always, .and [.and (.always :: fs), .and (.always :: gs)]]]).eval
        database stored row == .yes) = true ↔
          ((Clause.and [.and (.always :: fs)]).eval database stored row == .yes) = true ∧
            ((Clause.and [.and (.always :: gs)]).eval database stored row == .yes) = true
      rw [hyes, hyes, hyes, eval_and, eval_and, eval_and, List.forall_mem_singleton, eval_conditions,
        List.forall_mem_singleton, List.forall_mem_singleton, List.forall_mem_singleton, eval_and,
        List.forall_mem_cons, List.forall_mem_singleton]

theorem isMatchedBy_column (hcolumn : IsJobColumn name type)
    (hchecked : ∀ entry ∈ operatorsOf condition, isChecked entry)
    (hown : hasOwnOperands type condition = true)
    (hkept : hasKeptOperands database.dialect condition = true) {row : Row}
    (hrow : row ∈ stored.rows) :
    isMatchedBy lower database now stored [.field name condition] row = true ↔
      ConditionMatches database.same [row name] condition := by
  obtain ⟨clause, hclause, hmeans⟩ := translateFilter_column lower database now hcolumn hchecked
    hown hkept
  rw [isMatchedBy_eq_true hclause]
  exact hmeans stored row (stored.typed row hrow _ (mem_of_lookup hcolumn.lookup))

theorem isOperatorMap_in (v : PyValue) : isOperatorMap (.dict [("$in", v)]) = true := by
  have hname : isOperatorName "$in" = true := by decide
  simp [isOperatorMap, hname]

theorem operatorsOf_readable (reader : User) :
    operatorsOf (.dict [("$in", .sequence .list [.scalar (.str reader.id), .none])]) =
      [("$in", .sequence .list [.scalar (.str reader.id), .none])] :=
  if_pos (isOperatorMap_in _)

theorem sent_readable (dialect : SqlDialect) (reader : User) :
    let condition := .dict [("$in", .sequence .list [.scalar (.str reader.id), .none])]
    (∀ entry ∈ operatorsOf condition, isChecked entry) ∧
      hasOwnOperands .string condition = true ∧ hasKeptOperands dialect condition = true := by
  have hin : FieldOperator.ofName "$in" = some .in := by decide
  refine ⟨?_, ?_, ?_⟩
  · rw [operatorsOf_readable, List.forall_mem_singleton, isChecked, hin]
    exact ⟨_, _, rfl⟩
  · rw [hasOwnOperands, operatorsOf_readable]
    simp [hasOwnOperand, hin, PyValue.items, isOwn, PyScalar.kind, PyScalar.toScalar, Scalar.kind]
  · rw [hasKeptOperands, operatorsOf_readable]
    simp [hasKeptOperand, hin, PyValue.items, isKept]

theorem translateFilter_readable (lower : String → String) (database : SqlDatabase) (now : ℤ)
    (reader : User) :
    ∃ clause, translateFilter lower jobTables now (readableFilter reader) = .ok clause := by
  obtain ⟨hchecked, hown, hkept⟩ := sent_readable database.dialect reader
  obtain ⟨clause, hclause, -⟩ := translateFilter_column lower database now
    (isJobColumn_text "user_id" (by decide)) hchecked hown hkept
  exact ⟨clause, hclause⟩

/-- **The readable jobs in SQL**: those of no recorded user, or of the reader's id. -/
theorem isMatchedBy_readable (reader : User) {row : Row} (hrow : row ∈ stored.rows) :
    isMatchedBy lower database now stored (readableFilter reader) row = true ↔
      row "user_id" = .null ∨ row "user_id" = .scalar (.text reader.id) := by
  have hin : FieldOperator.ofName "$in" = some .in := by decide
  obtain ⟨hchecked, hown, hkept⟩ := sent_readable database.dialect reader
  rw [readableFilter, isMatchedBy_column (isJobColumn_text "user_id" (by decide)) hchecked hown
    hkept hrow, ConditionMatches, operatorsOf_readable, List.forall_mem_singleton, OperatorMatches,
    hin]
  simp [PyValue.items, PyValue.toValue, PyScalar.toScalar, or_comm, eq_comm]

theorem sent_id (dialect : SqlDialect) (jobId : String) :
    let condition := PyValue.scalar (.str jobId)
    (∀ entry ∈ operatorsOf condition, isChecked entry) ∧
      hasOwnOperands .string condition = true ∧ hasKeptOperands dialect condition = true := by
  have heq : FieldOperator.ofName "$eq" = some .eq := by decide
  have hoperators : operatorsOf (.scalar (.str jobId)) = [("$eq", .scalar (.str jobId))] := rfl
  refine ⟨?_, ?_, ?_⟩
  · rw [hoperators, List.forall_mem_singleton, isChecked, heq]
    trivial
  · rw [hasOwnOperands, hoperators]
    simp [hasOwnOperand, heq, isOwn, PyScalar.kind, PyScalar.toScalar, Scalar.kind]
  · rw [hasKeptOperands, hoperators]
    simp [hasKeptOperand, heq, isKept]

theorem translateFilter_id (lower : String → String) (database : SqlDatabase) (now : ℤ)
    (jobId : String) :
    ∃ clause, translateFilter lower jobTables now (idFilter jobId) = .ok clause := by
  obtain ⟨hchecked, hown, hkept⟩ := sent_id database.dialect jobId
  obtain ⟨clause, hclause, -⟩ := translateFilter_column lower database now
    (isJobColumn_text "job_id" (by decide)) hchecked hown hkept
  exact ⟨clause, hclause⟩

/-- **The jobs of an id in SQL.** -/
theorem isMatchedBy_id (jobId : String) {row : Row} (hrow : row ∈ stored.rows) :
    isMatchedBy lower database now stored (idFilter jobId) row = true ↔
      row "job_id" = .scalar (.text jobId) := by
  have heq : FieldOperator.ofName "$eq" = some .eq := by decide
  have hoperators : operatorsOf (.scalar (.str jobId)) = [("$eq", .scalar (.str jobId))] := rfl
  have hfilter : idFilter jobId = [.field "job_id" (.scalar (.str jobId))] := rfl
  obtain ⟨hchecked, hown, hkept⟩ := sent_id database.dialect jobId
  rw [hfilter, isMatchedBy_column (isJobColumn_text "job_id" (by decide)) hchecked hown hkept hrow,
    ConditionMatches, hoperators, List.forall_mem_singleton, OperatorMatches, heq]
  simp [PyValue.toValue, PyScalar.toScalar, eq_comm]

/-! ### The checks of a reader's filter -/

theorem checkFilter_readable (reader : User) :
    checkFilter jobSchema (readableFilter reader) = .ok () := by
  have hname : isOperatorName "user_id" = false := by decide
  have hin : FieldOperator.ofName "$in" = some .in := by decide
  have hfield : (resolveField jobSchema "user_id").toOption.map isModelList = some false := by
    decide +kernel
  obtain ⟨a, ha⟩ : ∃ a, resolveField jobSchema "user_id" = .ok a := by
    cases h : resolveField jobSchema "user_id" with
    | ok a => exact ⟨a, rfl⟩
    | error e =>
      rw [h] at hfield
      cases hfield
  have hmodel : isModelList a = false := by
    rw [ha] at hfield
    exact Option.some.inj hfield
  have hkey : ("$in" == elementMatch) = false ∧ ("$in" == "$regex") = false ∧
      ("$in" == "$options") = false := by decide
  unfold readableFilter
  rw [checkFilter, checkEntry, checkField, ha, isOperatorMap_in]
  simp [hname, hmodel, hasKey, hkey, checkCondition, isOperatorMap_in, checkOperator, hin, bind,
    Except.bind, checkFilter, pure, Except.pure]

theorem checkFilter_listing {filter : Filter} (reader : User)
    (hfilter : checkFilter jobSchema filter = .ok ()) :
    checkFilter jobSchema [.logical .and [filter, readableFilter reader]] = .ok () := by
  simp [checkFilter, checkEntry, checkFilters, hfilter, checkFilter_readable, bind, Except.bind]

theorem acceptsRead_listing (database : SqlDatabase) {filter : Filter} {sort : List String}
    (reader : User)
    (h : acceptsRead lower now filter sort = .ok ()) :
    acceptsRead lower now [.logical .and [filter, readableFilter reader]] sort = .ok () := by
  unfold acceptsRead at h ⊢
  obtain ⟨_, hfilter, h⟩ := bind_ok h
  obtain ⟨_, hsort, h⟩ := bind_ok h
  obtain ⟨clause, hclause, h⟩ := bind_ok h
  obtain ⟨order, horder, -⟩ := bind_ok h
  have hlisting : ∃ clause', translateFilter lower jobTables now
      [.logical .and [filter, readableFilter reader]] = .ok clause' := by
    obtain ⟨readable, hreadable⟩ := translateFilter_readable lower database now reader
    have hclause := mapError_ok hclause
    rw [translateFilter_jobs] at hclause hreadable ⊢
    cases hentries : translateEntries lower jobTables filter with
    | error e =>
      rw [hentries] at hclause
      cases hclause
    | ok fs =>
      cases hothers : translateEntries lower jobTables (readableFilter reader) with
      | error e =>
        rw [hothers] at hreadable
        cases hreadable
      | ok gs =>
        simp only [translateEntries, translateEntry, translateItems, hentries, hothers]
        exact ⟨_, rfl⟩
  obtain ⟨clause', hclause'⟩ := hlisting
  rw [checkFilter_listing reader (mapError_ok hfilter), hsort, hclause', horder]
  rfl

/-! ### Rows of the same lists -/

section

variable {tables : SchemaTables} {stored' : StoredRows tables} {stored : StoredRows tables}

mutual

theorem eval_congr (h : stored.childRows = stored'.childRows) : ∀ (clause : Clause) (row : Row),
    clause.eval database stored row = clause.eval database stored' row
  | .always, _ | .never, _ | .isNull _, _ | .isNotNull _, _ | .compare _ _ _, _ | .isIn _ _, _
  | .isNotIn _ _, _ | .ilike _ _, _ => rfl
  | .and clauses, row | .or clauses, row => by
    rw [Clause.eval, Clause.eval, evalEach_congr h clauses row]
  | .not clause, row => by rw [Clause.eval, Clause.eval, eval_congr h clause row]
  | .existsIn _ _ _ conditions, row => by
    simp only [Clause.eval, h, evalEach_congr h conditions]

theorem evalEach_congr (h : stored.childRows = stored'.childRows) :
    ∀ (clauses : List Clause) (row : Row),
      Clause.evalEach database stored clauses row = Clause.evalEach database stored' clauses row
  | [], _ => rfl
  | clause :: clauses, row => by
    rw [Clause.evalEach, Clause.evalEach, eval_congr h clause row, evalEach_congr h clauses row]

end

end

theorem jobView_congr {stored' : StoredRows jobTables} (h : stored.childRows = stored'.childRows) :
    jobView lower database plan validate now stored =
      jobView lower database plan validate now stored' := by
  have hmatch : isMatchedBy lower database now stored =
      isMatchedBy lower database now stored' := by
    funext filter row
    unfold isMatchedBy
    split
    · rw [eval_congr h]
    · rfl
  have hrecord : stored.recordOf = stored'.recordOf := by
    funext row
    unfold StoredRows.recordOf StoredRows.elementsOf
    rw [h]
  unfold jobView
  rw [hmatch, hrecord]

/-! ### The view of the tables -/

section

variable {references : References} (s : SqlTables database references jobTables)

theorem get_recordOf (stored : StoredRows jobTables) (hcolumn : IsJobColumn name type) (row : Row) :
    ∃ fields, stored.recordOf row = .document fields ∧ Value.get name fields = row name := by
  have hlist : jobTables.listTables.lookup name = none := by
    rw [List.isEmpty_iff.mp jobTables_spec.2.1]
    rfl
  have hreached := stored.reached_column row hcolumn.numbered hlist
    (Option.isSome_of_mem hcolumn.lookup) hcolumn.undotted
  refine ⟨_, rfl, ?_⟩
  rw [pathParts_name hcolumn.undotted, StoredRows.recordOf, Value.reached_field] at hreached
  exact List.head_eq_of_cons_eq hreached

theorem jobId_text {row : Row} (hrow : row ∈ s.rows) : ∃ jobId, row "job_id" = .scalar (.text jobId) := by
  have hcolumn := isJobColumn_text "job_id" (by decide)
  have hfits : Fits .string (row "job_id") :=
    s.stored.typed row hrow ("job_id", .string) (mem_of_lookup hcolumn.lookup)
  have hnull : isNullValue (row "job_id") = false := by
    have hkey := s.notNull.1 row hrow
    rwa [jobTables_spec.2.2.2.1] at hkey
  obtain hx | ⟨a, hx, hkind⟩ := hfits.cases hcolumn.scalar
  · rw [hx] at hnull
    cases hnull
  · cases a with
    | text jobId => exact ⟨jobId, hx⟩
    | _ => cases hkind

variable (lower now) in
theorem apart_jobId (jobId : String) : s.rows.Pairwise fun a b =>
    ¬ (isMatchedBy lower database now s.stored.toStoredRows (idFilter jobId) a = true ∧
      isMatchedBy lower database now s.stored.toStoredRows (idFilter jobId) b = true) := by
  have hkeys := s.unique.2.1 [⟨jobTables.schema.storage.key, false⟩] List.mem_cons_self
  refine hkeys.imp_of_mem fun {a b} ha hb hclash hboth => ?_
  rw [isMatchedBy_id jobId ha, isMatchedBy_id jobId hb] at hboth
  simp [clashes, SqlDatabase.read, jobTables_spec.2.2.2.1, hboth.1, hboth.2, isChildOf] at hclash

theorem matchedRows_eq {filter : Filter} {clause : Clause}
    (hclause : translateFilter lower jobTables now filter = .ok clause) :
    matchedRows database stored clause =
      stored.rows.filter (isMatchedBy lower database now stored filter) := by
  refine List.filter_congr fun row _ => ?_
  unfold isMatchedBy
  rw [hclause]

theorem selectRows_first {order : List OrderTerm} {clause : Clause} {first : Option Row}
    (hmatched : matchedRows database stored clause = first.toList) :
    selectRows database plan stored clause order 0 (some 1) = first.toList := by
  have hperm := (plan order).perm (matchedRows database stored clause)
  unfold selectRows
  rw [hmatched] at hperm ⊢
  cases first with
  | none => rw [List.perm_nil.mp hperm]; rfl
  | some row => rw [List.perm_singleton.mp hperm]; rfl

/-- **The view shows the jobs** that are read of the tables. -/
theorem shows_jobView : (jobView lower database plan validate now s.stored.toStoredRows).Shows
    (jobReads lower database plan validate now s.stored.toStoredRows) s.rows where
  find filter sort skip limit := by
    change Database.find jobSchema (find lower database validate plan s.stored.toStoredRows now)
      (some filter) sort skip limit = (acceptsRead lower now filter sort).map _
    unfold Database.find find findRecords acceptsRead
    rw [Option.getD_some]
    cases (checkFilter jobSchema filter).mapError FindError.refused with
    | error e => rfl
    | ok _ =>
      cases (checkSort jobSchema sort).mapError FindError.refused with
      | error e => rfl
      | ok _ =>
        cases hclause : translateFilter lower jobTables now filter with
        | error e => rfl
        | ok clause =>
          cases horder : translateSort jobTables sort with
          | error e => rfl
          | ok order =>
            have hrows : JobView.found (jobView lower database plan validate now
                s.stored.toStoredRows) s.rows filter sort skip limit =
              (selectRows database plan s.stored.toStoredRows clause order skip limit).filterMap
                fun row => (validate (s.stored.recordOf row)).toOption := by
              unfold selectRows
              rw [matchedRows_eq hclause]
              change (page skip limit (sortRows plan sort _)).filterMap _ = _
              unfold sortRows
              rw [horder]
              rfl
            rw [hrows]
            exact mapM_readStored_jobs (fun row => validate (s.stored.recordOf row)) _
  get jobId := by
    obtain ⟨clause, hclause⟩ := translateFilter_id lower database now jobId
    have hmatched := (matchedRows_eq hclause).trans (filter_eq_first (apart_jobId lower now s jobId))
    have horder : translateSort jobTables [] = .ok [rowIdTerm] := rfl
    have hrecords : findRecords lower database validate plan s.stored.toStoredRows now
        (idFilter jobId) [] 0 (some 1) true =
      .ok ((s.rows.find? (isMatchedBy lower database now s.stored.toStoredRows
        (idFilter jobId))).toList.filterMap fun row => (validate (s.stored.recordOf row)).toOption) := by
      unfold findRecords
      rw [hclause, horder]
      change ((selectRows database plan s.stored.toStoredRows clause [rowIdTerm] 0 (some 1)).mapM
        (readStored jobSchema fun row => validate (s.stored.recordOf row))).map List.reduceOption = _
      rw [selectRows_first hmatched, mapM_readStored_jobs]
      rfl
    change (findRecords lower database validate plan s.stored.toStoredRows now
      (idFilter jobId) [] 0 (some 1) true).map List.head? = _
    rw [hrecords]
    change Except.ok _ = Except.ok ((s.rows.find? (isMatchedBy lower database now
      s.stored.toStoredRows (idFilter jobId))).bind _)
    cases s.rows.find? (isMatchedBy lower database now s.stored.toStoredRows (idFilter jobId)) with
    | none => rfl
    | some row =>
      change Except.ok (List.filterMap _ [row]).head? = Except.ok (jobView lower database plan validate
        now s.stored.toStoredRows |>.read row)
      rw [List.filterMap_cons]
      change Except.ok _ = Except.ok (validate (s.stored.recordOf row)).toOption
      cases (validate (s.stored.recordOf row)).toOption <;> rfl

theorem isLawful_jobView (hkeeps : KeepsIds validate) (reader : User) :
    (jobView lower database plan validate now s.stored.toStoredRows).IsLawful s.rows reader where
  accepted f sort h := acceptsRead_listing database reader h
  perm sort l := by
    change (sortRows plan sort l).Perm l
    unfold sortRows
    split
    · exact (plan _).perm l
    · exact .refl l
  sublist skip limit l := by
    change (page skip limit l).Sublist l
    cases limit with
    | none => exact List.drop_sublist skip l
    | some n => exact (List.take_sublist n _).trans (List.drop_sublist skip l)
  whole l := List.drop_zero
  both f g row := isMatchedBy_and f g row
  readable row hrow job hread := by
    have hcolumn := isJobColumn_text "user_id" (by decide)
    obtain ⟨fields, hrecord, hget⟩ := get_recordOf s.stored.toStoredRows hcolumn row
    have hvalid := ok_of_toOption hread
    rw [hrecord] at hvalid
    refine (isMatchedBy_readable reader hrow).trans ?_
    -- the column holds no submitter, or the text of one
    have hfits : Fits .string (row "user_id") :=
      s.stored.typed row hrow ("user_id", .string) (mem_of_lookup hcolumn.lookup)
    obtain hx | ⟨a, hx, hkind⟩ := hfits.cases hcolumn.scalar
    · rw [hx] at hget ⊢
      simp [hkeeps.noUser fields job hvalid hget]
    · cases a with
      | text userId =>
        rw [hx] at hget ⊢
        simp [hkeeps.userId fields job userId hvalid hget]
      | _ => cases hkind
  keyed row hrow job hread := by
    obtain ⟨jobId, hjobId⟩ := jobId_text s hrow
    obtain ⟨fields, hrecord, hget⟩ := get_recordOf s.stored.toStoredRows
      (isJobColumn_text "job_id" (by decide)) row
    have hvalid := ok_of_toOption hread
    rw [hrecord] at hvalid
    change isMatchedBy lower database now s.stored.toStoredRows (idFilter job.jobId) row = true
    rw [hkeeps.jobId fields job jobId hvalid (hget.trans hjobId)]
    exact (isMatchedBy_id jobId hrow).mpr hjobId
  apart a ha b hb jobId hmatcha hmatchb :=
    eq_of_apart (apart_jobId lower now s jobId) ha hb hmatcha hmatchb

end

end SqlStore

/-! ## MongoDB -/

namespace MongoStore

open Mongo

section

variable {server : MongoServer} (plan : MongoPlan server)
  (validate : Value Scalar → Except ValidationError Job) (now : ℤ)

/-- Whether a filter matches the document of a job. -/
def isMatchedBy (server : MongoServer) (filter : Filter) (document : Document) : Bool :=
  match translateUnexpiredFilter jobSchema now filter with
  | .ok query => server.isMatch none query document
  | .error _ => false

/-- Whether a filter and a sort are taken. -/
def acceptsRead (filter : Filter) (sort : List String) : Except FindError Unit := do
  (checkFilter jobSchema filter).mapError .refused
  (checkSort jobSchema sort).mapError .refused
  let _ ← translateUnexpiredFilter jobSchema now filter

/-- A page of documents; a limit of 0 is no limit. -/
def pageOf (skip : ℕ) (limit : Option ℕ) (documents : List Document) : List Document :=
  page skip (if limit.getD 0 = 0 then none else some (limit.getD 0)) documents

/-- **The jobs of MongoDB's documents.** -/
def jobView : JobView Document where
  accepts := acceptsRead now
  isMatch := isMatchedBy now server
  sorted sort := (plan none (Mongo.translateSort sort)).run
  cut := pageOf
  read document := (convertToRecord validate jobSchema document).toOption

/-- What is read of the jobs in MongoDB. -/
def jobReads (distinct : MongoDistinct) (documents : List Document) : Reads Job :=
  Database.reads jobSchema (MongoStore.reads validate plan distinct jobSchema documents now)

end

/-- **The server answers what jobs are read with**: a query of both, of an id, and of the submitters
that a reader may read. -/
structure AnswersJobs (server : MongoServer) (same : Char → Char → Bool) (fold : String → String) :
    Prop where
  both : ∀ a b document, server.isMatch none [("$and", .list [.document a, .document b])] document =
    (server.isMatch none a document && server.isMatch none b document)
  jobId : ∀ jobId, server.Collates same fold [("job_id", .scalar (.value (.text jobId)))]
  readable : ∀ hex, server.Collates same fold
    [("user_id", .document [("$in", .list [.scalar (.objectId hex), .null])])]

/-- **The document of a job**, as the collection's validator takes it: its id is a text, and its
submitter an ObjectId or none. -/
structure IsJob (document : Document) : Prop where
  jobId : ∃ jobId, Value.get "job_id" document = .scalar (.value (.text jobId))
  userId : Value.get "user_id" document = .null ∨
    ∃ hex, Value.get "user_id" document = .scalar (.objectId hex)

/-- **The documents of jobs**, as the validator keeps them. Their ids are apart because each job is
given a random one. -/
structure AreJobs (documents : List Document) : Prop where
  each : ∀ document ∈ documents, IsJob document
  apart : documents.Pairwise fun a b => Value.get "job_id" a ≠ Value.get "job_id" b

variable {server : MongoServer} {same : Char → Char → Bool} {fold : String → String} {now : ℤ}

theorem getQueryCollation_jobs (filter : Filter) : getQueryCollation jobSchema filter = none :=
  if_neg (by simp [jobSchema])

theorem translateUnexpiredFilter_jobs (filter : Filter) :
    translateUnexpiredFilter jobSchema now filter = Mongo.translateFilter jobSchema filter := by
  unfold translateUnexpiredFilter
  change (Mongo.translateFilter jobSchema filter >>= fun query => Except.ok query) = _
  cases Mongo.translateFilter jobSchema filter <;> rfl

theorem isMatchedBy_and (hserver : AnswersJobs server same fold) (f g : Filter)
    (document : Document) : isMatchedBy now server [.logical .and [f, g]] document =
      (isMatchedBy now server f document && isMatchedBy now server g document) := by
  unfold isMatchedBy
  rw [translateUnexpiredFilter_jobs, translateUnexpiredFilter_jobs, translateUnexpiredFilter_jobs]
  simp only [Mongo.translateFilter, Mongo.translateEntry, translateFilters]
  cases Mongo.translateFilter jobSchema f with
  | error e => rfl
  | ok query =>
    cases Mongo.translateFilter jobSchema g with
    | error e => exact (Bool.and_false _).symm
    | ok query' => exact hserver.both query query' document

theorem translateFilter_id (jobId : String) : Mongo.translateFilter jobSchema (idFilter jobId) =
    .ok [("job_id", .scalar (.value (.text jobId)))] := by
  have hfilter : idFilter jobId = [.field "job_id" (.scalar (.str jobId))] := rfl
  have hfield : resolveField jobSchema "job_id" = .ok (some (.scalar .str)) :=
    resolveField_declared rfl
  have hvalue : convertToBsonValue jobSchema "job_id" (.scalar (.str jobId)) =
      .ok (.scalar (.value (.text jobId))) := by
    have hnested : FieldType.findNestedModel (.scalar .str) = none := rfl
    rw [convertToBsonValue, hfield]
    simp [Except.mapError, bind, Except.bind, FieldType.isIdField, hnested, convertToBson,
      encodeScalar, PyScalar.toScalar]
  have hname : getDocumentField "job_id" = "job_id" := by decide
  rw [hfilter]
  simp [Mongo.translateFilter, Mongo.translateEntry, Mongo.translateField, isOperatorMap,
    translateCondition, hvalue, hname, bind, Except.bind, pure, Except.pure]

theorem objectId_of_isId {id : String} (h : isId id = true) :
    objectId id = .ok (.scalar (.objectId id)) := by
  simp only [isId, Bool.and_eq_true, beq_iff_eq, List.all_eq_true] at h
  obtain ⟨hlength, hdigits⟩ := h
  have hlower : ∀ c ∈ "0123456789abcdef".toList, isHexDigit c = true ∧ c.toLower = c := by
    have hdigits : ∀ c ∈ ['0', '1', '2', '3', '4', '5', '6', '7', '8', '9', 'a', 'b', 'c', 'd', 'e',
        'f'], isHexDigit c = true ∧ c.toLower = c := by
      simp only [List.forall_mem_cons]
      and_intros <;> first | rfl | simp
    exact hdigits
  have hdigit (c : Char) (hc : c ∈ id.toList) : isHexDigit c = true ∧ c.toLower = c :=
    hlower c (by simpa using hdigits c hc)
  have hmap : id.map Char.toLower = id := by
    rw [String.map_eq_internal, List.map_congr_left fun c hc => (hdigit c hc).2, List.map_id',
      String.ofList_toList]
  rw [objectId, if_pos ⟨hlength, List.all_eq_true.mpr fun c hc => (hdigit c hc).1⟩, hmap]

theorem translateFilter_readable {reader : User} (hid : isId reader.id = true) :
    Mongo.translateFilter jobSchema (readableFilter reader) =
      .ok [("user_id", .document [("$in", .list [.scalar (.objectId reader.id), .null])])] := by
  have hfield : resolveField jobSchema "user_id" = .ok (some (optional (.scalar .id))) :=
    resolveField_declared rfl
  have hidField : (optional (.scalar .id)).isIdField = true := by decide
  have hkey : ("$in" == elementMatch) = false := by decide
  have hname : getDocumentField "user_id" = "user_id" := by decide
  have hvalue : convertToBsonValue jobSchema "user_id"
      (.sequence .list [.scalar (.str reader.id), .none]) =
        .ok (.list [.scalar (.objectId reader.id), .null]) := by
    rw [convertToBsonValue, hfield]
    simp [Except.mapError, bind, Except.bind, hidField, convertToObjectIds, convertIds, encode,
      objectId_of_isId hid, pure, Except.pure]
  rw [readableFilter]
  simp [Mongo.translateFilter, Mongo.translateEntry, Mongo.translateField,
    SqlStore.isOperatorMap_in, hasKey, hkey, hname, translateCondition, hvalue, bind, Except.bind,
    pure, Except.pure]

theorem readText_id : readText id = id := by
  funext v
  unfold readText
  split <;> rfl

theorem readUnder_none : readUnder fold none = .exact := by simp [readUnder]

variable {document : Document} {documents : List Document}

/-- **The jobs of an id in MongoDB.** -/
theorem isMatchedBy_id (hserver : AnswersJobs server same fold) (hjob : IsJob document)
    (jobId : String) : isMatchedBy now server (idFilter jobId) document = true ↔
      Value.get "job_id" document = .scalar (.value (.text jobId)) := by
  have heq : FieldOperator.ofName "$eq" = some .eq := by decide
  have hpath : pathParts "job_id" = ["job_id"] := pathParts_name (by decide)
  obtain ⟨held, hheld⟩ := hjob.jobId
  unfold isMatchedBy
  rw [translateUnexpiredFilter_jobs, translateFilter_id]
  refine (hserver.jobId jobId none document).trans ?_
  rw [QueryMatches, QueryMatches, and_true, EntryMatches, Mongo.FieldMatches, Mongo.operatorsOf,
    List.forall_mem_singleton, Mongo.OperatorMatches, heq, readUnder_none, hpath,
    Value.candidates_field, hheld]
  · simp [TextReading.exact, readText_id, Value.items, eq_comm]
  · intro _ _ _ h
    cases h
  · intro _ h
    cases h

/-- **The readable jobs in MongoDB**: those of no submitter, or of the reader's id. -/
theorem isMatchedBy_readable (hserver : AnswersJobs server same fold) (hjob : IsJob document)
    {reader : User} (hid : isId reader.id = true) :
    isMatchedBy now server (readableFilter reader) document = true ↔
      Value.get "user_id" document = .null ∨
        Value.get "user_id" document = .scalar (.objectId reader.id) := by
  have hin : FieldOperator.ofName "$in" = some .in := by decide
  have hname : isOperatorName "$in" = true := by decide
  have hpath : pathParts "user_id" = ["user_id"] := pathParts_name (by decide)
  unfold isMatchedBy
  rw [translateUnexpiredFilter_jobs, translateFilter_readable hid]
  refine (hserver.readable reader.id none document).trans ?_
  rw [QueryMatches, QueryMatches, and_true, EntryMatches, Mongo.FieldMatches, Mongo.operatorsOf,
    if_pos hname, List.forall_mem_singleton, Mongo.OperatorMatches, hin, readUnder_none, hpath,
    Value.candidates_field]
  · obtain hnull | ⟨hex, hhex⟩ := hjob.userId
    · simp [hnull, TextReading.exact, readText_id, Value.items]
    · simp [hhex, TextReading.exact, readText_id, Value.items, eq_comm]
  · intro _ h
    cases h

theorem convertFromFields_eq (document : Document) : convertFromFields document =
    document.map fun field => (field.1, convertFromBson field.2) := by
  induction document with
  | nil => rfl
  | cons field fields ih =>
    rw [convertFromFields, ih]
    rfl

theorem get_dataOf {name : String} (hkey : name ≠ keyField) (hid : name ≠ "id") :
    Value.get name (dataOf jobSchema document) = convertFromBson (Value.get name document) := by
  have hread : (convertFromFields document).lookup name =
      (document.lookup name).map convertFromBson := by
    rw [convertFromFields_eq]
    exact lookup_map (fun _ => convertFromBson) document name
  have hothers : (((convertFromFields document).filter fun field => field.1 != keyField).filter
      fun field => field.1 != "id").lookup name = (document.lookup name).map convertFromBson := by
    rw [lookup_filter (· != "id"), if_pos (by simpa using hid), lookup_filter (· != keyField),
      if_pos (by simpa using hkey), hread]
  have hlast (v : Value Scalar) : [("id", v)].lookup name = none := by
    simp [List.lookup_cons, beq_false_of_ne hid]
  have hdeclared : (jobSchema.declared "id").isSome = true := rfl
  unfold dataOf
  rw [if_pos hdeclared, Value.get, List.lookup_append, hothers, hlast, Option.or_none, Value.get]
  cases document.lookup name <;> rfl

theorem acceptsRead_listing {filter : Filter} {sort : List String} {reader : User}
    (hid : isId reader.id = true) (h : acceptsRead now filter sort = .ok ()) :
    acceptsRead now [.logical .and [filter, readableFilter reader]] sort = .ok () := by
  unfold acceptsRead at h ⊢
  obtain ⟨_, hfilter, h⟩ := bind_ok h
  obtain ⟨_, hsort, h⟩ := bind_ok h
  obtain ⟨query, hquery, -⟩ := bind_ok h
  rw [translateUnexpiredFilter_jobs] at hquery
  have hlisting : ∃ query', translateUnexpiredFilter jobSchema now
      [.logical .and [filter, readableFilter reader]] = .ok query' := by
    rw [translateUnexpiredFilter_jobs]
    simp only [Mongo.translateFilter, Mongo.translateEntry, translateFilters, hquery,
      translateFilter_readable hid]
    exact ⟨_, rfl⟩
  obtain ⟨query', hquery'⟩ := hlisting
  rw [SqlStore.checkFilter_listing reader (mapError_ok hfilter), hsort, hquery']
  rfl

variable (now) in
theorem apart_jobId (hserver : AnswersJobs server same fold)
    (hjobs : AreJobs documents) (jobId : String) : documents.Pairwise fun a b =>
      ¬ (isMatchedBy now server (idFilter jobId) a = true ∧
        isMatchedBy now server (idFilter jobId) b = true) := by
  refine hjobs.apart.imp_of_mem fun {a b} ha hb hne hboth => hne ?_
  rw [isMatchedBy_id hserver (hjobs.each a ha), isMatchedBy_id hserver (hjobs.each b hb)] at hboth
  exact hboth.1.trans hboth.2.symm

variable {plan : MongoPlan server} {validate : Value Scalar → Except ValidationError Job}

/-- **The view shows the jobs** that are read of the documents. -/
theorem shows_jobView (distinct : MongoDistinct) (documents : List Document) :
    (jobView plan validate now).Shows (jobReads plan validate now distinct documents) documents where
  find filter sort skip limit := by
    change Database.find jobSchema (find validate plan jobSchema documents now)
      (some filter) sort skip limit = (acceptsRead now filter sort).map _
    unfold Database.find find acceptsRead
    rw [Option.getD_some]
    cases (checkFilter jobSchema filter).mapError FindError.refused with
    | error e => rfl
    | ok _ =>
      cases (checkSort jobSchema sort).mapError FindError.refused with
      | error e => rfl
      | ok _ =>
        cases hquery : translateUnexpiredFilter jobSchema now filter with
        | error e => rfl
        | ok query =>
          have hmatch : isMatchedBy now server filter = server.isMatch none query := by
            funext document
            unfold isMatchedBy
            rw [hquery]
          have hfound : (jobView plan validate now).found documents filter sort skip limit =
              (server.find plan documents query (Mongo.translateSort sort) skip (limit.getD 0)
                none).filterMap fun document =>
                  (convertToRecord validate jobSchema document).toOption := by
            unfold JobView.found MongoServer.find
            change (pageOf skip limit ((plan none (Mongo.translateSort sort)).run
              (documents.filter (isMatchedBy now server filter)))).filterMap _ = _
            rw [hmatch]
            rfl
          rw [hfound, getQueryCollation_jobs]
          exact mapM_readStored_jobs (convertToRecord validate jobSchema) _
  get jobId := by
    have hquery : translateUnexpiredFilter jobSchema now (idFilter jobId) =
        .ok [("job_id", .scalar (.value (.text jobId)))] := by
      rw [translateUnexpiredFilter_jobs, translateFilter_id]
    have hmatch : isMatchedBy now server (idFilter jobId) =
        server.isMatch none [("job_id", .scalar (.value (.text jobId)))] := by
      funext document
      unfold isMatchedBy
      rw [hquery]
    change @MongoStore.get Job validate server jobSchema documents now (.scalar (.str jobId)) =
      .ok ((documents.find? (isMatchedBy now server (idFilter jobId))).bind fun document =>
        (convertToRecord validate jobSchema document).toOption)
    have hkey : filterOfKey jobSchema (.scalar (.str jobId)) = idFilter jobId := rfl
    unfold MongoStore.get
    rw [hmatch, hkey, hquery]
    simp only [Bind.bind, Except.bind]
    cases documents.find? (server.isMatch none
        [("job_id", .scalar (.value (.text jobId)))]) with
    | none => rfl
    | some document =>
      change readStored jobSchema (convertToRecord validate jobSchema) document = _
      unfold readStored
      rw [Option.bind_some]
      cases convertToRecord validate jobSchema document <;> rfl

/-- **The view is lawful** where the server answers what jobs are read with. -/
theorem isLawful_jobView (hkeeps : KeepsIds validate) (hserver : AnswersJobs server same fold)
    (hjobs : AreJobs documents) {reader : User} (hid : isId reader.id = true) :
    (jobView plan validate now).IsLawful documents reader where
  accepted f sort h := acceptsRead_listing hid h
  perm sort l := (plan none _).perm l
  sublist skip limit l := by
    change (pageOf skip limit l).Sublist l
    unfold pageOf
    split
    · exact List.drop_sublist skip l
    · exact (List.take_sublist _ _).trans (List.drop_sublist skip l)
  whole l := List.drop_zero
  both f g document := isMatchedBy_and hserver f g document
  readable document hmem job hread := by
    have hvalid : validate (.document (dataOf jobSchema document)) = .ok job := ok_of_toOption hread
    have huser := @get_dataOf document "user_id" (by decide) (by decide)
    refine (isMatchedBy_readable hserver (hjobs.each document hmem) hid).trans ?_
    obtain hnull | ⟨hex, hhex⟩ := (hjobs.each document hmem).userId
    · rw [hnull] at huser ⊢
      simp [hkeeps.noUser _ job hvalid huser]
    · rw [hhex] at huser ⊢
      simp [hkeeps.userId _ job hex hvalid huser]
  keyed document hmem job hread := by
    have hvalid : validate (.document (dataOf jobSchema document)) = .ok job := ok_of_toOption hread
    obtain ⟨jobId, hjobId⟩ := (hjobs.each document hmem).jobId
    have hid := @get_dataOf document "job_id" (by decide) (by decide)
    rw [hjobId] at hid
    change isMatchedBy now server (idFilter job.jobId) document = true
    rw [hkeeps.jobId _ job jobId hvalid hid]
    exact (isMatchedBy_id hserver (hjobs.each document hmem) jobId).mpr hjobId
  apart a ha b hb jobId hmatcha hmatchb :=
    eq_of_apart (apart_jobId now hserver hjobs jobId) ha hb hmatcha hmatchb

end MongoStore

/-! ## Both stores -/

/-- **A listing is of the jobs that may be read**: each listed job is one that the reader gets, and
each job of the query that the reader gets is listed. -/
structure ListsReadable (jobs : Reads Job) (reader : User) : Prop where
  sound : ∀ (h : Host) query userId sort skip limit listed,
    getLatestMany jobs query userId (some reader) sort skip limit = .ok listed → ∀ job ∈ listed,
      ∃ full, getReadableJob jobs h job.jobId reader false = .ok full ∧ job = full.withoutToken
  complete : ∀ (h : Host) query userId sort all,
    getLatestMany jobs query userId none sort 0 none = .ok all →
      ∃ listed, getLatestMany jobs query userId (some reader) sort 0 none = .ok listed ∧
        ∀ job ∈ all, ∀ full, getReadableJob jobs h job.jobId reader false = .ok full → job ∈ listed

/-- The reader's listings are the same of two stores. -/
def ListsAlike (jobs jobs' : Reads Job) (reader : User) : Prop :=
  ∀ query userId sort skip limit, getLatestMany jobs query userId (some reader) sort skip limit =
    getLatestMany jobs' query userId (some reader) sort skip limit

theorem JobView.listsReadable {D : Type} {view : JobView D} {jobs : Reads Job} {data : List D}
    {reader : User} (hshows : view.Shows jobs data) (hlawful : view.IsLawful data reader)
    (hreader : reader.isSuperuser = false) : ListsReadable jobs reader where
  sound _ _ _ _ _ _ _ hlist := list_sound hshows hlawful hreader hlist
  complete h query userId sort all hall := by
    obtain ⟨listed, hlist⟩ := list_ok hshows hlawful hreader hall
    exact ⟨listed, hlist, fun job hjob full hget =>
      list_complete hshows hlawful hreader hall hlist hjob hget⟩

/-- Whether a reader may read the job of a row. -/
def isReadableRow (reader : User) (row : Row) : Bool :=
  row "user_id" = .null ∨ row "user_id" = .scalar (.text reader.id)

/-- Whether a reader may read the job of a document. -/
def isReadableDocument (reader : User) (document : Document) : Bool :=
  Value.get "user_id" document = .null ∨
    Value.get "user_id" document = .scalar (.objectId reader.id)

/-- **Listing and getting jobs agree, and tell nothing of other jobs.** Whatever the query is, its
user's id included, a reader who is no admin is listed jobs that they may get, and all of those that
match if no page is cut; and stores that differ in jobs that they may not read list the same. -/
theorem listing_agrees {validate : Value Scalar → Except ValidationError Job}
    (hkeeps : KeepsIds validate) {reader : User} (hid : isId reader.id = true)
    (hreader : reader.isSuperuser = false) :
    (∀ (lower : String → String) (database : SqlDatabase) (references : References)
        (text : TextOrder) (plan : SqlPlan text) (now : ℤ)
        (s s' : SqlTables database references jobTables),
      let jobs (s : SqlTables database references jobTables) : Reads Job :=
        SqlStore.jobReads lower database plan validate now s.stored.toStoredRows
      ListsReadable (jobs s) reader ∧
        (s.childRows = s'.childRows →
          s.rows.filter (isReadableRow reader) = s'.rows.filter (isReadableRow reader) →
            ListsAlike (jobs s) (jobs s') reader)) ∧
      ∀ (server : MongoServer) (same : Char → Char → Bool) (fold : String → String)
        (plan : MongoPlan server) (distinct : MongoStore.MongoDistinct) (now : ℤ)
        (documents documents' : List Document), MongoStore.AnswersJobs server same fold →
        MongoStore.AreJobs documents → MongoStore.AreJobs documents' →
        let jobs : List Document → Reads Job :=
          MongoStore.jobReads plan validate now distinct
        ListsReadable (jobs documents) reader ∧
          (documents.filter (isReadableDocument reader) =
              documents'.filter (isReadableDocument reader) →
            ListsAlike (jobs documents) (jobs documents') reader) := by
  refine ⟨fun lower database references text plan now s s' => ⟨?_, fun hchildren hsame => ?_⟩,
    fun server same fold plan distinct now documents documents' hserver hjobs hjobs' =>
      ⟨?_, fun hsame => ?_⟩⟩
  · exact JobView.listsReadable (SqlStore.shows_jobView s) (SqlStore.isLawful_jobView s hkeeps reader)
      hreader
  -- the plan shows the same jobs of both stores, as their child rows are the same
  · have hview : SqlStore.jobView lower database plan validate now s'.stored.toStoredRows =
        SqlStore.jobView lower database plan validate now s.stored.toStoredRows :=
      SqlStore.jobView_congr hchildren.symm
    have hshows' : (SqlStore.jobView lower database plan validate now s.stored.toStoredRows).Shows
        (SqlStore.jobReads lower database plan validate now s'.stored.toStoredRows) s'.rows :=
      hview ▸ SqlStore.shows_jobView s'
    have hreadable (t : SqlTables database references jobTables)
        (hview : SqlStore.jobView lower database plan validate now t.stored.toStoredRows =
          SqlStore.jobView lower database plan validate now s.stored.toStoredRows) :
        t.rows.filter ((SqlStore.jobView lower database plan validate now
            s.stored.toStoredRows).isMatch (readableFilter reader)) =
          t.rows.filter (isReadableRow reader) := by
      refine List.filter_congr fun row hrow => Bool.eq_iff_iff.mpr ?_
      rw [← hview, isReadableRow, decide_eq_true_eq]
      exact SqlStore.isMatchedBy_readable reader hrow
    intro query userId sort skip limit
    refine JobView.list_congr (SqlStore.shows_jobView s) hshows'
      (SqlStore.isLawful_jobView s hkeeps reader) hreader ?_
    rw [hreadable s rfl, hreadable s' hview, hsame]
  · exact JobView.listsReadable (MongoStore.shows_jobView distinct documents)
      (MongoStore.isLawful_jobView hkeeps hserver hjobs hid) hreader
  · have hreadable (documents : List Document) (hjobs : MongoStore.AreJobs documents) :
        documents.filter ((MongoStore.jobView plan validate now).isMatch (readableFilter reader)) =
          documents.filter (isReadableDocument reader) := by
      refine List.filter_congr fun document hmem => Bool.eq_iff_iff.mpr ?_
      rw [isReadableDocument, decide_eq_true_eq]
      exact MongoStore.isMatchedBy_readable hserver (hjobs.each document hmem) hid
    intro query userId sort skip limit
    refine JobView.list_congr (MongoStore.shows_jobView distinct documents)
      (MongoStore.shows_jobView distinct documents')
      (MongoStore.isLawful_jobView hkeeps hserver hjobs hid) hreader ?_
    rw [hreadable documents hjobs, hreadable documents' hjobs', hsame]

/-! ## A reader's job and another's -/

/-- The id of Ann. -/
def annId : Id := "00000000000000000000000a"

/-- The row of a job. -/
def jobRow (number : ℤ) (jobId : String) (userId : Value Scalar) : Row := fun column =>
  Value.get column [(rowId, .scalar (.int number)), ("job_id", .scalar (.text jobId)),
    ("device", .scalar (.text "loke")), ("calibration_date", .scalar (.text "")),
    ("status", .scalar (.text "pending")), ("user_id", userId)]

/-- A job of Ann's, and another's. -/
def labJobs : SqlTables sqlite (fun _ _ => true) jobTables where
  rows := [jobRow 1 "a" (.scalar (.text annId)),
    jobRow 2 "b" (.scalar (.text "00000000000000000000000b"))]
  childRows := fun _ => []
  typed := by decide +kernel
  notNull := by decide +kernel
  unique := by decide +kernel
  foreignKeys := by decide +kernel

/-- Ann's job alone. -/
def annJobs : SqlTables sqlite (fun _ _ => true) jobTables where
  rows := [jobRow 1 "a" (.scalar (.text annId))]
  childRows := fun _ => []
  typed := by decide +kernel
  notNull := by decide +kernel
  unique := by decide +kernel
  foreignKeys := by decide +kernel

/-- The job of stored data that have an id. -/
def validateJob : Value Scalar → Except ValidationError Job
  | .document fields =>
    match textAt (Value.get "job_id" fields) with
    | some jobId => .ok
      { jobId, device := "loke", calibrationDate := "", userId := textAt (Value.get "user_id" fields) }
    | none => .error ⟨["job_id"]⟩
  | _ => .error ⟨[]⟩

theorem keepsIds_validateJob : KeepsIds validateJob where
  jobId fields job jobId hvalid hget := by
    simp only [validateJob, hget, textAt, Scalar.asText] at hvalid
    cases hvalid
    rfl
  userId fields job userId hvalid hget := by
    simp only [validateJob, hget, textAt, Scalar.asText] at hvalid
    split at hvalid
    · cases hvalid
      rfl
    · cases hvalid
  noUser fields job hvalid hget := by
    simp only [validateJob, hget, textAt] at hvalid
    split at hvalid
    · cases hvalid
      rfl
    · cases hvalid

/-- The document of a job. -/
def jobDocument (jobId hex : String) : Document :=
  [("job_id", .scalar (.value (.text jobId))), ("user_id", .scalar (.objectId hex))]

theorem isMatch_collatingServer {same : Char → Char → Bool} {fold : String → String}
    (collation : Option Mongo.Collation) (query document : Document) :
    (collatingServer same fold).isMatch collation query document = true ↔
      Mongo.QueryMatches same (readUnder fold collation) document query := by
  simp [collatingServer]

theorem answersJobs_collatingServer (same : Char → Char → Bool) (fold : String → String) :
    MongoStore.AnswersJobs (collatingServer same fold) same fold where
  both a b document := by
    refine Bool.eq_iff_iff.mpr ?_
    rw [Bool.and_eq_true, isMatch_collatingServer, isMatch_collatingServer, isMatch_collatingServer]
    simp [Mongo.QueryMatches, Mongo.EntryMatches, Mongo.EachMatches, Mongo.BodyMatches]
  jobId _ collation document := isMatch_collatingServer collation _ document
  readable _ collation document := isMatch_collatingServer collation _ document

theorem areJobs_lab : MongoStore.AreJobs
    [jobDocument "a" annId, jobDocument "b" "00000000000000000000000b"] where
  each document hmem := by
    have hof (jobId hex : String) : MongoStore.IsJob (jobDocument jobId hex) :=
      ⟨⟨jobId, rfl⟩, .inr ⟨hex, rfl⟩⟩
    rcases List.mem_cons.mp hmem with rfl | hmem
    · exact hof _ _
    · rw [List.mem_singleton.mp hmem]
      exact hof _ _
  apart := by decide +kernel

theorem listing_agrees_ann :
    let ann : User := ⟨annId, "ann@x.se", true, true, [.user]⟩
    let plan : SqlPlan byCodePoint := fun order => Sorting.byMerging (compareRows byCodePoint order)
    let jobs (s : SqlTables sqlite (fun _ _ => true) jobTables) : Reads Job :=
      SqlStore.jobReads latinLower sqlite plan validateJob 0 s.stored.toStoredRows
    ListsAlike (jobs labJobs) (jobs annJobs) ann ∧
      ∀ plan : MongoPlan (collatingServer sqlite.same latinLower),
        ListsReadable (MongoStore.jobReads plan validateJob 0 (fun _ _ _ => [])
          [jobDocument "a" annId, jobDocument "b" "00000000000000000000000b"]) ann := by
  intro ann plan jobs
  obtain ⟨hsql, hmongo⟩ := @listing_agrees validateJob keepsIds_validateJob ann (by decide +kernel)
    (by decide)
  refine ⟨?_, fun plan => ?_⟩
  · refine (hsql latinLower sqlite (fun _ _ => true) byCodePoint plan 0 labJobs annJobs).2 rfl ?_
    have hann (number : ℤ) : isReadableRow ann (jobRow number "a" (.scalar (.text annId))) = true := by
      rfl
    have hother (number : ℤ) : isReadableRow ann
        (jobRow number "b" (.scalar (.text "00000000000000000000000b"))) = false := by
      rfl
    change List.filter _ [_, _] = List.filter _ [_]
    rw [List.filter_cons_of_pos (hann 1), List.filter_cons_of_neg (by rw [hother 2]; decide),
      List.filter_cons_of_pos (hann 1)]
  · exact (hmongo _ _ _ plan (fun _ _ _ => []) 0 _ _ (answersJobs_collatingServer _ _) areJobs_lab
      areJobs_lab).1

end Mss
