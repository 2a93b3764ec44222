import Mss.Instants
import Mss.Services.Jobs
import Mss.Storage.Reads
import Mss.Storage.Updates

/-!
# Reading jobs

Jobs are listed, got by their id, and counted by when they were created. A user who is no admin reads
the jobs they submitted and those with no recorded submitter.

* `jobSchema`: the schema of jobs.
* **`getLatestMany`**: the jobs of a query, those that a reader may read if one is given.
* **`getReadableJob`**: the job of an id, if the user may read it.
* **`countJobSubmitters`**: the jobs of a window of time, or their submitters.
-/

namespace Mss

open Storage

/-! ## The schema -/

/-- A type or None. -/
def optional (a : FieldType) : FieldType := .generic .union [a, .noneType]

/-- When a stage of a job started and finished. -/
def timestampPairFields : Fields :=
  [("started", optional (.scalar .datetime)), ("finished", optional (.scalar .datetime))]

/-- The stages of a job. -/
def jobTimestampsFields : Fields :=
  ["registration", "pre_processing", "execution", "post_processing", "final"].map fun stage =>
    (stage, optional (.model false timestampPairFields))

/-- A list of a type. -/
def listOf (a : FieldType) : FieldType := .generic .list [a]

/-- The results of a job. -/
def jobResultFields : Fields :=
  let hexMemory := listOf (listOf (.scalar .str))
  let iqPoint := .generic .tuple [.scalar .float, .scalar .float]
  let iqMemory := listOf (listOf (listOf iqPoint))
  [("memory", .generic .union [hexMemory, iqMemory]), ("shots", optional (.scalar .int)),
    ("meas_level", optional (.scalar .literal)), ("meas_return", optional (.scalar .literal)),
    ("circuits", optional (listOf (.model false
      [("name", .scalar .str), ("num_clbits", .scalar .int)])))]

/-- What a job was submitted with. -/
def jobSourceFields : Fields :=
  [("shots", .scalar .int), ("meas_level", .scalar .literal), ("meas_return", .scalar .literal),
    ("circuits", listOf (.model false [("name", .scalar .str), ("qasm", .scalar .str)]))]

/-- The fields of a job. -/
def jobFields : Fields :=
  [("device", .scalar .str), ("calibration_date", .scalar .str), ("id", optional (.scalar .id)),
    ("job_id", .scalar .str), ("project_id", optional (.scalar .id)),
    ("user_id", optional (.scalar .id)), ("status", .scalar .strEnum),
    ("failure_reason", optional (.scalar .str)), ("cancellation_reason", optional (.scalar .str)),
    ("timestamps", optional (.model false jobTimestampsFields)),
    ("download_url", optional (.scalar .str)), ("result", optional (.model false jobResultFields)),
    ("estimated_duration", optional (.scalar .float)),
    ("actual_duration", optional (.scalar .float)),
    ("source", optional (.model false jobSourceFields)),
    ("access_token", optional (.scalar .str)), ("created_at", optional (.scalar .str)),
    ("updated_at", optional (.scalar .str))]

/-- **The schema of jobs.** -/
def jobSchema : Schema where
  name := "Job"
  fields := jobFields
  allowsExtra := false
  storage :=
    { table := "jobs", key := "job_id", indexes := [["job_id"]], shouldSkipInvalid := true }
  undotted := by decide
  expiresAt := by simp

/-- The tables of jobs. -/
def jobTables : SchemaTables := (getTablesOf jobSchema).get (by decide +kernel)

/-! ## Listing -/

/-- **A query of jobs**: the values of the fields that it sets. -/
abbrev JobQuery := List (String × PyValue)

/-- The filter of a query, whose jobs are a user's if one is given. -/
def jobFilter (query : JobQuery) (userId : Option Id) : Filter :=
  let values :=
    match userId with
    | none => query
    | some id => assign "user_id" (.scalar (.str id)) query
  values.map fun v => .field v.1 v.2

/-- The filter of the jobs that a user may read. -/
def readableFilter (reader : User) : Filter :=
  [.field "user_id" (.dict [("$in", .sequence .list [.scalar (.str reader.id), .none])])]

/-- The filter of a listing. -/
def listingFilter (query : JobQuery) (userId : Option Id) : Option User → Filter
  | none => jobFilter query userId
  | some reader =>
    if reader.isSuperuser then jobFilter query userId
    else [.logical .and [jobFilter query userId, readableFilter reader]]

/-- A job without its access token. -/
def Job.withoutToken (job : Job) : Job := { job with accessToken := none }

variable (jobs : Reads Job)

/-- **The jobs of a query**, those that the reader may read, without their access tokens. -/
def getLatestMany (query : JobQuery) (userId : Option Id) (reader : Option User)
    (sort : List String) (skip : ℕ) (limit : Option ℕ) : Except FindError (List Job) := do
  let found ← jobs.find (listingFilter query userId reader) sort skip limit
  return found.map Job.withoutToken

/-! ## Getting -/

/-- What getting a job raises: what reading it does, or another error. -/
inductive JobError
  | find (error : FindError)
  | raised (error : Exc)

/-- The stored job of an id. -/
def getStoredJob (h : Host) (jobId : String) (shouldDecryptToken : Bool) : Except JobError Job := do
  match ← (jobs.get (.scalar (.str jobId))).mapError .find with
  | none => throw (.raised (noJob jobId))
  | some job => if shouldDecryptToken then (decryptToken h job).mapError .raised else return job

/-- Whether a user may read a job. -/
def isJobReadableBy (job : Job) (user : User) : Bool :=
  job.userId.isNone || job.userId == some user.id || user.isSuperuser

/-- **The job of an id**, if the user may read it. -/
def getReadableJob (h : Host) (jobId : String) (user : User) (shouldDecryptToken : Bool) :
    Except JobError Job := do
  let job ← getStoredJob jobs h jobId shouldDecryptToken
  if !isJobReadableBy job user then throw (.raised (noJob jobId)) else return job

/-! ## Counting -/

/-- The filter of the jobs created from a start on and before an end. -/
def windowFilter (start end_ : Instant) : Filter :=
  [.field "created_at" (.dict [("$gte", .scalar (.str (datetimeToZulu start))),
    ("$lt", .scalar (.str (datetimeToZulu end_)))])]

/-- **The number of jobs of a window**, or of the users who submitted them. -/
def countJobSubmitters (start end_ : Instant) (shouldCountDistinct : Bool) : Except FindError ℕ :=
  if !shouldCountDistinct then jobs.count (windowFilter start end_)
  else do
    let submitterIds ← jobs.findDistinct "user_id" (windowFilter start end_)
    return (submitterIds.filter fun userId => !isNullValue userId).length

end Mss
