import Mss.Records

/-!
# Jobs and their timestamps

* `DateTime.sub`: the difference of two datetimes, which a naive and an aware one have not.
* `JobTimestamps.resourceUsage`: the seconds a job ran for, once both ends of its execution are
  known.
* `Job`, `JobUpdate`, `Job.apply`: a job and what an update changes of it.
* `SentJobUpdate`: what the backend's specification lets a job's event carry.
* `Backend`, `JobTimestamps.stored`: what each database keeps of the timestamps.
-/

namespace Mss

/-- The databases the records are kept in. -/
inductive Backend
  | sql | mongodb
  deriving DecidableEq, Repr

/-! ## Datetimes -/

/-- A datetime: its wall clock in microseconds, and its offset from UTC unless it is naive. -/
structure DateTime where
  micros : ℤ
  offset : Option ℤ
  deriving DecidableEq, Repr

namespace DateTime

/-- Whether the datetime knows its offset. -/
def isAware (d : DateTime) : Bool := d.offset.isSome

/-- The microseconds in UTC, a naive datetime being read as UTC. -/
def utcMicros (d : DateTime) : ℤ := d.micros - d.offset.getD 0

/-- The difference in microseconds, none (a `TypeError`) between a naive and an aware one. -/
def sub (a b : DateTime) : Option ℤ :=
  if a.isAware = b.isAware then some (a.utcMicros - b.utcMicros) else none

/-- What the database gives back of a datetime inside a record: MongoDB keeps whole milliseconds
in UTC, and a JSON column the text as it is. -/
def stored : Backend → DateTime → DateTime
  | .sql, d => d
  | .mongodb, d => ⟨d.utcMicros / 1000 * 1000, some 0⟩

end DateTime

/-! ## Timestamps -/

/-- When a stage of a job started and finished. -/
structure TimestampPair where
  started : Option DateTime := none
  finished : Option DateTime := none
  deriving DecidableEq, Repr

/-- The timestamps of a job's stages. -/
structure JobTimestamps where
  registration : Option TimestampPair := none
  preProcessing : Option TimestampPair := none
  execution : Option TimestampPair := none
  postProcessing : Option TimestampPair := none
  final : Option TimestampPair := none
  deriving DecidableEq, Repr

/-- The seconds the execution took, none where either end is missing or the two do not compare. -/
def JobTimestamps.resourceUsage (t : JobTimestamps) : Option ℚ := do
  let execution ← t.execution
  let micros ← (← execution.finished).sub (← execution.started)
  return (micros : ℚ) / 1000000

/-- What the database gives back of a stage. -/
def TimestampPair.stored (b : Backend) (p : TimestampPair) : TimestampPair :=
  ⟨p.started.map (.stored b), p.finished.map (.stored b)⟩

/-- What the database gives back of a job's timestamps. -/
def JobTimestamps.stored (b : Backend) (t : JobTimestamps) : JobTimestamps where
  registration := t.registration.map (.stored b)
  preProcessing := t.preProcessing.map (.stored b)
  execution := t.execution.map (.stored b)
  postProcessing := t.postProcessing.map (.stored b)
  final := t.final.map (.stored b)

/-! ## Jobs -/

/-- The status of a job. -/
inductive JobStatus
  | pending | successful | failed | executing | cancelled
  deriving DecidableEq, Repr

/-- What a job measured: hexadecimal counts, or IQ points. -/
inductive JobMemory
  | hex (memory : List (List String))
  | iq (memory : List (List (List (ℚ × ℚ))))
  deriving DecidableEq, Repr

/-- The results of a job. -/
structure JobResult where
  memory : JobMemory
  shots : Option ℕ := none
  measLevel : Option ℕ := none
  measReturn : Option String := none
  circuits : Option (List (String × ℕ)) := none
  deriving DecidableEq, Repr

/-- A job. -/
structure Job where
  jobId : String
  device : String
  calibrationDate : String
  projectId : Option Id := none
  userId : Option Id := none
  status : JobStatus := .pending
  failureReason : Option String := none
  cancellationReason : Option String := none
  timestamps : Option JobTimestamps := none
  downloadUrl : Option String := none
  result : Option JobResult := none
  estimatedDuration : Option ℚ := none
  actualDuration : Option ℚ := none
  accessToken : Option String := none
  createdAt : Option String := none
  updatedAt : Option String := none
  deriving DecidableEq, Repr

/-- The seconds the job ran for, by its stored timestamps. -/
def Job.durationInSecs (j : Job) : Option ℚ := j.timestamps.bind (·.resourceUsage)

/-- The new values of a job's fields; one left out is not changed. -/
structure JobUpdate where
  jobId : Option String := none
  device : Option String := none
  calibrationDate : Option String := none
  projectId : Option Id := none
  userId : Option Id := none
  status : Option JobStatus := none
  failureReason : Option String := none
  cancellationReason : Option String := none
  timestamps : Option JobTimestamps := none
  downloadUrl : Option String := none
  result : Option JobResult := none
  estimatedDuration : Option ℚ := none
  actualDuration : Option ℚ := none
  accessToken : Option String := none
  createdAt : Option String := none
  updatedAt : Option String := none
  deriving DecidableEq, Repr

/-- The job after a `$set` of every value given, as the database gives it back. Its key is not
changed: the update is of the job of that `job_id`. -/
def Job.apply (b : Backend) (u : JobUpdate) (j : Job) : Job :=
  { j with
    device := u.device.getD j.device
    calibrationDate := u.calibrationDate.getD j.calibrationDate
    projectId := u.projectId <|> j.projectId
    userId := u.userId <|> j.userId
    status := u.status.getD j.status
    failureReason := u.failureReason <|> j.failureReason
    cancellationReason := u.cancellationReason <|> j.cancellationReason
    timestamps := u.timestamps.map (.stored b) <|> j.timestamps
    downloadUrl := u.downloadUrl <|> j.downloadUrl
    result := u.result <|> j.result
    estimatedDuration := u.estimatedDuration <|> j.estimatedDuration
    actualDuration := u.actualDuration <|> j.actualDuration
    accessToken := u.accessToken <|> j.accessToken
    createdAt := u.createdAt <|> j.createdAt
    updatedAt := u.updatedAt <|> j.updatedAt }

@[simp] theorem Job.apply_jobId (b : Backend) (u : JobUpdate) (j : Job) :
    (j.apply b u).jobId = j.jobId := rfl

/-- **What a job's event may carry**: the fields the backend's specification declares. -/
structure SentJobUpdate where
  jobId : Option String := none
  device : Option String := none
  calibrationDate : Option String := none
  userId : Option Id := none
  status : Option JobStatus := none
  failureReason : Option String := none
  cancellationReason : Option String := none
  timestamps : Option JobTimestamps := none
  downloadUrl : Option String := none
  result : Option JobResult := none
  estimatedDuration : Option ℚ := none
  actualDuration : Option ℚ := none
  createdAt : Option String := none
  updatedAt : Option String := none
  deriving DecidableEq, Repr

/-- What is kept of an event: nothing undeclared passes, so no project and no access token. -/
def SentJobUpdate.toJobUpdate (e : SentJobUpdate) : JobUpdate where
  jobId := e.jobId
  device := e.device
  calibrationDate := e.calibrationDate
  userId := e.userId
  status := e.status
  failureReason := e.failureReason
  cancellationReason := e.cancellationReason
  timestamps := e.timestamps
  downloadUrl := e.downloadUrl
  result := e.result
  estimatedDuration := e.estimatedDuration
  actualDuration := e.actualDuration
  createdAt := e.createdAt
  updatedAt := e.updatedAt

end Mss
