import Mss.Services.Projects

/-!
# Jobs

* `getJob`, `updateJob`: reading and updating a job.
* `updateQpuUsage`: charging a job's QPU seconds to its project, with the notice it may need.
* **`onJobUpdatedEvent`**: the handler of a backend's event that a job was updated.
-/

namespace Mss

open Atomic Storage Prog

variable (h : Host) (g : Generated)

/-- The error of getting a job that is not there. -/
def noJob (jobId : String) : Exc :=
  .notFound ("no matches for '\x7b'job_id': '" ++ jobId ++ "'\x7d'")

/-- The error of updating a job that is not there. -/
def jobNotFound (jobId : Option String) : Exc :=
  let shown := match jobId with
    | some jobId => "'" ++ jobId ++ "'"
    | none => "None"
  .notFound ("no matches for \x7b'job_id': " ++ shown ++ "\x7d")

/-- The job with its access token decrypted, if it has one. -/
def decryptToken (job : Job) : Except Exc Job :=
  match job.accessToken with
  | none => .ok job
  | some token =>
    if token = "" then .ok job
    else (h.decrypt token).map fun token => { job with accessToken := some token }

/-- The job of the given id, its access token decrypted if asked. -/
def getJob (jobId : String) (shouldDecryptToken : Bool := false) : Service Job := do
  match ← call (.getJob jobId) with
  | none => throw (noJob jobId)
  | some job => if shouldDecryptToken then ofExcept (decryptToken h job) else pure job

/-- Update the job of the given id, returning it as it was before. -/
def updateJob (jobId : Option String) (payload : JobUpdate) : Service Job := do
  match jobId with
  | none => throw (jobNotFound none)
  | some jobId =>
    match ← call (.updateJob jobId { payload with updatedAt := some g.now }) with
    | none => throw (jobNotFound (some jobId))
    | some job => pure job

/-- The nearest whole number, a half going to the even one. -/
def round (x : ℚ) : ℤ :=
  let below := x.floor
  if x - below < 1 / 2 then below
  else if 1 / 2 < x - below then below + 1
  else if below % 2 = 0 then below else below + 1

/-- The notice for a project's QPU seconds going from `before` to `after`. -/
def chooseQpuNotice (before after threshold : ℚ) : Option NoticeTypeId :=
  if after ≤ 0 ∧ 0 < before then some .qpuSecondsDepleted
  else if after < threshold ∧ threshold < before then some .qpuSecondsLow
  else none

/-- Tell the members a project is out of QPU time, or its admin that it is running low. -/
def notifyProject (project : Project) (noticeType : NoticeTypeId) : Service Unit :=
  let context : ProjectRequestContext := { projectId := project.id, projectName := project.name }
  if noticeType = .qpuSecondsDepleted then
    createSystemNotice
      { userIds := project.userIds, noticeType, context, refType := .project, refId := project.id }
  else
    createSystemNotice
      { userIds := [project.adminId], noticeType,
        context := { context with seconds := some (round project.qpuSeconds) },
        refType := .project, refId := project.id }

/-- Charge the usage of a job to its project. -/
def updateQpuUsage (threshold : ℚ) (jobId : String) (qpuUsage : ℚ) :
    Service (Option Project) := do
  let job ← getJob h jobId
  match ← incrementQpuSeconds job.projectId (-qpuUsage), job.projectId with
  | none, none => pure none
  | none, some projectId =>
    throw (.notFound ("project '" ++ projectId ++ "' for job '" ++ jobId ++ "' not found"))
  | some project, _ =>
    match chooseQpuNotice (project.qpuSeconds + qpuUsage) project.qpuSeconds threshold with
    | none => pure (some project)
    | some noticeType => do
      notifyProject project noticeType
      return some project

/-- Charge the job's usage, if its update reports one and it had none before. -/
def chargeFirstUsage (threshold : ℚ) (jobId : String) (oldJob : Job) (data : JobUpdate) :
    Service Unit :=
  match oldJob.durationInSecs, data.timestamps.bind (·.resourceUsage) with
  | none, some qpuUsage => do
    let _ ← updateQpuUsage h threshold jobId qpuUsage
  | _, _ => pure ()

/-- **The handler of a job-updated event.** -/
def onJobUpdatedEvent (threshold : ℚ) (data : JobUpdate) : Service Job := do
  let oldJob ← updateJob g data.jobId data
  let jobId := data.jobId.getD ""
  chargeFirstUsage h threshold jobId oldJob data
  getJob h jobId true

/-! ## The operations called -/

section Calls

variable {h g} {Q : Op → Prop}

theorem calls_getJob {jobId : String} {shouldDecryptToken : Bool} (hQ : Q (.getJob jobId)) :
    (getJob h jobId shouldDecryptToken).Calls Q := by
  refine calls_bind ((calls_perform _).mpr hQ) fun r => ?_
  cases r with
  | none => trivial
  | some job =>
    dsimp only
    split_ifs
    · exact calls_ofExcept _
    · trivial

theorem calls_notifyProject (hQ : ∀ n, Q (.createSystemNotice n)) (project : Project)
    (noticeType : NoticeTypeId) : (notifyProject project noticeType).Calls Q := by
  unfold notifyProject
  dsimp only
  split_ifs <;> exact calls_createSystemNotice (hQ _)

end Calls

end Mss
