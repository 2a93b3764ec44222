import Mss.Services.Projects

/-!
# Requests

Deciding a pending request: **`update`** finds it, does what it asks for if it is approved, and
records the decision. The six actions are those of the six types of requests.
-/

namespace Mss

open Atomic Storage Prog

variable (h : Host) (g : Generated)

/-! ## The actions -/

/-- The project of the given id, or that none is found. -/
def getActedProject (projectId : Id) : Service Project :=
  tryCatch (getProject projectId) fun e => match e with
    | .projectNotExists _ => throw (.notFound ("project " ++ projectId ++ " not found"))
    | e => throw e

/-- The ids of the users of the given emails, keyed by each email as given; one that has no user
is not created. -/
def getKnownEmailIdMap (emails : List String) : Service (Dict Id) := do
  let users ← call (.findUsersByEmail emails)
  let idByLowerEmail : Dict Id :=
    Dict.update [] (users.map fun user => (h.lower user.email, user.id))
  let missing := emails.filter fun email => h.lower email ∉ idByLowerEmail.map Prod.fst
  if missing ≠ [] then
    throw (.notFound ("no users of emails " ++ toString missing))
  else do
    let ids ← ofExcept (emails.mapM fun email => idByLowerEmail.get (h.lower email))
    return Dict.update [] (emails.zip ids)

/-- Close the project of a close-project request, keeping a copy of it. -/
def closeProject (request : Request) : Service Unit := do
  let project ← getActedProject request.resourceId
  deleteProject g project true

/-- Do what the request asks for, according to its type. -/
def doAction (request : Request) (approver : User) : Service Unit :=
  match request.metadata with
  | .createProject name qpuSeconds description adminEmail userEmails =>
    tryCatch
      (do
        let _ ← createProject h g { name, qpuSeconds, description, adminEmail, userEmails } approver)
      fun e => match e with
        | .projectExists => throw (.conflict ("a project named '" ++ name ++ "' already exists"))
        | e => throw e
  | .closeProject => closeProject g request
  | .transferProject adminEmail => do
    let project ← getActedProject request.resourceId
    let emailIdMap ← getKnownEmailIdMap h [adminEmail]
    let adminId ← ofExcept (emailIdMap.get adminEmail)
    let _ ← setAdmin project.id adminId
  | .projectQpuSeconds seconds => do
    let project ← getActedProject request.resourceId
    let _ ← incrementQpuSeconds (some project.id) seconds.1
  | .projectPulseAccess => do
    let project ← getActedProject request.resourceId
    let _ ← setPulseAllowed project.id
  | .projectAccess => do
    let project ← getActedProject request.resourceId
    let _ ← addMember project.id request.requesterId

/-- Do the action of the request. `do_many_actions` takes many at once; its one caller gives it
one, so that there is one task to gather and one error at most in the group. -/
def doManyActions (request : Request) (approver : User) : Service Unit :=
  tryCatch (doAction h g request approver) fun e =>
    throw (.exceptionGroup "errors doing bulk action" [e])

/-! ## Deciding -/

/-- The pending request of the given id that awaits the approver. -/
def findPendingForApprover (pk : Id) (approver : User) : Service Request := do
  match ← call (.findPendingRequest pk approver.id) with
  | some request => pure request
  | none => throw (.notFound "no match found")

/-- The changes that record the approver's decision. -/
def RequestUpdate.changes (decision : RequestUpdate) (approver : User) : RequestChanges where
  status := decision.status
  rejectionReason := decision.rejectionReason
  approverId := some approver.id
  approverName := some approver.username
  updatedAt := some decision.updatedAt

/-- Store the approver's decision on the request, and get the request as decided. -/
def recordDecision (request : Request) (approver : User) (decision : RequestUpdate) :
    Service Request := do
  let _ ← ofExcept (← call (.updateRequest request.id (decision.changes approver)))
  return request.apply (decision.changes approver)

/-- Clear the notices that asked every possible approver to decide the request. -/
def clearApproverNotices (request : Request) : Service Unit :=
  call (.clearNoticesByReference request.resource [request.id])

/-- Tell the requester of the decision on their request. -/
def notifyRequester (request : Request) : Service Unit :=
  match request.noticeType with
  | none => throw (.keyError "(type, status)")
  | some noticeType =>
    createSystemNotice
      { userIds := [request.requesterId], noticeType, context := request.noticeContext,
        refType := request.resource, refId := request.id }

/-- Whether the payload decides the request. -/
def RequestUpdate.isDecision (payload : RequestUpdate) : Bool :=
  payload.newStatus = some .approved ∨ payload.newStatus = some .rejected

/-- Clear the notices of a decided request and tell its requester. -/
def tellDecision (payload : RequestUpdate) (decided : Request) : Service Unit :=
  if payload.isDecision then do
    clearApproverNotices decided
    notifyRequester decided
  else pure ()

/-- Do what the request asks for, if the payload approves it. -/
def actIfApproved (payload : RequestUpdate) (request : Request) (approver : User) :
    Service Unit :=
  if payload.newStatus = some .approved then doManyActions h g request approver else pure ()

/-- **Decide the pending request of the given id that awaits the current user.** -/
def update (pk : Id) (payload : RequestUpdate) (currentUser : User) : Service Request := do
  let request ← findPendingForApprover pk currentUser
  actIfApproved h g payload request currentUser
  let decided ← recordDecision request currentUser payload
  tellDecision payload decided
  return decided

/-! ## The actions, one operation at a time -/

theorem getActedProject_eq (projectId : Id) :
    getActedProject projectId = call (.getProject projectId) >>= fun r => match r with
      | some project => .ret project
      | none => .raise (.notFound ("project " ++ projectId ++ " not found")) := by
  simp only [getActedProject, getProject, perform_bind, tryCatch_call]
  congr 1
  funext r
  cases r <;> rfl

variable {h g} in
theorem doManyActions_qpuSeconds {request : Request} {seconds : {s : ℚ // 0 < s}}
    (hmetadata : request.metadata = .projectQpuSeconds seconds) (approver : User) :
    doManyActions h g request approver =
      call (.getProject request.resourceId) >>= fun r => match r with
        | some project =>
          call (.updateProject project.id { qpuSeconds := some (.inc seconds.1) }) >>= fun r =>
            tryCatch (ofExcept r >>= fun _ => .ret ()) fun e =>
              .raise (.exceptionGroup "errors doing bulk action" [e])
        | none => .raise (.exceptionGroup "errors doing bulk action"
            [.notFound ("project " ++ request.resourceId ++ " not found")]) := by
  simp only [doManyActions, doAction, hmetadata, getActedProject_eq, perform_bind, call_bind,
    tryCatch_call]
  congr 1
  funext r
  cases r <;> rfl

variable {h g} in
theorem update_eq (pk : Id) (payload : RequestUpdate) (user : User) :
    update h g pk payload user = call (.findPendingRequest pk user.id) >>= fun r => match r with
      | some request => do
        actIfApproved h g payload request user
        let decided ← recordDecision request user payload
        tellDecision payload decided
        return decided
      | none => .raise (.notFound "no match found") := by
  simp only [update, findPendingForApprover, perform_bind, call_bind]
  congr 1
  funext r
  cases r <;> rfl

/-! ## The operations called -/

section Calls

variable {h g} {Q : Op → Prop}

theorem calls_getActedProject {projectId : Id} (hQ : Q (.getProject projectId)) :
    (getActedProject projectId).Calls Q := by
  refine calls_tryCatch (calls_getProject hQ) fun e => ?_
  cases e <;> trivial

theorem calls_recordDecision {request : Request} {approver : User} {decision : RequestUpdate}
    (hQ : Q (.updateRequest request.id (decision.changes approver))) :
    (recordDecision request approver decision).Calls Q := by
  refine calls_bind ((calls_perform _).mpr hQ) fun r => ?_
  exact calls_bind (calls_ofExcept r) fun _ => trivial

theorem calls_tellDecision (hcreate : ∀ n, Q (.createSystemNotice n))
    (hclear : ∀ refType refIds, Q (.clearNoticesByReference refType refIds))
    (payload : RequestUpdate) (decided : Request) : (tellDecision payload decided).Calls Q := by
  unfold tellDecision
  split_ifs
  · refine calls_bind ((calls_perform _).mpr (hclear _ _)) fun _ => ?_
    unfold notifyRequester
    split
    · trivial
    · exact calls_createSystemNotice (hcreate _)
  · trivial

theorem calls_getKnownEmailIdMap (hQ : ∀ o : Op, o.isMembership → Q o) (emails : List String) :
    (getKnownEmailIdMap h emails).Calls Q := by
  refine calls_bind ((calls_perform _).mpr (hQ _ rfl)) fun users => ?_
  dsimp only
  split_ifs
  · trivial
  · exact calls_bind (calls_ofExcept _) fun _ => trivial

theorem calls_closeProject {request : Request} (hget : Q (.getProject request.resourceId))
    (htokens : ∀ f, Q (.deleteAppTokens f)) (hdelete : ∀ id, Q (.deleteProject id))
    (hcopy : ∀ p, Q (.insertDeletedProject p)) : (closeProject g request).Calls Q := by
  refine calls_bind (calls_getActedProject hget) fun project => ?_
  exact calls_deleteProject (htokens _) (hdelete _) (hcopy _)

theorem calls_doAction (hQ : ∀ o : Op, o.isMembership → Q o)
    (hget : ∀ id, Q (.getProject id))
    (hinsert : ∀ p : Project, p.adminId ∈ p.userIds → Q (.insertProject p))
    (hupdate : ∀ id u, (u.userIds = none ∧ u.adminId = none ∨ ∃ userId,
      u.userIds = some (.addToSet userId) ∧ (u.adminId = none ∨ u.adminId = some userId)) →
      Q (.updateProject id u))
    {request : Request} (hopen : request.metadata ≠ .closeProject) (approver : User) :
    (doAction h g request approver).Calls Q := by
  unfold doAction
  split
  · refine calls_tryCatch (calls_bind (calls_createProject hQ (fun p _ => hinsert p) _ _)
      fun _ => trivial) fun e => ?_
    cases e <;> trivial
  · next hclose => exact absurd hclose hopen
  · refine calls_bind (calls_getActedProject (hget _)) fun project => ?_
    refine calls_bind (calls_getKnownEmailIdMap hQ _) fun d => ?_
    refine calls_bind (calls_ofExcept _) fun adminId => ?_
    exact calls_bind (calls_updateOne (hupdate _ _ (.inr ⟨adminId, rfl, .inr rfl⟩)))
      fun _ => trivial
  · refine calls_bind (calls_getActedProject (hget _)) fun project => ?_
    exact calls_bind (calls_updateOne (hupdate _ _ (.inl ⟨rfl, rfl⟩))) fun _ => trivial
  · refine calls_bind (calls_getActedProject (hget _)) fun project => ?_
    exact calls_bind (calls_updateOne (hupdate _ _ (.inl ⟨rfl, rfl⟩))) fun _ => trivial
  · refine calls_bind (calls_getActedProject (hget _)) fun project => ?_
    exact calls_bind (calls_updateOne (hupdate _ _ (.inr ⟨request.requesterId, rfl, .inl rfl⟩)))
      fun _ => trivial

theorem calls_doAction_of_writes (hQ : ∀ o : Op, o.writes ≠ some .requests → Q o)
    (request : Request) (approver : User) : (doAction h g request approver).Calls Q := by
  by_cases hclose : request.metadata = .closeProject
  · simp only [doAction, hclose]
    refine calls_closeProject (hQ _ ?_) (fun _ => hQ _ ?_) (fun _ => hQ _ ?_) fun _ => hQ _ ?_
    all_goals simp [Op.writes]
  · refine calls_doAction (fun o ho => hQ o ?_) (fun _ => hQ _ ?_) (fun _ _ => hQ _ ?_)
      (fun _ _ _ => hQ _ ?_) hclose approver
    · cases o <;> simp_all [Op.isMembership, Op.writes]
    all_goals simp [Op.writes]

theorem calls_doManyActions (hQ : ∀ o : Op, o.writes ≠ some .requests → Q o) (request : Request)
    (approver : User) : (doManyActions h g request approver).Calls Q :=
  calls_tryCatch (calls_doAction_of_writes hQ request approver) fun _ => trivial

end Calls

end Mss
