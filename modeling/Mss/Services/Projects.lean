import Mss.Services.Membership

/-!
# Projects

The services of projects: reading, creating, updating and deleting them, and changing their
members and QPU seconds.

* `createProject`, `updateProject`, `removeMember`, `deleteProject`, `ensurePersonalProject`.
* `incrementQpuSeconds`, `setPulseAllowed`, `addMember`, `setAdmin`: one update each.
* `getProjectOr404`, `removeMemberRoute`, `destroyRoute`, `putProjectRoute`,
  `deleteProjectRoute`: the routes that read a project and hand it on.
-/

namespace Mss

open Atomic Storage Prog

variable (h : Host) (g : Generated)

/-! ## Reading -/

/-- The project of the given id. -/
def getProject (projectId : Id) : Service Project := do
  match ← call (.getProject projectId) with
  | some project => pure project
  | none => throw (.projectNotExists ("project " ++ projectId ++ " not found"))

/-- The project of the given id if the user is a member, else none. -/
def getProjectIfMember (projectId userId : Id) : Service (Option Project) :=
  call (.findProjectOfMember projectId userId)

/-! ## Their app tokens -/

/-- Delete every app token for the project. -/
def deleteProjectTokens (projectId : Id) : Service ℕ :=
  call (.deleteAppTokens { projectId })

/-- Delete the project's app tokens of users who are not among its members. -/
def deleteNonMemberTokens (projectId : Id) (memberIds : List Id) : Service ℕ :=
  call (.deleteAppTokens { projectId, notUserIds := some memberIds })

/-! ## Creating -/

/-- The members of a project to be created: the users named, and its admin. -/
def withAdmin (userIds : List Id) (adminId : Id) : List Id :=
  if adminId ∈ userIds then userIds else userIds ++ [adminId]

theorem mem_withAdmin (userIds : List Id) (adminId : Id) : adminId ∈ withAdmin userIds adminId := by
  unfold withAdmin
  split_ifs with hmem
  · exact hmem
  · simp

theorem subset_withAdmin (userIds : List Id) (adminId : Id) :
    userIds ⊆ withAdmin userIds adminId := by
  unfold withAdmin
  split_ifs
  · exact fun _ hx => hx
  · exact List.subset_append_left _ _

/-- Insert a project, or raise that one of its name exists. -/
def insertProject (project : Project) : Service Unit := do
  match ← call (.insertProject project) with
  | .ok _ => pure ()
  | .error .duplicateKey => throw .projectExists
  | .error e => throw e

/-- Create a project and tell its members about it. -/
def createProject (payload : ProjectCreate) (actor : User) : Service Project := do
  let emailIdMap ← getUserEmailIdMap h g (payload.userEmails ++ [payload.adminEmail])
  let adminId ← ofExcept (emailIdMap.get payload.adminEmail)
  let userIds ← ofExcept (payload.userEmails.mapM emailIdMap.get)
  let project : Project :=
    { id := g.id, name := payload.name, qpuSeconds := payload.qpuSeconds,
      description := payload.description, isPulseAllowed := payload.isPulseAllowed,
      userIds := withAdmin userIds adminId, adminId, createdAt := g.now, updatedAt := g.now }
  insertProject project
  notifyMembershipChange none (some project) actor
  return project

/-- A user's new personal project, with the given QPU seconds. -/
def personalProject (user : User) (qpuSeconds : ℚ) : Project where
  id := h.deriveId user.id "project"
  name := user.username ++ " (personal)"
  description := user.username ++ " personal project"
  qpuSeconds := qpuSeconds
  adminId := user.id
  userIds := [user.id]
  isPersonal := true
  createdAt := g.now
  updatedAt := g.now

/-- The user's personal project, created with the given QPU seconds if there is none. -/
def ensurePersonalProject (user : User) (qpuSeconds : ℚ) : Service (Option Project) := do
  let projectId := h.deriveId user.id "project"
  match ← call (.getProject projectId) with
  | some existing => pure (some existing)
  | none =>
    let project := personalProject h g user qpuSeconds
    match ← call (.insertProject project) with
    | .ok _ => pure (some project)
    | .error .duplicateKey => call (.getProject projectId)
    | .error e => throw e

/-! ## Updating -/

/-- The admin's id after an update of a project. -/
def chooseAdminId (emailIdMap : Dict Id) (project : Project) (payload : ProjectUpdate) :
    Except Exc Id :=
  match payload.adminEmail with
  | some email => emailIdMap.get email
  | none => .ok project.adminId

/-- The members' ids after an update of a project, without its admin. -/
def chooseUserIds (emailIdMap : Dict Id) (project : Project) (payload : ProjectUpdate) :
    Except Exc (List Id) :=
  match payload.userEmails with
  | some emails => emails.mapM emailIdMap.get
  | none => .ok project.userIds

/-- The changes of an update of a project: the values sent, its admin, and its members if they
are others than before. -/
def ProjectUpdate.changes (payload : ProjectUpdate) (project : Project) (adminId : Id)
    (userIds : List Id) : ProjectChanges where
  name := payload.name
  qpuSeconds := payload.qpuSeconds.map .set
  description := payload.description
  isPulseAllowed := payload.isPulseAllowed
  isActive := payload.isActive
  userIds := if userIds ≠ project.userIds then some (.set userIds) else none
  adminId := some adminId
  updatedAt := payload.updatedAt

/-- Delete the app tokens of the members who leave, if the members change. -/
def revokeLeaving (project : Project) (userIds : List Id) : Service Unit :=
  if userIds ≠ project.userIds then do
    let _ ← deleteNonMemberTokens project.id userIds
  else pure ()

/-- Update a project, telling the users whose standing changed. -/
def updateProject (project : Project) (payload : ProjectUpdate) (actor : User) :
    Service (Option Project) := do
  let emailIdMap ← getUserEmailIdMap h g
    (payload.userEmails.getD [] ++ payload.adminEmail.toList)
  let adminId ← ofExcept (chooseAdminId emailIdMap project payload)
  let namedIds ← ofExcept (chooseUserIds emailIdMap project payload)
  let userIds := withAdmin namedIds adminId
  revokeLeaving project userIds
  let updatedProject ← ofExcept (←
    call (.updateProject project.id (payload.changes project adminId userIds)))
  notifyMembershipChange (some project) updatedProject actor
  return updatedProject

/-- Remove a member from a project, revoking their app tokens for it. -/
def removeMember (project : Project) (memberId : Id) (actor : User) :
    Service (Option Project) := do
  let userIds := project.userIds.filter (· ≠ memberId)
  let _ ← deleteNonMemberTokens project.id userIds
  let updatedProject ← ofExcept (←
    call (.updateProject project.id { userIds := some (.set userIds) }))
  notifyMembershipRevoked updatedProject memberId actor
  return updatedProject

/-- Increment the QPU seconds of the given project; no id matches no project. -/
def incrementQpuSeconds (projectId : Option Id) (qpuSeconds : ℚ) : Service (Option Project) := do
  match projectId with
  | none => pure none
  | some projectId =>
    ofExcept (← call (.updateProject projectId { qpuSeconds := some (.inc qpuSeconds) }))

/-- Let the project's jobs be pulse-level. -/
def setPulseAllowed (projectId : Id) : Service (Option Project) := do
  ofExcept (← call (.updateProject projectId { isPulseAllowed := some true }))

/-- Add the user to the project's members, if not one already. -/
def addMember (projectId userId : Id) : Service (Option Project) := do
  ofExcept (← call (.updateProject projectId { userIds := some (.addToSet userId) }))

/-- Make the user the project's admin, and a member if not one already. -/
def setAdmin (projectId userId : Id) : Service (Option Project) := do
  ofExcept (← call (.updateProject projectId
    { adminId := some userId, userIds := some (.addToSet userId) }))

/-! ## Deleting -/

/-- Delete a project, with its app tokens, keeping a copy among the deleted ones. -/
def deleteProject (project : Project) (isSuperuser : Bool := false) : Service Unit := do
  if project.isPersonal && !isSuperuser then
    throw (.forbidden "you cannot delete your own personal project")
  else do
    let _ ← deleteProjectTokens project.id
    let _ ← call (.deleteProject project.id)
    ofExcept (← call (.insertDeletedProject (.ofProject project g.now)))

/-! ## The operations called -/

section Calls

variable {h g} {Q : Op → Prop}

theorem calls_getProject {projectId : Id} (hQ : Q (.getProject projectId)) :
    (getProject projectId).Calls Q := by
  refine calls_bind ((calls_perform _).mpr hQ) fun r => ?_
  cases r <;> trivial

theorem calls_insertProject {project : Project} (hQ : Q (.insertProject project)) :
    (insertProject project).Calls Q := by
  refine calls_bind ((calls_perform _).mpr hQ) fun r => ?_
  match r with
  | .ok _ => trivial
  | .error e => cases e <;> trivial

theorem calls_createProject (hQ : ∀ o : Op, o.isMembership → Q o)
    (hinsert : ∀ p : Project, p.id = g.id → p.adminId ∈ p.userIds → Q (.insertProject p))
    (payload : ProjectCreate) (actor : User) : (createProject h g payload actor).Calls Q := by
  refine calls_bind (calls_getUserEmailIdMap hQ _) fun d => ?_
  refine calls_bind (calls_ofExcept _) fun adminId => ?_
  refine calls_bind (calls_ofExcept _) fun userIds => ?_
  refine calls_bind (calls_insertProject (hinsert _ rfl (mem_withAdmin _ _))) fun _ => ?_
  exact calls_bind (calls_notifyMembershipChange hQ _ _ _) fun _ => trivial

theorem calls_ensurePersonalProject {user : User} {qpuSeconds : ℚ}
    (hget : Q (.getProject (h.deriveId user.id "project")))
    (hinsert : Q (.insertProject (personalProject h g user qpuSeconds))) :
    (ensurePersonalProject h g user qpuSeconds).Calls Q := by
  refine calls_bind ((calls_perform _).mpr hget) fun r => ?_
  cases r with
  | some existing => trivial
  | none =>
    refine calls_bind ((calls_perform _).mpr hinsert) fun r => ?_
    match r with
    | .ok _ => trivial
    | .error e => cases e <;> first | trivial | exact (calls_perform _).mpr hget

theorem calls_updateOne {id : Id} {u : ProjectChanges} (hQ : Q (.updateProject id u)) :
    (do ofExcept (← call (.updateProject id u))).Calls Q :=
  calls_bind ((calls_perform _).mpr hQ) fun r => calls_ofExcept r

theorem calls_revokeLeaving {project : Project} {userIds : List Id}
    (hQ : Q (.deleteAppTokens { projectId := project.id, notUserIds := some userIds })) :
    (revokeLeaving project userIds).Calls Q := by
  unfold revokeLeaving
  split_ifs
  · exact calls_bind ((calls_perform _).mpr hQ) fun _ => trivial
  · trivial

theorem calls_updateProject (hQ : ∀ o : Op, o.isMembership → Q o) {project : Project}
    {payload : ProjectUpdate} {actor : User} (htokens : ∀ f, Q (.deleteAppTokens f))
    (hupdate : ∀ adminId userIds,
      Q (.updateProject project.id (payload.changes project adminId userIds))) :
    (updateProject h g project payload actor).Calls Q := by
  refine calls_bind (calls_getUserEmailIdMap hQ _) fun d => ?_
  refine calls_bind (calls_ofExcept _) fun adminId => ?_
  refine calls_bind (calls_ofExcept _) fun namedIds => ?_
  refine calls_bind (calls_revokeLeaving (htokens _)) fun _ => ?_
  refine calls_bind ((calls_perform _).mpr (hupdate _ _)) fun r => ?_
  refine calls_bind (calls_ofExcept r) fun updated => ?_
  exact calls_bind (calls_notifyMembershipChange hQ _ _ _) fun _ => trivial

theorem calls_removeMember (hQ : ∀ o : Op, o.isMembership → Q o) {project : Project}
    {memberId : Id} {actor : User} (htokens : ∀ f, Q (.deleteAppTokens f))
    (hupdate : Q (.updateProject project.id
      { userIds := some (.set (project.userIds.filter (· ≠ memberId))) })) :
    (removeMember project memberId actor).Calls Q := by
  refine calls_bind ((calls_perform _).mpr (htokens _)) fun _ => ?_
  refine calls_bind ((calls_perform _).mpr hupdate) fun r => ?_
  refine calls_bind (calls_ofExcept r) fun updated => ?_
  exact calls_bind (calls_notifyMembershipRevoked hQ _ _ _) fun _ => trivial

theorem calls_deleteProject {project : Project} {isSuperuser : Bool}
    (htokens : Q (.deleteAppTokens { projectId := project.id }))
    (hdelete : Q (.deleteProject project.id))
    (hinsert : Q (.insertDeletedProject (.ofProject project g.now))) :
    (deleteProject g project isSuperuser).Calls Q := by
  unfold deleteProject
  split_ifs
  · trivial
  · refine calls_bind ((calls_perform _).mpr htokens) fun _ => ?_
    refine calls_bind ((calls_perform _).mpr hdelete) fun _ => ?_
    exact calls_bind ((calls_perform _).mpr hinsert) fun r => calls_ofExcept r

end Calls

/-! ## Routes -/

/-- Whether the text is an id: 24 lowercase hexadecimal characters. -/
def isId (value : String) : Bool :=
  value.toList.length == 24 && value.toList.all fun c => "0123456789abcdef".toList.contains c

/-- The project of the given id, or a 404. -/
def getProjectOrMissing (id : Id) : Service Project :=
  tryCatch (getProject id) fun e => match e with
    | .projectNotExists _ => throw (.httpException 404 "")
    | e => throw e

/-- The project of the path's id; a malformed id is as missing as an unknown one. -/
def getProjectOr404 (id : Id) : Service Project :=
  if isId id then getProjectOrMissing id else throw (.httpException 404 "")

theorem getProjectOrMissing_eq (id : Id) :
    getProjectOrMissing id = call (.getProject id) >>= fun r => match r with
      | some project => .ret project
      | none => .raise (.httpException 404 "") := by
  simp only [getProjectOrMissing, getProject, perform_bind, tryCatch_call]
  congr 1
  funext r
  cases r <;> rfl

/-- Remove a member from a project the caller administers. -/
def removeMemberRoute (id memberId : Id) (user : User) : Service Unit := do
  let project ← getProjectOrMissing id
  if project.adminId ≠ user.id ∧ ¬ user.isSuperuser then throw (.httpException 403 "")
  else if memberId = project.adminId then
    throw (.httpException 400 "the project admin cannot be removed")
  else if memberId ∉ project.userIds then throw (.httpException 404 "user not a member")
  else do
    let _ ← removeMember project memberId user

/-- Delete a project the current user administers. -/
def destroyRoute (id userId : Id) : Service Unit := do
  let project ← getProjectOrMissing id
  if userId ≠ project.adminId then throw (.httpException 403 "")
  else deleteProject g project

/-- Delete the project of the given id; superusers only. -/
def deleteProjectRoute (id : Id) : Service Unit := do
  let project ← getProjectOr404 id
  deleteProject g project true

/-- A project as an admin sees it: its admin and members named by email. -/
structure ProjectAdminView extends Project where
  adminEmail : String
  userEmails : List String

/-- The project as an admin sees it. -/
def getAdminView (project : Project) : Service ProjectAdminView := do
  let idEmailMap ← getUserIdEmailMap (project.userIds ++ [project.adminId])
  let userEmails ← ofExcept (project.userIds.mapM idEmailMap.get)
  let adminEmail ← ofExcept (idEmailMap.get project.adminId)
  return { project with adminEmail, userEmails }

theorem calls_getAdminView {Q : Op → Prop} (hQ : ∀ o : Op, o.isMembership → Q o)
    (project : Project) : (getAdminView project).Calls Q := by
  refine calls_bind (calls_getUserIdEmailMap hQ _) fun d => ?_
  refine calls_bind (calls_ofExcept _) fun _ => ?_
  exact calls_bind (calls_ofExcept _) fun _ => trivial

/-- Update the project of the given id; superusers only. -/
def putProjectRoute (id : Id) (payload : ProjectUpdate) (actor : User) :
    Service ProjectAdminView := do
  let project ← getProjectOr404 id
  match ← updateProject h g project payload actor with
  | some updatedProject => getAdminView updatedProject
  | none => throw (.attributeError "user_ids")

end Mss
