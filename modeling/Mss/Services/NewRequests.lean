import Mss.Services.Requests

/-!
# New requests

Creating a request: whoever may make it does, and those it is directed to are asked to decide it.
It calls operations of its own on the same database.

* `RequestPostBody`, `fromPostBody`: the payload, and the request created from it.
* `Op`, `exec`: the operations.
* `hasResourceAccess`, `getTargetUserIds`, **`create`**: the service.
-/

namespace Mss.NewRequests

open Atomic Storage Prog

/-! ## The payload -/

/-- The payload a request is created from. Its type is that of its metadata. -/
structure RequestPostBody where
  resourceId : Id
  reason : String
  metadata : RequestMetadata
  resource : RefType := .project
  deriving DecidableEq, Repr

/-- Whom a request is directed to: the system's admins, or the project's. -/
inductive RequestTarget
  | system | project
  deriving DecidableEq, Repr

/-- The target of each type of request. -/
def requestTargets : RequestType → RequestTarget
  | .createProject => .system
  | .closeProject => .system
  | .transferProject => .system
  | .projectQpuSeconds => .system
  | .projectPulseAccess => .system
  | .projectAccess => .project

/-- The request of a payload, its requester and its target users. -/
def fromPostBody (g : Generated) (body : RequestPostBody) (requester : User)
    (targetUserIds : List Id) : Request where
  id := g.id
  resourceId := body.resourceId
  reason := body.reason
  metadata := body.metadata
  resource := body.resource
  requesterId := requester.id
  requesterName := some requester.username
  targetUserIds := targetUserIds
  createdAt := some g.now
  updatedAt := some g.now

/-! ## The operations -/

/-- **The operations**, each on one table of the database. -/
inductive Op
  | findProjectOfAdmin (id userId : Id)
  | findProjectOfMember (id userId : Id)
  | findSharedProject (id : Id)
  | findSuperusers
  | insertRequest (r : Request)
  | createSystemNotice (n : SystemNotice)
  deriving DecidableEq

/-- What an operation answers. -/
@[reducible] def Resp : Op → Type
  | .findProjectOfAdmin _ _ => Option Project
  | .findProjectOfMember _ _ => Option Project
  | .findSharedProject _ => Option Project
  | .findSuperusers => List User
  | .insertRequest _ => Except Exc Unit
  | .createSystemNotice _ => Unit

variable {P : Type} [ProjectStore P]

/-- **What an operation answers and leaves.** A shared project is one that is not personal. -/
def exec (o : Op) (db : Db P) : Resp o × Db P :=
  match o with
  | .findProjectOfAdmin id userId =>
    ((KeyedStore.get db.projects id).filter (·.adminId = userId), db)
  | .findProjectOfMember id userId =>
    ((KeyedStore.get db.projects id).filter (userId ∈ ·.userIds), db)
  | .findSharedProject id => ((KeyedStore.get db.projects id).filter (!·.isPersonal), db)
  | .findSuperusers => (db.users.rows.filter (·.isSuperuser), db)
  | .insertRequest r => match db.requests.insert? (fun _ _ => False) r with
    | some requests => (.ok (), { db with requests })
    | none => (.error .duplicateKey, db)
  | .createSystemNotice n => ((), { db with notices := db.notices ++ [n] })

/-- A service's program. -/
abbrev Service (α : Type) : Type := Prog Resp Exc α

/-- Call one operation. -/
abbrev call (o : Op) : Service (Resp o) := Prog.perform o

/-! ## The service -/

/-- Whether the user has access to the resource they make a request on. -/
def hasResourceAccess (body : RequestPostBody) (user : User) : Service Bool :=
  match body.metadata.type with
  | .createProject => pure true
  | .closeProject | .transferProject => do
    let project ← call (.findProjectOfAdmin body.resourceId user.id)
    return project.isSome
  | .projectQpuSeconds | .projectPulseAccess => do
    let project ← call (.findProjectOfMember body.resourceId user.id)
    return project.isSome
  | .projectAccess => pure true

/-- The ids of the users the request is directed to. A personal project is as missing as an
unknown one. -/
def getTargetUserIds (body : RequestPostBody) : Service (List Id) :=
  match requestTargets body.metadata.type with
  | .project => do
    match ← call (.findSharedProject body.resourceId) with
    | some project => pure [project.adminId]
    | none => throw (.notFound ("project " ++ body.resourceId ++ " not found"))
  | .system => do
    let superusers ← call .findSuperusers
    return superusers.map (·.id)

/-- Ask the target users to decide the request; a notice for no users is none. -/
def notifyTargets (record : Request) : Service Unit :=
  match record.noticeType with
  | none => throw (.keyError "(type, status)")
  | some noticeType =>
    if record.targetUserIds.length = 0 then pure ()
    else call (.createSystemNotice
      { userIds := record.targetUserIds, noticeType, context := record.noticeContext,
        refType := record.resource, refId := record.id })

/-- **Create a request**, and ask its target users to decide it. -/
def create (g : Generated) (body : RequestPostBody) (requester : User) : Service Request := do
  if ← hasResourceAccess body requester then
    let targetUserIds ← getTargetUserIds body
    let record := fromPostBody g body requester targetUserIds
    ofExcept (← call (.insertRequest record))
    notifyTargets record
    return record
  else throw (.forbidden ("operation not permitted on resource " ++ body.resourceId))

/-! ## The operations called -/

section Calls

variable {Q : Op → Prop} {g : Generated} {body : RequestPostBody} {requester : User}

theorem calls_hasResourceAccess (hadmin : ∀ id userId, Q (.findProjectOfAdmin id userId))
    (hmember : ∀ id userId, Q (.findProjectOfMember id userId)) :
    (hasResourceAccess body requester).Calls Q := by
  unfold hasResourceAccess
  split
  · trivial
  · exact calls_bind ((calls_perform _).mpr (hadmin _ _)) fun _ => trivial
  · exact calls_bind ((calls_perform _).mpr (hadmin _ _)) fun _ => trivial
  · exact calls_bind ((calls_perform _).mpr (hmember _ _)) fun _ => trivial
  · exact calls_bind ((calls_perform _).mpr (hmember _ _)) fun _ => trivial
  · trivial

theorem calls_getTargetUserIds (hshared : ∀ id, Q (.findSharedProject id))
    (hsuperusers : Q .findSuperusers) : (getTargetUserIds body).Calls Q := by
  unfold getTargetUserIds
  split
  · refine calls_bind ((calls_perform _).mpr (hshared _)) fun r => ?_
    cases r <;> trivial
  · exact calls_bind ((calls_perform _).mpr hsuperusers) fun _ => trivial

theorem calls_notifyTargets (hcreate : ∀ n, Q (.createSystemNotice n)) (record : Request) :
    (notifyTargets record).Calls Q := by
  unfold notifyTargets
  split
  · trivial
  · split_ifs
    · trivial
    · exact (calls_perform _).mpr (hcreate _)

theorem calls_create (hother : ∀ o, (∀ r, o ≠ .insertRequest r) → Q o)
    (hinsert : ∀ targetUserIds,
      Q (.insertRequest (fromPostBody g body requester targetUserIds))) :
    (create g body requester).Calls Q := by
  refine calls_bind (calls_hasResourceAccess (fun _ _ => hother _ ?_) fun _ _ => hother _ ?_)
    fun hasAccess => ?_
  · exact fun _ h => by cases h
  · exact fun _ h => by cases h
  · split_ifs
    · refine calls_bind (calls_getTargetUserIds (fun _ => hother _ ?_) (hother _ ?_)) fun ids => ?_
      · exact fun _ h => by cases h
      · exact fun _ h => by cases h
      · refine calls_bind ((calls_perform _).mpr (hinsert ids)) fun r => ?_
        refine calls_bind (calls_ofExcept r) fun _ => ?_
        exact calls_bind (calls_notifyTargets (fun _ => hother _ fun _ h => by cases h) _)
          fun _ => trivial
    · trivial

end Calls

end Mss.NewRequests
