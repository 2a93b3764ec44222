import Mathlib.Data.Rat.Defs
import Mss.Lib.FloatTexts

/-!
# Records

What the database stores, field for field as the schemas declare it, less the fields that no
modelled function reads: projects and their deleted copies, app tokens, users, requests.

* `Project`, `DeletedProject`, `AppToken`, `User`, `Request`: the records.
* `ProjectChanges`, `Project.apply`: an update of a project, one operator a field, and its effect.
* `RequestChanges`, `Request.apply`: an update of a request.
-/

namespace Mss

/-- A record's id. -/
abbrev Id : Type := String

/-! ## Users -/

/-- The roles a user may hold. -/
inductive UserRole
  | user | researcher | admin | partner | system
  deriving DecidableEq, Repr

/-- A user. -/
structure User where
  id : Id
  email : String
  isActive : Bool := true
  isVerified : Bool := false
  roles : List UserRole := [.user]
  deriving DecidableEq, Repr

/-- Whether the user holds the admin role. -/
def User.isSuperuser (u : User) : Bool := u.roles.contains .admin

/-- The part of the user's email before the '@'. -/
def User.username (u : User) : String := String.ofList (u.email.toList.takeWhile (· != '@'))

/-! ## Projects -/

/-- A project, whose members share its QPU seconds. -/
structure Project where
  id : Id
  name : String
  qpuSeconds : ℚ := 0
  description : String := ""
  isPulseAllowed : Bool := false
  isActive : Bool := true
  userIds : List Id := []
  adminId : Id
  isPersonal : Bool := false
  createdAt : String
  updatedAt : String
  deriving DecidableEq, Repr

/-- All users who are members of the project. -/
def Project.members (p : Project) : List Id := p.adminId :: p.userIds

/-- The copy kept of a deleted project. -/
structure DeletedProject extends Project
  deriving DecidableEq, Repr

/-- The copy of a project: all but its timestamps, which are those of the copy. -/
def DeletedProject.ofProject (p : Project) (now : String) : DeletedProject :=
  { p with createdAt := now, updatedAt := now }

@[simp] theorem DeletedProject.ofProject_id (p : Project) (now : String) :
    (DeletedProject.ofProject p now).id = p.id := rfl

/-- A change of a number: `$set` or `$inc`. -/
inductive NumberChange
  | set (v : ℚ)
  | inc (v : ℚ)
  deriving DecidableEq, Repr

/-- The number after the change. -/
def NumberChange.apply : NumberChange → ℚ → ℚ
  | .set v, _ => v
  | .inc v, x => x + v

/-- A change of a list: `$set`, `$addToSet` or `$pull`. -/
inductive ListChange
  | set (l : List Id)
  | addToSet (x : Id)
  | pull (x : Id)
  deriving DecidableEq, Repr

/-- The list after the change. -/
def ListChange.apply : ListChange → List Id → List Id
  | .set l, _ => l
  | .addToSet x, l => if x ∈ l then l else l ++ [x]
  | .pull x, l => l.filter (· ≠ x)

/-- **An update of a project**: each field changed, with its operator. The fields left out are
those no operator of the code names. -/
structure ProjectChanges where
  name : Option String := none
  qpuSeconds : Option NumberChange := none
  description : Option String := none
  isPulseAllowed : Option Bool := none
  isActive : Option Bool := none
  userIds : Option ListChange := none
  adminId : Option Id := none
  updatedAt : Option String := none
  deriving DecidableEq, Repr

/-- The project after an update. -/
def Project.apply (u : ProjectChanges) (p : Project) : Project :=
  { p with
    name := u.name.getD p.name
    qpuSeconds := (u.qpuSeconds.map (·.apply p.qpuSeconds)).getD p.qpuSeconds
    description := u.description.getD p.description
    isPulseAllowed := u.isPulseAllowed.getD p.isPulseAllowed
    isActive := u.isActive.getD p.isActive
    userIds := (u.userIds.map (·.apply p.userIds)).getD p.userIds
    adminId := u.adminId.getD p.adminId
    updatedAt := u.updatedAt.getD p.updatedAt }

@[simp] theorem Project.apply_id (u : ProjectChanges) (p : Project) : (p.apply u).id = p.id := rfl

/-- Two projects of one name may not be stored together. -/
def SharesName (p q : Project) : Prop := p.name = q.name

instance : DecidableRel SharesName := fun p q => inferInstanceAs (Decidable (p.name = q.name))

/-- The payload a project is created from. -/
structure ProjectCreate where
  name : String
  qpuSeconds : ℚ := 0
  description : String := ""
  isPulseAllowed : Bool := false
  adminEmail : String
  userEmails : List String := []
  deriving DecidableEq, Repr

/-- The payload a project is updated with; what is left out is not changed. -/
structure ProjectUpdate where
  name : Option String := none
  isActive : Option Bool := none
  description : Option String := none
  adminEmail : Option String := none
  userEmails : Option (List String) := none
  qpuSeconds : Option ℚ := none
  isPulseAllowed : Option Bool := none
  updatedAt : Option String
  deriving DecidableEq, Repr

/-! ## App tokens -/

/-- The payload an app token is created from. -/
structure AppTokenCreate where
  title : String
  projectId : Id
  lifespanSeconds : FloatText.Literal
  deriving DecidableEq, Repr

/-- An app token, with which its user acts on its project. -/
structure AppToken extends AppTokenCreate where
  id : Id
  token : String
  userId : Id
  createdAt : ℤ
  deriving DecidableEq, Repr

/-- The project that a token acts on, and the user it acts for. -/
structure TokenOwner where
  project : Project
  user : User

/-! ## Requests -/

/-- The state of a request. -/
inductive RequestStatus
  | approved | rejected | pending
  deriving DecidableEq, Repr

/-- The types of requests. -/
inductive RequestType
  | createProject | closeProject | transferProject | projectQpuSeconds | projectPulseAccess
  | projectAccess
  deriving DecidableEq, Repr

/-- What a request asks for, by its type. -/
inductive RequestMetadata
  | createProject (name : String) (qpuSeconds : ℚ) (description adminEmail : String)
      (userEmails : List String)
  | closeProject
  | transferProject (adminEmail : String)
  | projectQpuSeconds (seconds : {s : ℚ // 0 < s})
  | projectPulseAccess
  | projectAccess
  deriving DecidableEq, Repr

/-- The type whose metadata this is. -/
def RequestMetadata.type : RequestMetadata → RequestType
  | .createProject .. => .createProject
  | .closeProject => .closeProject
  | .transferProject _ => .transferProject
  | .projectQpuSeconds _ => .projectQpuSeconds
  | .projectPulseAccess => .projectPulseAccess
  | .projectAccess => .projectAccess

/-- What a notice may refer to. -/
inductive RefType
  | userRequest | project
  deriving DecidableEq, Repr

/-- A request to be approved or rejected. Its type is that of its metadata, and its status is
`none` where an update stored a null. -/
structure Request where
  id : Id
  resourceId : Id
  reason : String
  metadata : RequestMetadata
  resource : RefType := .project
  requesterId : Id
  requesterName : Option String := none
  targetUserIds : List Id
  status : Option RequestStatus := some .pending
  approverId : Option Id := none
  approverName : Option String := none
  rejectionReason : Option String := none
  createdAt : Option String
  updatedAt : Option String
  deriving DecidableEq, Repr

/-- The type of the request. -/
def Request.type (r : Request) : RequestType := r.metadata.type

/-- The payload a request is decided with: a field that was sent may be null. -/
structure RequestUpdate where
  status : Option (Option RequestStatus) := none
  rejectionReason : Option (Option String) := none
  updatedAt : Option String
  deriving DecidableEq, Repr

/-- The payload's status, null if it was not sent. -/
def RequestUpdate.newStatus (u : RequestUpdate) : Option RequestStatus := u.status.join

/-- An update of a request. -/
structure RequestChanges where
  status : Option (Option RequestStatus) := none
  rejectionReason : Option (Option String) := none
  approverId : Option Id := none
  approverName : Option String := none
  updatedAt : Option (Option String) := none
  deriving DecidableEq, Repr

/-- The request after an update. -/
def Request.apply (u : RequestChanges) (r : Request) : Request :=
  { r with
    status := u.status.getD r.status
    rejectionReason := u.rejectionReason.getD r.rejectionReason
    approverId := u.approverId <|> r.approverId
    approverName := u.approverName <|> r.approverName
    updatedAt := u.updatedAt.getD r.updatedAt }

@[simp] theorem Request.apply_id (u : RequestChanges) (r : Request) : (r.apply u).id = r.id := rfl

end Mss
