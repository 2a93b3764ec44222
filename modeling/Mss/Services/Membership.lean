import Mss.Database

/-!
# Who belongs to a project

Naming users by email and by id, and telling them that their standing on a project changed.

* `getUserEmailIdMap`: the ids of the users of some emails, creating the users missing.
* `notifyMembershipChange`, `notifyMembershipRevoked`: the notices of a change of members.
-/

namespace Mss

open Atomic Storage Prog

/-! ## Dictionaries -/

/-- A dictionary, in the order its keys were first set. -/
abbrev Dict (V : Type) : Type := List (String × V)

namespace Dict

variable {V : Type}

/-- Set a key, in its place if it has one. -/
def set (d : Dict V) (k : String) (v : V) : Dict V :=
  if k ∈ d.map Prod.fst then d.map fun x => if x.1 = k then (k, v) else x else d ++ [(k, v)]

/-- The dictionary after setting every pair in turn. -/
def update (d : Dict V) (l : List (String × V)) : Dict V := l.foldl (fun d x => d.set x.1 x.2) d

/-- The value of a key, or a `KeyError`. -/
def get (d : Dict V) (k : String) : Except Exc V :=
  match d.lookup k with
  | some v => .ok v
  | none => .error (.keyError k)

end Dict

/-! ## Users by email and by id -/

variable (h : Host) (g : Generated)

/-- The emails of the users of the given ids, keyed by id. -/
def getUserIdEmailMap (userIds : List Id) : Service (Dict String) := do
  let users ← call (.findUsersById userIds)
  return Dict.update [] (users.map fun user => (user.id, user.email))

/-- The emails of no known user, keyed by their lower case. -/
def missingEmails (idByLowerEmail : Dict Id) (userEmails : List String) : Dict String :=
  Dict.update [] ((userEmails.filter fun email =>
    h.lower email ∉ idByLowerEmail.map Prod.fst).map fun email => (h.lower email, email))

/-- Create a user for each missing email, and add them to the ids by email. -/
def addMissingUsers (idByLowerEmail : Dict Id) (missing : Dict String) : Service (Dict Id) :=
  if missing.length = 0 then pure idByLowerEmail
  else do
    let newUsers := missing.map fun x => ({ id := g.userId x.2, email := x.2 } : User)
    ofExcept (← call (.insertUsers newUsers))
    return idByLowerEmail.update (newUsers.map fun user => (h.lower user.email, user.id))

/-- The ids of the users of the given emails, keyed by each email as given. It creates a user for
each email that has none yet. -/
def getUserEmailIdMap (userEmails : List String) : Service (Dict Id) :=
  if userEmails.length = 0 then pure []
  else do
    let users ← call (.findUsersByEmail userEmails)
    let idByLowerEmail := Dict.update [] (users.map fun user => (h.lower user.email, user.id))
    let idByLowerEmail ← addMissingUsers h g idByLowerEmail
      (missingEmails h idByLowerEmail userEmails)
    let ids ← ofExcept (userEmails.mapM fun email => idByLowerEmail.get (h.lower email))
    return Dict.update [] (userEmails.zip ids)

/-! ## Notices -/

/-- Create a system notice; one for no users is none. -/
def createSystemNotice (n : SystemNotice) : Service Unit :=
  if n.userIds.length = 0 then pure () else call (.createSystemNotice n)

/-- The values of a notice about a membership. -/
def membershipContext (project : Project) (actor : User) : ProjectRequestContext where
  projectId := project.id
  projectName := project.name
  approverName := actor.username

/-- Tell the users whose standing on a project changed. The final project is the answer of an
update, none (an `AttributeError`) if it matched no project. -/
def notifyMembershipChange (initialProject finalProject : Option Project) (actor : User) :
    Service Unit := do
  match finalProject with
  | none => throw (.attributeError "id")
  | some final => do
    let oldIds := (initialProject.map (·.userIds)).getD []
    let notice (userIds : List Id) (noticeType : NoticeTypeId) : SystemNotice :=
      { userIds, noticeType, context := membershipContext final actor, refType := .project,
        refId := final.id }
    createSystemNotice (notice (final.userIds.dedup.filter (· ∉ oldIds)) .projectMembershipGranted)
    createSystemNotice (notice (oldIds.dedup.filter (· ∉ final.userIds)) .projectMembershipRevoked)
    if initialProject.map (·.adminId) ≠ some final.adminId then
      createSystemNotice (notice [final.adminId] .projectAdminAssigned)

/-- Tell a removed member that they no longer belong to the project. -/
def notifyMembershipRevoked (project : Option Project) (memberId : Id) (actor : User) :
    Service Unit := do
  match project with
  | none => throw (.attributeError "id")
  | some project =>
    createSystemNotice
      { userIds := [memberId], noticeType := .projectMembershipRevoked,
        context := membershipContext project actor, refType := .project, refId := project.id }

theorem returns_createSystemNotice (n : SystemNotice) : (createSystemNotice n).Returns := by
  unfold createSystemNotice
  split_ifs
  · trivial
  · exact returns_perform _

theorem returns_notifyMembershipChange (initial : Option Project) (final : Project)
    (actor : User) : (notifyMembershipChange initial (some final) actor).Returns := by
  refine returns_bind (returns_createSystemNotice _) fun _ => ?_
  refine returns_bind (returns_createSystemNotice _) fun _ => ?_
  split_ifs
  · exact returns_createSystemNotice _
  · trivial

/-! ## The operations called -/

/-- The operations of the helpers: they read and create users, and create notices. -/
def Op.isMembership : Op → Bool
  | .findUsersByEmail _ | .findUsersById _ | .insertUsers _ | .createSystemNotice _ => true
  | _ => false

theorem Op.writes_of_isMembership (o : Op) (ho : o.isMembership) : o.writes ≠ some .projects := by
  cases o <;> simp_all [Op.isMembership, Op.writes]

variable {h g} {Q : Op → Prop}

theorem calls_getUserIdEmailMap (hQ : ∀ o : Op, o.isMembership → Q o) (userIds : List Id) :
    (getUserIdEmailMap userIds).Calls Q :=
  calls_bind ((calls_perform _).mpr (hQ _ rfl)) fun _ => trivial

theorem calls_addMissingUsers (hQ : ∀ o : Op, o.isMembership → Q o) (d : Dict Id)
    (missing : Dict String) : (addMissingUsers h g d missing).Calls Q := by
  unfold addMissingUsers
  split_ifs
  · trivial
  · refine calls_bind ((calls_perform _).mpr (hQ _ rfl)) fun r => ?_
    exact calls_bind (calls_ofExcept r) fun _ => trivial

theorem calls_getUserEmailIdMap (hQ : ∀ o : Op, o.isMembership → Q o)
    (userEmails : List String) : (getUserEmailIdMap h g userEmails).Calls Q := by
  unfold getUserEmailIdMap
  split_ifs
  · trivial
  · refine calls_bind ((calls_perform _).mpr (hQ _ rfl)) fun users => ?_
    refine calls_bind (calls_addMissingUsers hQ _ _) fun d => ?_
    exact calls_bind (calls_ofExcept _) fun _ => trivial

theorem calls_createSystemNotice {n : SystemNotice} (hQ : Q (.createSystemNotice n)) :
    (createSystemNotice n).Calls Q := by
  unfold createSystemNotice
  split_ifs
  · trivial
  · exact (calls_perform _).mpr hQ

theorem calls_notifyMembershipChange (hQ : ∀ o : Op, o.isMembership → Q o)
    (initialProject finalProject : Option Project) (actor : User) :
    (notifyMembershipChange initialProject finalProject actor).Calls Q := by
  cases finalProject with
  | none => trivial
  | some final =>
    refine calls_bind (calls_createSystemNotice (hQ _ rfl)) fun _ => ?_
    refine calls_bind (calls_createSystemNotice (hQ _ rfl)) fun _ => ?_
    split_ifs
    · exact calls_createSystemNotice (hQ _ rfl)
    · trivial

theorem calls_notifyMembershipRevoked (hQ : ∀ o : Op, o.isMembership → Q o)
    (project : Option Project) (memberId : Id) (actor : User) :
    (notifyMembershipRevoked project memberId actor).Calls Q := by
  cases project with
  | none => trivial
  | some project => exact calls_createSystemNotice (hQ _ rfl)

end Mss
