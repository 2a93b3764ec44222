import Mss.DecidedOnce
import Mss.KeptMembers

/-!
# The admin of a project is a member

Projects are created, updated, joined and handed over by calls that start one after the other has
ended. The admin is a member after each of them, and members leave by two kinds of calls only.

* `MembershipCall`: the calls; `MembershipCall.leaves`: the users a call makes leave a project.
* `KeepsStanding`: what a call is to keep.
* `Gains`, `keepsStanding_of_gains`: the calls that only add members.
* `keepsStanding_remove`, `keepsStanding_update`: those that make members leave.
* **`admin_is_member`**: every call of a run keeps what it is to keep.
-/

namespace Mss

open Atomic Storage Prog

variable {h : Host} {P : Type} [ProjectStore P]

/-! ## The calls -/

/-- **The calls**: a project is updated as it is stored, and a member removed by the route. -/
inductive MembershipCall
  | create (payload : ProjectCreate) (actor : User) (g : Generated)
  | update (projectId : Id) (payload : ProjectUpdate) (actor : User) (g : Generated)
  | remove (projectId memberId : Id) (user : User)
  | add (projectId userId : Id)
  | setAdmin (projectId userId : Id)
  | act (request : Request) (approver : User) (g : Generated)
  | login (user : User) (qpuSeconds : ℚ) (g : Generated)

variable (h) in
/-- The program of a call. -/
def MembershipCall.service : MembershipCall → Service Unit
  | .create payload actor g => do
    let _ ← createProject h g payload actor
  | .update projectId payload actor g => do
    let project ← getProject projectId
    let _ ← updateProject h g project payload actor
  | .remove projectId memberId user => removeMemberRoute projectId memberId user
  | .add projectId userId => do
    let _ ← addMember projectId userId
  | .setAdmin projectId userId => do
    let _ ← Mss.setAdmin projectId userId
  | .act request approver g => doManyActions h g request approver
  | .login user qpuSeconds g => do
    let _ ← ensurePersonalProject h g user qpuSeconds

variable (h) in
/-- The database a call leaves. -/
def MembershipCall.after (db : Db P) (call : MembershipCall) : Db P :=
  ((call.service h).run (exec h) db).2

variable (h) in
/-- The database a run of calls leaves. -/
def runMemberships (db : Db P) (calls : List MembershipCall) : Db P :=
  calls.foldl (MembershipCall.after h) db

variable (h) in
/-- **The users a call makes leave a project**: the one removed, and those who have none of the
emails that an update names the members by. -/
def MembershipCall.leaves (db : Db P) (pid userId : Id) : MembershipCall → Prop
  | .remove projectId memberId _ => projectId = pid ∧ memberId = userId
  | .update projectId payload _ g => projectId = pid ∧ ∃ emails ∈ payload.userEmails,
      ∃ emailIdMap userIds,
        ((getUserEmailIdMap h g (emails ++ payload.adminEmail.toList)).run (exec h) db).1 =
          .ok emailIdMap ∧
        emails.mapM emailIdMap.get = .ok userIds ∧ userId ∉ userIds
  | _ => False

/-! ## What a call keeps -/

/-- The admin of every stored project is a member. -/
def AdminsAreMembers (db : Db P) : Prop :=
  ∀ pid p, KeyedStore.get db.projects pid = some p → p.adminId ∈ p.userIds

/-- **What a call is to keep**: the admins are members, and no member leaves but those given. -/
structure KeepsStanding (leaves : Id → Id → Prop) (db db' : Db P) : Prop where
  admins : AdminsAreMembers db'
  members : ∀ pid p q userId, KeyedStore.get db.projects pid = some p →
    KeyedStore.get db'.projects pid = some q → userId ∈ p.userIds → userId ∉ q.userIds →
      leaves pid userId

variable {db db' : Db P} {leaves : Id → Id → Prop}

theorem KeepsStanding.of_projects_eq (hdb : AdminsAreMembers db)
    (hprojects : db'.projects = db.projects) : KeepsStanding leaves db db' := by
  refine ⟨fun pid p hp => hdb pid p (hprojects ▸ hp), fun pid p q userId hp hq hin hout => ?_⟩
  rw [hprojects, hp] at hq
  cases hq
  exact absurd hin hout

theorem KeepsStanding.of_update {p : Project} {u : ProjectChanges} (hdb : AdminsAreMembers db)
    (hp : KeyedStore.get db.projects p.id = some p)
    (hadmin : p.adminId ∈ p.userIds → (p.apply u).adminId ∈ (p.apply u).userIds)
    (hleaves : ∀ userId ∈ p.userIds, userId ∉ (p.apply u).userIds → leaves p.id userId)
    (hget : ∀ pid, KeyedStore.get db'.projects pid = KeyedStore.get db.projects pid ∨
      pid = p.id ∧ KeyedStore.get db'.projects pid = some (p.apply u)) :
    KeepsStanding leaves db db' := by
  refine ⟨fun pid q hq => ?_, fun pid r q userId hr hq hin hout => ?_⟩
  · rcases hget pid with hsame | ⟨rfl, hupdated⟩
    · exact hdb pid q (hsame ▸ hq)
    · rw [hupdated] at hq
      cases hq
      exact hadmin (hdb _ p hp)
  · rcases hget pid with hsame | ⟨rfl, hupdated⟩
    · rw [hsame, hr] at hq
      cases hq
      exact absurd hin hout
    · rw [hupdated] at hq
      rw [hp] at hr
      cases hq
      cases hr
      exact hleaves userId hin hout

/-! ## The calls that add members -/

/-- **The operation adds members only**: it inserts a project whose admin is a member, or adds one
user, who may become the admin. -/
def Op.Gains : Op → Prop
  | .insertProject p => p.adminId ∈ p.userIds
  | .updateProject _ u => u.userIds = none ∧ u.adminId = none ∨ ∃ userId,
      u.userIds = some (.addToSet userId) ∧ (u.adminId = none ∨ u.adminId = some userId)
  | .deleteProject _ => False
  | _ => True

/-- Every project stored is stored still, with its members. -/
def Grows (db db' : Db P) : Prop :=
  ∀ pid p, KeyedStore.get db.projects pid = some p →
    ∃ q, KeyedStore.get db'.projects pid = some q ∧ p.userIds ⊆ q.userIds

theorem mem_addToSet {userId x : Id} {l : List Id} :
    userId ∈ (ListChange.addToSet x).apply l ↔ userId ∈ l ∨ userId = x := by
  simp only [ListChange.apply]
  split_ifs with hx
  · exact ⟨.inl, fun hin => hin.elim id fun heq => heq ▸ hx⟩
  · simp

theorem apply_of_gains {id : Id} {u : ProjectChanges} (hu : (Op.updateProject id u).Gains)
    (p : Project) : p.userIds ⊆ (p.apply u).userIds ∧
      (p.adminId ∈ p.userIds → (p.apply u).adminId ∈ (p.apply u).userIds) := by
  rcases hu with ⟨husers, hadmin⟩ | ⟨x, husers, hadmin | hadmin⟩
  · simp [Project.apply, husers, hadmin]
  · simp only [Project.apply, husers, hadmin, Option.map_some, Option.getD_some, Option.getD_none]
    exact ⟨fun y hy => mem_addToSet.mpr (.inl hy), fun hp => mem_addToSet.mpr (.inl hp)⟩
  · simp only [Project.apply, husers, hadmin, Option.map_some, Option.getD_some]
    exact ⟨fun y hy => mem_addToSet.mpr (.inl hy), fun _ => mem_addToSet.mpr (.inr rfl)⟩

theorem exec_of_gains {o : Op} (ho : o.Gains) (hdb : AdminsAreMembers db) :
    AdminsAreMembers (exec h o db).2 ∧ Grows db (exec h o db).2 := by
  have hkept : (exec h o db).2.projects = db.projects →
      AdminsAreMembers (exec h o db).2 ∧ Grows db (exec h o db).2 := by
    intro hprojects
    refine ⟨fun pid p hp => hdb pid p (hprojects ▸ hp), fun pid p hp => ⟨p, ?_, fun _ hx => hx⟩⟩
    rw [hprojects]
    exact hp
  cases o with
  | insertProject q =>
    rcases exec_insertProject h q db with ⟨projects, hinsert, he⟩ | ⟨-, he⟩
    · rw [he]
      have hfree : KeyedStore.get db.projects q.id = none := free_of_answer (by rw [he])
      refine ⟨fun pid p hp => ?_, fun pid p hp => ⟨p, ?_, fun _ hx => hx⟩⟩
      · rw [KeyedStore.get_insert hinsert] at hp
        split_ifs at hp
        · cases hp
          exact ho
        · exact hdb pid p hp
      · have hne : pid ≠ q.id := by
          rintro rfl
          rw [hfree] at hp
          cases hp
        rw [KeyedStore.get_insert hinsert, if_neg hne]
        exact hp
    · exact hkept (by rw [he])
  | updateProject id u =>
    rcases exec_updateProject (h := h) id u db with ⟨-, he⟩ | ⟨p, hp, ⟨projects, hu, he⟩ | ⟨-, he⟩⟩
    · exact hkept (by rw [he])
    · rw [he]
      have happly := apply_of_gains ho p
      refine ⟨fun pid q hq => ?_, fun pid q hq => ?_⟩
      · rw [KeyedStore.get_update hu] at hq
        split_ifs at hq with hid
        · rw [hp, Option.map_some] at hq
          cases hq
          exact happly.2 (hdb id p hp)
        · exact hdb pid q hq
      · rw [KeyedStore.get_update hu]
        split_ifs with hid
        · rw [hid, hp] at hq
          cases hq
          exact ⟨p.apply u, by rw [hp]; rfl, happly.1⟩
        · exact ⟨q, hq, fun _ hx => hx⟩
    · exact hkept (by rw [he])
  | deleteProject id => exact ho.elim
  | _ => exact hkept (exec_projects (by simp [Op.writes]))

/-- **A call of such operations** makes no one leave. -/
theorem keepsStanding_of_gains {p : Service Unit} (hp : p.Calls Op.Gains)
    (hdb : AdminsAreMembers db) : KeepsStanding leaves db (p.run (exec h) db).2 := by
  have hkept : AdminsAreMembers (p.run (exec h) db).2 ∧ Grows db (p.run (exec h) db).2 := by
    refine run_invariant (I := fun db' => AdminsAreMembers db' ∧ Grows db db')
      (hp.mono fun o ho db' hdb' => ?_) ⟨hdb, fun pid q hq => ⟨q, hq, fun _ hx => hx⟩⟩
    have hexec := exec_of_gains (h := h) ho hdb'.1
    refine ⟨hexec.1, fun pid q hq => ?_⟩
    rcases hdb'.2 pid q hq with ⟨r, hr, hqr⟩
    rcases hexec.2 pid r hr with ⟨s, hs, hrs⟩
    exact ⟨s, hs, fun x hx => hrs (hqr hx)⟩
  refine ⟨hkept.1, fun pid q r userId hq hr hin hout => ?_⟩
  rcases hkept.2 pid q hq with ⟨r', hr', hqr⟩
  rw [hr] at hr'
  cases hr'
  exact absurd (hqr hin) hout

theorem Op.gains_of_isMembership (o : Op) (ho : o.isMembership) : o.Gains := by
  cases o <;> trivial

theorem keepsStanding_closeProject {g : Generated} (request : Request)
    (hdb : AdminsAreMembers db) :
    KeepsStanding leaves db ((closeProject g request).run (exec h) db).2 := by
  have hkept : ∀ pid q, KeyedStore.get ((closeProject g request).run (exec h) db).2.projects pid =
      some q → KeyedStore.get db.projects pid = some q := by
    have hother : ∀ o : Op, o.writes ≠ some .projects → ∀ db' : Db P,
        (∀ pid q, KeyedStore.get db'.projects pid = some q →
          KeyedStore.get db.projects pid = some q) →
        ∀ pid q, KeyedStore.get (exec h o db').2.projects pid = some q →
          KeyedStore.get db.projects pid = some q := by
      intro o ho db' hdb' pid q hq
      rw [exec_projects ho] at hq
      exact hdb' pid q hq
    refine run_invariant (I := fun db' : Db P => ∀ pid q, KeyedStore.get db'.projects pid =
      some q → KeyedStore.get db.projects pid = some q)
      (calls_closeProject (hother _ (by simp [Op.writes])) (fun _ => hother _ (by simp [Op.writes]))
        (fun id db' hdb' pid q hq => ?_) fun _ => hother _ (by simp [Op.writes]))
      fun pid q hq => hq
    refine hdb' pid q ?_
    rw [get_exec_projects] at hq
    simp only [projectAfter] at hq
    split_ifs at hq
    exact hq
  refine ⟨fun pid q hq => hdb pid q (hkept pid q hq), fun pid p q userId hp hq hin hout => ?_⟩
  have hsame := hkept pid q hq
  rw [hp] at hsame
  cases hsame
  exact absurd hin hout

theorem keepsStanding_act {g : Generated} (request : Request) (approver : User)
    (hdb : AdminsAreMembers db) :
    KeepsStanding leaves db ((doManyActions h g request approver).run (exec h) db).2 := by
  have hrun : ((doManyActions h g request approver).run (exec h) db).2 =
      ((doAction h g request approver).run (exec h) db).2 := by
    rw [doManyActions, run_tryCatch]
    rcases (doAction h g request approver).run (exec h) db with ⟨res, db'⟩
    cases res <;> rfl
  rw [hrun]
  by_cases hclose : request.metadata = .closeProject
  · have hdo : doAction h g request approver = closeProject g request := by
      rw [doAction, hclose]
    rw [hdo]
    exact keepsStanding_closeProject request hdb
  · refine keepsStanding_of_gains (calls_doAction ?_ (fun _ => trivial) ?_ ?_ hclose approver) hdb
    · exact Op.gains_of_isMembership
    · exact fun p hp => hp
    · exact fun id u hu => hu

/-! ## The calls that set the members -/

theorem KeepsStanding.of_apart_bind {α β : Type} {p : Service α} {f : α → Service β} {db₁ : Db P}
    (hdb : AdminsAreMembers db) (hdb₁ : db₁.projects = db.projects)
    (hp : p.Calls fun o => o.writes ≠ some .projects)
    (hf : ∀ a (db₂ : Db P), (p.run (exec h) db₁).1 = .ok a → db₂.projects = db.projects →
      KeepsStanding leaves db ((f a).run (exec h) db₂).2) :
    KeepsStanding leaves db ((p >>= f).run (exec h) db₁).2 := by
  have hprojects : (p.run (exec h) db₁).2.projects = db.projects :=
    run_invariant (I := fun db' : Db P => db'.projects = db.projects)
      (hp.mono fun o ho db' hdb' => (exec_projects ho).trans hdb') hdb₁
  rw [run_bind]
  rcases hrun : p.run (exec h) db₁ with ⟨res, db₂⟩
  rw [hrun] at hprojects hf
  cases res with
  | ok a => exact hf a db₂ rfl hprojects
  | error e => exact KeepsStanding.of_projects_eq hdb hprojects

theorem get_run_update {id : Id} {u : ProjectChanges} {β : Type}
    {f : Resp (.updateProject id u) → Service β}
    (hf : ∀ r, (f r).Calls fun o => o.writes ≠ some .projects) {p : Project}
    (hp : KeyedStore.get db.projects id = some p) (pid : Id) :
    KeyedStore.get ((call (.updateProject id u) >>= f).run (exec h) db).2.projects pid =
      KeyedStore.get db.projects pid ∨
    pid = id ∧ KeyedStore.get ((call (.updateProject id u) >>= f).run (exec h) db).2.projects pid =
      some (p.apply u) := by
  have hprojects : ((call (.updateProject id u) >>= f).run (exec h) db).2.projects =
      (exec h (.updateProject id u) db).2.projects :=
    run_invariant (I := fun db' : Db P => db'.projects = (exec h (.updateProject id u) db).2.projects)
      ((hf _).mono fun o ho db' hdb' => (exec_projects ho).trans hdb') rfl
  rw [hprojects]
  rcases exec_updateProject (h := h) id u db with ⟨-, he⟩ | ⟨q, hq, ⟨projects, hu, he⟩ | ⟨-, he⟩⟩
  · exact .inl (by rw [he])
  · rw [he]
    change KeyedStore.get projects pid = _ ∨ _ ∧ KeyedStore.get projects pid = _
    rw [KeyedStore.get_update hu]
    split_ifs with hid
    · exact .inr ⟨hid, by rw [hp]; rfl⟩
    · exact .inl rfl
  · exact .inl (by rw [he])

theorem keepsStanding_remove {projectId memberId : Id} {user : User} (hdb : AdminsAreMembers db)
    (hleaves : leaves projectId memberId) :
    KeepsStanding leaves db ((removeMemberRoute projectId memberId user).run (exec h) db).2 := by
  rw [removeMemberRoute, getProjectOrMissing_eq, bind_assoc, perform_bind, run_call]
  cases hp : KeyedStore.get db.projects projectId with
  | none =>
    refine KeepsStanding.of_projects_eq hdb ?_
    simp [exec, hp]
  | some p =>
    have hid : p.id = projectId := KeyedStore.key_of_get hp
    subst hid
    simp only [exec, hp, ret_bind]
    split_ifs with _ hadmin
    · exact KeepsStanding.of_projects_eq hdb rfl
    · exact KeepsStanding.of_projects_eq hdb rfl
    · rw [removeMember, bind_assoc]
      refine KeepsStanding.of_apart_bind hdb rfl ((calls_perform _).mpr (by simp [Op.writes]))
        fun _ db₁ _ hprojects => ?_
      rw [bind_assoc]
      have hp₁ : KeyedStore.get db₁.projects p.id = some p := by rw [hprojects, hp]
      refine KeepsStanding.of_update hdb hp (rewrites_remove hadmin).admin (fun x hx hout => ?_)
        fun pid => ?_
      · have hxm : x = memberId := by
          by_contra hne
          refine hout ?_
          simp only [Project.apply, Option.map_some, Option.getD_some, ListChange.apply]
          exact List.mem_filter.mpr ⟨hx, by simpa using hne⟩
        rw [hxm]
        exact hleaves
      · rw [← hprojects]
        refine get_run_update (fun r => ?_) hp₁ pid
        rw [bind_assoc]
        refine calls_bind (calls_ofExcept r) fun updated => ?_
        rw [bind_assoc]
        exact calls_bind (calls_notifyMembershipRevoked Op.writes_of_isMembership _ _ _)
          fun _ => trivial
    · exact KeepsStanding.of_projects_eq hdb rfl

/-- **Updating a project** makes those leave whom the emails it names the members by leave out. -/
theorem keepsStanding_update {projectId : Id} {payload : ProjectUpdate} {actor : User}
    {g : Generated} (hdb : AdminsAreMembers db)
    (hleaves : ∀ emailIdMap userIds,
      ((getUserEmailIdMap h g (payload.userEmails.getD [] ++ payload.adminEmail.toList)).run
        (exec h) db).1 = .ok emailIdMap →
      ∀ emails ∈ payload.userEmails, emails.mapM emailIdMap.get = .ok userIds →
        ∀ userId, userId ∉ userIds → leaves projectId userId) :
    KeepsStanding leaves db ((do
      let project ← getProject projectId
      let _ ← updateProject h g project payload actor : Service Unit).run (exec h) db).2 := by
  rw [getProject, bind_assoc, perform_bind, run_call]
  cases hp : KeyedStore.get db.projects projectId with
  | none =>
    refine KeepsStanding.of_projects_eq hdb ?_
    simp [exec, hp]
  | some p =>
    have hid : p.id = projectId := KeyedStore.key_of_get hp
    subst hid
    simp only [exec, hp, pure_eq, ret_bind]
    rw [updateProject, bind_assoc]
    refine KeepsStanding.of_apart_bind hdb rfl (calls_getUserEmailIdMap Op.writes_of_isMembership _)
      fun emailIdMap db₁ hmap hprojects₁ => ?_
    rw [bind_assoc]
    -- who the payload leaves out is let go by the event
    have hleft : ∀ userIds, chooseUserIds emailIdMap p payload = .ok userIds →
        ∀ x ∈ p.userIds, x ∉ userIds → leaves p.id x := by
      intro userIds hchosen x hx hout
      cases hemails : payload.userEmails with
      | none =>
        rw [chooseUserIds, hemails] at hchosen
        cases hchosen
        exact absurd hx hout
      | some emails =>
        rw [chooseUserIds, hemails] at hchosen
        exact hleaves emailIdMap userIds hmap emails hemails hchosen x hout
    cases hadmin : chooseAdminId emailIdMap p payload with
    | error e => exact KeepsStanding.of_projects_eq hdb hprojects₁
    | ok adminId =>
      rw [ofExcept_ok, ret_bind, bind_assoc]
      cases hchosen : chooseUserIds emailIdMap p payload with
      | error e => exact KeepsStanding.of_projects_eq hdb hprojects₁
      | ok namedIds =>
        rw [ofExcept_ok, ret_bind, bind_assoc]
        refine KeepsStanding.of_apart_bind hdb hprojects₁ (calls_revokeLeaving (by simp [Op.writes]))
          fun _ db₂ _ hprojects₂ => ?_
        rw [bind_assoc]
        have hp₂ : KeyedStore.get db₂.projects p.id = some p := by rw [hprojects₂, hp]
        refine KeepsStanding.of_update hdb hp
          (rewrites_changes payload p adminId namedIds).admin (fun x hx hout => ?_) fun pid => ?_
        · rw [userIds_apply_changes] at hout
          exact hleft namedIds hchosen x hx fun hin => hout (subset_withAdmin namedIds adminId hin)
        · rw [← hprojects₂]
          refine get_run_update (fun r => ?_) hp₂ pid
          rw [bind_assoc]
          refine calls_bind (calls_ofExcept r) fun updated => ?_
          rw [bind_assoc]
          exact calls_bind (calls_notifyMembershipChange Op.writes_of_isMembership _ _ _)
            fun _ => trivial

/-! ## The run -/

theorem keepsStanding_after (hdb : AdminsAreMembers db) (call : MembershipCall) :
    KeepsStanding (fun pid userId => call.leaves h db pid userId) db (call.after h db) := by
  cases call with
  | create payload actor g =>
    refine keepsStanding_of_gains (calls_bind (calls_createProject ?_ ?_ payload actor)
      fun _ => trivial) hdb
    · exact Op.gains_of_isMembership
    · exact fun p _ hp => hp
  | update projectId payload actor g =>
    refine keepsStanding_update hdb fun emailIdMap userIds hmap emails hemails hids userId hout => ?_
    rw [Option.mem_def.mp hemails] at hmap
    exact ⟨rfl, emails, hemails, emailIdMap, userIds, hmap, hids, hout⟩
  | remove projectId memberId user => exact keepsStanding_remove hdb ⟨rfl, rfl⟩
  | add projectId userId =>
    refine keepsStanding_of_gains (calls_bind (calls_updateOne ?_) fun _ => trivial) hdb
    exact .inr ⟨userId, rfl, .inl rfl⟩
  | setAdmin projectId userId =>
    refine keepsStanding_of_gains (calls_bind (calls_updateOne ?_) fun _ => trivial) hdb
    exact .inr ⟨userId, rfl, .inr rfl⟩
  | act request approver g => exact keepsStanding_act request approver hdb
  | login user qpuSeconds g =>
    refine keepsStanding_of_gains (calls_bind (calls_ensurePersonalProject trivial ?_)
      fun _ => trivial) hdb
    exact List.mem_singleton_self user.id

theorem adminsAreMembers_run (hdb : AdminsAreMembers db) (calls : List MembershipCall) :
    AdminsAreMembers (runMemberships h db calls) := by
  induction calls generalizing db with
  | nil => exact hdb
  | cons call calls ih => exact ih (keepsStanding_after hdb call).admins

variable (h) in
/-- **The admin of a project is a member** after every call of a run, and the only members who
leave by a call are those it removes or leaves out. -/
theorem admin_is_member (hdb : AdminsAreMembers db) (calls : List MembershipCall)
    (call : MembershipCall) :
    (∀ pid p, KeyedStore.get (call.after h (runMemberships h db calls)).projects pid = some p →
      p.adminId ∈ p.userIds) ∧
    ∀ pid p q userId, KeyedStore.get (runMemberships h db calls).projects pid = some p →
      KeyedStore.get (call.after h (runMemberships h db calls)).projects pid = some q →
      userId ∈ p.userIds → userId ∉ q.userIds →
        call.leaves h (runMemberships h db calls) pid userId :=
  have hkept := keepsStanding_after (h := h) (adminsAreMembers_run hdb calls) call
  ⟨hkept.admins, hkept.members⟩

/-! ## A project that changes hands -/

theorem adminsAreMembers_lab : AdminsAreMembers (labDb .mongodb labDocuments) := by
  intro pid p hp
  have hmem := (Table.get_eq_some.mp hp).1
  have hrows : (labDb .mongodb labDocuments).projects.rows = [labProject] := rfl
  rw [hrows, List.mem_singleton] at hmem
  rw [hmem]
  decide

/-- A user joins and becomes the admin, who removes the former one. -/
def handOver : List MembershipCall :=
  [.add labProject.id labPartner.id, .setAdmin labProject.id labPartner.id]

/-- The former admin is removed. -/
def removeFormer : MembershipCall := .remove labProject.id labAdmin.id labPartner

/-- The project's admin and members. -/
def adminAndMembers (db : Db ProjectDocuments) : Option (Id × List Id) :=
  (KeyedStore.get db.projects labProject.id).map fun p => (p.adminId, p.userIds)

/-- The theorem where the project changes hands: the former admin leaves, removed by name. -/
theorem admin_is_member_lab :
    adminAndMembers (runMemberships labHost (labDb .mongodb labDocuments) handOver) =
      some (labPartner.id, [labAdmin.id, "65f0000000000000000000a2", labPartner.id]) ∧
    adminAndMembers (removeFormer.after labHost
        (runMemberships labHost (labDb .mongodb labDocuments) handOver)) =
      some (labPartner.id, ["65f0000000000000000000a2", labPartner.id]) ∧
    removeFormer.leaves labHost (runMemberships labHost (labDb .mongodb labDocuments) handOver)
      labProject.id labAdmin.id := by
  have hbefore : KeyedStore.get
      (runMemberships labHost (labDb .mongodb labDocuments) handOver).projects labProject.id =
      some { labProject with
        adminId := labPartner.id
        userIds := [labAdmin.id, "65f0000000000000000000a2", labPartner.id] } := by decide +kernel
  have hafter : KeyedStore.get (removeFormer.after labHost
      (runMemberships labHost (labDb .mongodb labDocuments) handOver)).projects labProject.id =
      some { labProject with
        adminId := labPartner.id
        userIds := ["65f0000000000000000000a2", labPartner.id] } := by decide +kernel
  have hkept := admin_is_member labHost adminsAreMembers_lab handOver removeFormer
  refine ⟨by decide +kernel, by decide +kernel, ?_⟩
  exact hkept.2 _ _ _ labAdmin.id hbefore hafter (by decide +kernel) (by decide +kernel)

end Mss
