import Mathlib.Data.List.Forall2
import Mss.FailedApprovals
import Mss.QpuLedger
import Mss.SqlProjects

/-!
# The members that emails name

A project is created, and updated, with its members named by their emails. Emails that differ only
in case name one user. The ids of emails that are repeated are repeated too: MongoDB keeps such a
list, and SQL refuses it, as if the project's name were taken, when an update has deleted the app
tokens of those who leave.

* `CanName`, `run_getUserEmailIdMap_ok`: the ids of the members.
* `CreatesDistinct`, `UpdatesDistinct`: what creating and updating a project should do.
* **`distinct_iff`**: when they do.
-/

namespace Mss

open Atomic Storage Prog

/-! ## What naming the members comes to -/

section

variable {h : Host} {g : Generated} {P : Type} [ProjectStore P] {db : Db P} {emails : List String}

variable (h g emails) in
/-- The users that the emails miss can be created. -/
def CanName (db : Db P) : Prop :=
  (insertManyUsers h db.backend db.users (newUsers g (unknownEmails h db.backend emails db.users.rows))).1 =
    .ok ()

variable (h g emails) in
/-- The ids by email of the emails that are named. -/
def emailIds (b : Backend) (users : List User) : Dict Id :=
  (namedIds h emails (idsByLowerEmail h b g emails users)).toOption.getD []

variable (h) in
/-- **The ids of the emails**, as they are given: each is the id of a user of the email, and the same
for the emails of one lower case. -/
structure IsEmailIdMap (emails : List String) (users : List User) (byLowerEmail emailIdMap : Dict Id) :
    Prop where
  get_eq : ∀ email ∈ emails, emailIdMap.get email = byLowerEmail.get (h.lower email)
  named : ∀ email ∈ emails, ∃ id, byLowerEmail.get (h.lower email) = .ok id ∧
    Names h users email id

/-- **Naming the users**, once those missing are created, gives the ids of the emails. -/
theorem run_getUserEmailIdMap_ok (hname : CanName h g emails db) :
    ∃ users : Table User User.id, (getUserEmailIdMap h g emails).run (exec h) db =
        (.ok (emailIds h g emails db.backend db.users.rows), { db with users }) ∧
      IsEmailIdMap h emails users.rows (idsByLowerEmail h db.backend g emails db.users.rows)
        (emailIds h g emails db.backend db.users.rows) := by
  by_cases hemails : emails = []
  · subst hemails
    exact ⟨db.users, rfl, fun _ hmem => absurd hmem List.not_mem_nil,
      fun _ hmem => absurd hmem List.not_mem_nil⟩
  · have hrows := insertManyUsers_ok hname
    have hall (email : String) (hemail : email ∈ emails) :=
      @exists_idByLowerEmail h db.backend g emails db.users.rows email hemail
    obtain ⟨emailIdMap, hmap, hget⟩ := get_namedIds fun email hemail => by
      obtain ⟨id, hid, -⟩ := hall email hemail
      exact ⟨id, hid⟩
    have hids : emailIds h g emails db.backend db.users.rows = emailIdMap := by
      rw [emailIds, hmap]
      rfl
    rw [hids]
    refine ⟨(insertManyUsers h db.backend db.users
      (newUsers g (unknownEmails h db.backend emails db.users.rows))).2, ?_, hget, fun email hemail => ?_⟩
    · rw [run_getUserEmailIdMap hemails, hname]
      exact congrArg (·, _) hmap
    · obtain ⟨id, hid, hnames⟩ := hall email hemail
      rw [hrows]
      exact ⟨id, hid, hnames⟩

theorem run_getUserEmailIdMap_error (hname : ¬ CanName h g emails db) :
    ∃ users : Table User User.id, (getUserEmailIdMap h g emails).run (exec h) db =
      (.error .duplicateKey, { db with users }) := by
  have hemails : emails ≠ [] := by
    rintro rfl
    exact hname rfl
  unfold CanName at hname
  rw [run_getUserEmailIdMap hemails]
  refine ⟨_, congrArg (·, _) ?_⟩
  unfold insertManyUsers at hname ⊢
  rcases hinsert : Table.insertInOrder (SharesEmail h) db.users
    (newUsers g (unknownEmails h db.backend emails db.users.rows)) with ⟨t', inserted⟩
  rw [hinsert] at hname
  cases inserted with
  | true => exact absurd rfl hname
  | false => cases db.backend <;> rfl

/-! ## The members -/

variable {users : Table User User.id} {byLowerEmail emailIdMap : Dict Id} {l : List String}
  {ids : List Id} {adminId : Id}

variable (h) in
/-- The ids of emails, each that of a user of its email. -/
def AreIds (users : List User) (byLowerEmail : Dict Id) : List String → List Id → Prop :=
  List.Forall₂ fun email id =>
    byLowerEmail.get (h.lower email) = .ok id ∧ Names h users email id

theorem IsEmailIdMap.exists_ids (hmap : IsEmailIdMap h emails users.rows byLowerEmail emailIdMap)
    (hl : l ⊆ emails) :
    ∃ ids, l.mapM emailIdMap.get = .ok ids ∧ AreIds h users.rows byLowerEmail l ids := by
  have hyields : Yields (fun _ => False) (l.mapM emailIdMap.get)
      (AreIds h users.rows byLowerEmail l) := by
    refine Yields.mapM fun email hemail => ?_
    obtain ⟨id, hid, hnames⟩ := hmap.named email (hl hemail)
    rw [hmap.get_eq email (hl hemail), hid]
    exact Yields.ok ⟨rfl, hnames⟩
  exact hyields.exists_ok fun _ hfalse => hfalse.elim

theorem AreIds.nodup_iff (hids : AreIds h users.rows byLowerEmail l ids) :
    ids.Nodup ↔ (l.map h.lower).Nodup := by
  let IsIdOf (lower : String) (id : Id) : Prop := byLowerEmail.get lower = .ok id ∧
    ∃ u ∈ users.rows, h.lower u.email = lower ∧ u.id = id
  have hunique : Relator.BiUnique IsIdOf := by
    constructor
    · rintro lower id lower' ⟨-, u, hu, rfl, rfl⟩ ⟨-, v, hv, rfl, hid⟩
      rw [List.inj_on_of_nodup_map users.nodup hu hv hid.symm]
    · rintro lower id id' ⟨hid, -⟩ ⟨hid', -⟩
      exact Except.ok.inj (hid.symm.trans hid')
  exact (List.rel_nodup hunique (List.forall₂_map_left_iff.mpr hids)).symm

theorem AreIds.exists_id (hids : AreIds h users.rows byLowerEmail l ids) {email : String}
    (hemail : email ∈ l) : ∃ id ∈ ids, Names h users.rows email id := by
  induction hids with
  | nil => exact absurd hemail List.not_mem_nil
  | cons hid _ ih =>
    rcases List.mem_cons.mp hemail with rfl | htail
    · exact ⟨_, List.mem_cons_self, hid.2⟩
    · obtain ⟨id, hmem, hnames⟩ := ih htail
      exact ⟨id, List.mem_cons_of_mem _ hmem, hnames⟩

theorem AreIds.mem_iff (hids : AreIds h users.rows byLowerEmail l ids) {id : Id} :
    id ∈ ids ↔ ∃ email ∈ l, byLowerEmail.get (h.lower email) = .ok id := by
  induction hids with
  | nil => simp
  | cons hid _ ih =>
    rw [List.mem_cons, ih, List.exists_mem_cons_iff, hid.1, Except.ok.injEq, eq_comm]

theorem AreIds.exists_email (hids : AreIds h users.rows byLowerEmail l ids) {id : Id}
    (hid : id ∈ ids) : ∃ email ∈ l, Names h users.rows email id := by
  induction hids with
  | nil => exact absurd hid List.not_mem_nil
  | cons hhead _ ih =>
    rcases List.mem_cons.mp hid with rfl | htail
    · exact ⟨_, List.mem_cons_self, hhead.2⟩
    · obtain ⟨email, hemail, hnames⟩ := ih htail
      exact ⟨email, List.mem_cons_of_mem _ hemail, hnames⟩

theorem nodup_withAdmin_iff : (withAdmin ids adminId).Nodup ↔ ids.Nodup := by
  unfold withAdmin
  split_ifs with hmem
  · exact Iff.rfl
  · rw [List.nodup_append]
    simp only [List.nodup_singleton, List.mem_singleton, true_and, forall_eq]
    exact ⟨fun h => h.1, fun h => ⟨h, fun a ha heq => hmem (heq ▸ ha)⟩⟩

theorem mem_withAdmin_iff {id : Id} : id ∈ withAdmin ids adminId ↔ id ∈ ids ∨ id = adminId := by
  unfold withAdmin
  split_ifs with hmem
  · exact ⟨.inl, fun h => h.elim (fun hid => hid) fun heq => heq ▸ hmem⟩
  · rw [List.mem_append, List.mem_singleton]

variable (h) in
/-- **The members of a project are those whom emails name, and its admin.** -/
structure MembersAre (users : List User) (emails : List String) (p : Project) : Prop where
  admin_mem : p.adminId ∈ p.userIds
  named : ∀ email ∈ emails, ∃ id ∈ p.userIds, Names h users email id
  only : ∀ id ∈ p.userIds, id = p.adminId ∨ ∃ email ∈ emails, Names h users email id

theorem AreIds.membersAre (hids : AreIds h users.rows byLowerEmail l ids) {p : Project}
    (hmembers : p.userIds = withAdmin ids p.adminId) : MembersAre h users.rows l p where
  admin_mem := hmembers ▸ mem_withAdmin ids p.adminId
  named email hemail := by
    obtain ⟨id, hid, hnames⟩ := hids.exists_id hemail
    exact ⟨id, hmembers ▸ subset_withAdmin ids p.adminId hid, hnames⟩
  only id hid := by
    rw [hmembers, mem_withAdmin_iff] at hid
    exact hid.symm.imp_right hids.exists_email

/-! ## Creating a project -/

theorem run_createSystemNotice (n : SystemNotice) (db : Db P) :
    ∃ notices, (createSystemNotice n).run (exec h) db = (.ok (), { db with notices }) := by
  unfold createSystemNotice
  split_ifs
  · exact ⟨db.notices, rfl⟩
  · exact ⟨db.notices ++ [n], rfl⟩

theorem run_notifyMembershipChange (initial : Option Project) (final : Project) (actor : User)
    (db : Db P) : ∃ notices, (notifyMembershipChange initial (some final) actor).run (exec h) db =
      (.ok (), { db with notices }) := by
  unfold notifyMembershipChange
  dsimp only
  rw [run_bind]
  obtain ⟨granted, hgranted⟩ := run_createSystemNotice (h := h) _ db
  rw [hgranted]
  dsimp only
  rw [run_bind]
  obtain ⟨revoked, hrevoked⟩ := run_createSystemNotice (h := h) _ { db with notices := granted }
  rw [hrevoked]
  dsimp only
  split_ifs
  · exact run_createSystemNotice _ _
  · exact ⟨revoked, rfl⟩

variable {payload : ProjectCreate} {actor : User}

/-- A project of the name is stored. -/
def NameTaken (db : Db P) (name : String) : Prop :=
  ∃ id q, KeyedStore.get db.projects id = some q ∧ q.name = name

variable (h) in
/-- **What creating a project should do**: store it with the members named, each once, or raise that
one of its name exists only if one does. -/
structure CreatesDistinct (db : Db P) (payload : ProjectCreate)
    (outcome : Except Exc Project × Db P) : Prop where
  stored : ∀ p, outcome.1 = .ok p → KeyedStore.get outcome.2.projects p.id = some p
  nodup : ∀ p, outcome.1 = .ok p → p.userIds.Nodup
  members : ∀ p, outcome.1 = .ok p → MembersAre h outcome.2.users.rows payload.userEmails p ∧
    Names h outcome.2.users.rows payload.adminEmail p.adminId
  nameTaken : outcome.1 = .error .projectExists → NameTaken db payload.name

theorem CreatesDistinct.of_error {outcome : Except Exc Project × Db P} {e : Exc}
    (he : outcome.1 = .error e) (htaken : e = .projectExists → NameTaken db payload.name) :
    CreatesDistinct h db payload outcome := by
  refine ⟨fun p hok => ?_, fun p hok => ?_, fun p hok => ?_, fun hexists => ?_⟩
  · rw [he] at hok
    cases hok
  · rw [he] at hok
    cases hok
  · rw [he] at hok
    cases hok
  · exact htaken (Except.error.inj (he.symm.trans hexists))

variable (actor) in
theorem run_createProject_named (hname : CanName h g (memberEmails payload) db) :
    ∃ (users : Table User User.id) (adminId : Id) (ids : List Id),
      Names h users.rows payload.adminEmail adminId ∧
      AreIds h users.rows (idsByLowerEmail h db.backend g (memberEmails payload) db.users.rows)
        payload.userEmails ids ∧
      ((∃ projects notices,
          KeyedStore.insert db.projects (newProject g payload adminId ids) = some projects ∧
          (createProject h g payload actor).run (exec h) db =
            (.ok (newProject g payload adminId ids), { db with users, projects, notices })) ∨
        KeyedStore.insert db.projects (newProject g payload adminId ids) = none ∧
          (createProject h g payload actor).run (exec h) db =
            (.error .projectExists, { db with users })) := by
  obtain ⟨users, hrun, hmap⟩ := run_getUserEmailIdMap_ok hname
  have hadminEmail : payload.adminEmail ∈ memberEmails payload :=
    List.mem_append_right _ List.mem_cons_self
  obtain ⟨adminId, hadminId, hadmin⟩ := hmap.named _ hadminEmail
  obtain ⟨ids, hids, hare⟩ := hmap.exists_ids (l := payload.userEmails)
    (List.subset_append_left _ _)
  refine ⟨users, adminId, ids, hadmin, hare, ?_⟩
  rw [createProject_eq, run_bind, hrun]
  dsimp only
  unfold createNamed
  rw [hmap.get_eq _ hadminEmail, hadminId, hids]
  rcases exec_insertProject h (newProject g payload adminId ids) { db with users } with
    ⟨projects, hinsert, he⟩ | ⟨hinsert, he⟩
  · obtain ⟨notices, hnotify⟩ := run_notifyMembershipChange (h := h) none
      (newProject g payload adminId ids) actor { db with users, projects }
    refine .inl ⟨projects, notices, hinsert, ?_⟩
    simp only [ofExcept_ok, ret_bind, insertProject, perform_bind, call_bind, run_call, he]
    change ((notifyMembershipChange none (some (newProject g payload adminId ids)) actor >>=
      fun _ => Prog.ret (newProject g payload adminId ids)).run (exec h)
        { db with users, projects }) = _
    rw [run_bind, hnotify]
    rfl
  · refine .inr ⟨hinsert, ?_⟩
    simp only [ofExcept_ok, ret_bind, insertProject, perform_bind, call_bind, run_call, he]
    rfl

/-- **Creating a project does what it should** exactly if its members cannot be named, its name is
taken, or the emails of its members are distinct in any case. -/
theorem createsDistinct_iff (hfresh : KeyedStore.get db.projects g.id = none) :
    CreatesDistinct h db payload ((createProject h g payload actor).run (exec h) db) ↔
      ¬ CanName h g (memberEmails payload) db ∨ NameTaken db payload.name ∨
        (payload.userEmails.map h.lower).Nodup := by
  by_cases hname : CanName h g (memberEmails payload) db
  · obtain ⟨users, adminId, ids, hadmin, hids, hrun⟩ := run_createProject_named actor hname
    have hnodup : (newProject g payload adminId ids).userIds.Nodup ↔
        (payload.userEmails.map h.lower).Nodup := nodup_withAdmin_iff.trans hids.nodup_iff
    rcases hrun with ⟨projects, notices, hinsert, hrun⟩ | ⟨hinsert, hrun⟩
    · have hfree : ¬ NameTaken db payload.name := by
        rintro ⟨id, q, hq, hqname⟩
        have hnone : KeyedStore.insert db.projects (newProject g payload adminId ids) = none :=
          KeyedStore.insert_eq_none.mpr (.inr ⟨id, q, hq, .inr hqname⟩)
        rw [hinsert] at hnone
        cases hnone
      rw [hrun, or_iff_right (not_not_intro hname), or_iff_right hfree, ← hnodup]
      refine ⟨fun hcreates => hcreates.nodup _ rfl, fun hn => ⟨?_, ?_, ?_, fun herror => ?_⟩⟩
      · rintro p ⟨⟩
        exact KeyedStore.get_insert_self hinsert
      · rintro p ⟨⟩
        exact hn
      · rintro p ⟨⟩
        exact ⟨hids.membersAre rfl, hadmin⟩
      · cases herror
    · rw [hrun, or_iff_right (not_not_intro hname)]
      refine ⟨fun hcreates => .inl (hcreates.nameTaken rfl), fun hcondition =>
        .of_error rfl fun _ => ?_⟩
      refine hcondition.elim (fun htaken => htaken) fun hn => ?_
      rcases KeyedStore.insert_eq_none.mp hinsert with hstorable | ⟨id, q, hq, hclash⟩
      · exact absurd (ProjectStore.storable_of_nodup (hnodup.mpr hn)) hstorable
      · refine ⟨id, q, hq, hclash.resolve_left ?_⟩
        rintro rfl
        exact Option.some_ne_none q (hq.symm.trans hfresh)
  · obtain ⟨users, hrun⟩ := run_getUserEmailIdMap_error hname
    refine iff_of_true ?_ (.inl hname)
    rw [createProject_eq, run_bind, hrun]
    refine .of_error rfl fun hexists => ?_
    cases hexists

/-! ## Updating a project -/

variable {project : Project} {update : ProjectUpdate}

/-- The emails that an update names. -/
def updateEmails (update : ProjectUpdate) : List String :=
  update.userEmails.getD [] ++ update.adminEmail.toList

variable (h) in
/-- The members of a project after an update: those whom it names, or those before it. -/
structure UpdatedMembers (users : List User) (project : Project) (update : ProjectUpdate)
    (q : Project) : Prop where
  nodup : q.userIds.Nodup
  named : ∀ emails ∈ update.userEmails, MembersAre h users emails q
  kept : update.userEmails = none → ∀ id, id ∈ q.userIds ↔ id ∈ project.userIds ∨ id = q.adminId
  admin : ∀ email ∈ update.adminEmail, Names h users email q.adminId
  keptAdmin : update.adminEmail = none → q.adminId = project.adminId

variable (h) in
/-- **What updating a project should do**: store it with the members that it is to have, each once,
or raise and leave it and its app tokens as they were. -/
structure UpdatesDistinct (db : Db P) (project : Project) (update : ProjectUpdate)
    (outcome : Except Exc (Option Project) × Db P) : Prop where
  stored : ∀ r, outcome.1 = .ok r → ∃ q, r = some q ∧
    KeyedStore.get outcome.2.projects project.id = some q ∧
    UpdatedMembers h outcome.2.users.rows project update q
  unchanged : ∀ e, outcome.1 = .error e →
    KeyedStore.get outcome.2.projects project.id = some project ∧
      outcome.2.appTokens.rows = db.appTokens.rows

/-- The app tokens that are left when a project has other members. -/
def tokensLeft (project : Project) (userIds : List Id) (appTokens : Table AppToken AppToken.id) :
    Table AppToken AppToken.id :=
  if userIds ≠ project.userIds then
    appTokens.eraseWhere
      (AppTokenFilter.matches { projectId := project.id, notUserIds := some userIds })
  else appTokens

theorem tokensLeft_eq_iff {userIds : List Id} {appTokens : Table AppToken AppToken.id} :
    (tokensLeft project userIds appTokens).rows = appTokens.rows ↔ userIds = project.userIds ∨
      ∀ t ∈ appTokens.rows, t.projectId = project.id → t.userId ∈ userIds := by
  unfold tokensLeft
  split_ifs with hids
  · rw [or_iff_right hids, Table.eraseWhere, List.filter_eq_self]
    refine forall₂_congr fun t _ => ?_
    simp [AppTokenFilter.matches, imp_iff_not_or]
  · exact iff_of_true rfl (.inl (not_not.mp hids))

theorem userIds_after_changes (adminId : Id) (userIds : List Id) :
    (project.apply (update.changes project adminId userIds)).userIds = userIds := by
  unfold Project.apply ProjectUpdate.changes
  dsimp only
  split_ifs with hids
  · rfl
  · exact (not_not.mp hids).symm

theorem run_revokeLeaving (userIds : List Id) (db : Db P) :
    (revokeLeaving project userIds).run (exec h) db =
      (.ok (), { db with appTokens := tokensLeft project userIds db.appTokens }) := by
  unfold revokeLeaving tokensLeft
  split_ifs <;> rfl

variable (actor) in
/-- **What updating a project does** once its members can be named: it deletes the app tokens of those
who leave, and then updates the project, which may be refused. -/
theorem run_updateProject_named (hstored : KeyedStore.get db.projects project.id = some project)
    (hname : CanName h g (updateEmails update) db) :
    ∃ (users : Table User User.id) (adminId : Id) (ids : List Id),
      chooseAdminId (emailIds h g (updateEmails update) db.backend db.users.rows) project update =
        .ok adminId ∧
      chooseUserIds (emailIds h g (updateEmails update) db.backend db.users.rows) project update =
        .ok ids ∧
      (∀ email ∈ update.adminEmail, Names h users.rows email adminId) ∧
      (∀ emails ∈ update.userEmails, AreIds h users.rows
        (idsByLowerEmail h db.backend g (updateEmails update) db.users.rows) emails ids) ∧
      ((∃ projects notices, KeyedStore.update db.projects project.id
            (update.changes project adminId (withAdmin ids adminId)) = some projects ∧
          (updateProject h g project update actor).run (exec h) db =
            (.ok (some (project.apply (update.changes project adminId (withAdmin ids adminId)))),
              { db with users, projects, notices,
                        appTokens := tokensLeft project (withAdmin ids adminId) db.appTokens })) ∨
        KeyedStore.update db.projects project.id
            (update.changes project adminId (withAdmin ids adminId)) = none ∧
          (updateProject h g project update actor).run (exec h) db =
            (.error .duplicateKey, { db with
              users, appTokens := tokensLeft project (withAdmin ids adminId) db.appTokens })) := by
  obtain ⟨users, hrun, hmap⟩ := run_getUserEmailIdMap_ok hname
  -- an email that is not given leaves the admin and the members
  obtain ⟨adminId, hadminId, hadmin⟩ : ∃ adminId,
      chooseAdminId (emailIds h g (updateEmails update) db.backend db.users.rows) project update =
        .ok adminId ∧
      ∀ email ∈ update.adminEmail, Names h users.rows email adminId := by
    unfold chooseAdminId
    cases hemail : update.adminEmail with
    | none => exact ⟨project.adminId, rfl, fun _ hmem => by cases hmem⟩
    | some email =>
      have hmem : email ∈ updateEmails update :=
        List.mem_append_right _ (by rw [hemail]; exact List.mem_cons_self)
      obtain ⟨id, hid, hnames⟩ := hmap.named email hmem
      refine ⟨id, (hmap.get_eq email hmem).trans hid, fun _ hsome => ?_⟩
      cases hsome
      exact hnames
  obtain ⟨ids, hids, hare⟩ : ∃ ids,
      chooseUserIds (emailIds h g (updateEmails update) db.backend db.users.rows) project update =
        .ok ids ∧
      ∀ emails ∈ update.userEmails, AreIds h users.rows
        (idsByLowerEmail h db.backend g (updateEmails update) db.users.rows) emails ids := by
    unfold chooseUserIds
    cases hemails : update.userEmails with
    | none => exact ⟨project.userIds, rfl, fun _ hmem => by cases hmem⟩
    | some emails =>
      have hsub : emails ⊆ updateEmails update := by
        rw [updateEmails, hemails]
        exact List.subset_append_left _ _
      obtain ⟨ids, hids, hare⟩ := hmap.exists_ids hsub
      refine ⟨ids, hids, fun _ hsome => ?_⟩
      cases hsome
      exact hare
  refine ⟨users, adminId, ids, hadminId, hids, hadmin, hare, ?_⟩
  have hupdate : updateProject h g project update actor =
      getUserEmailIdMap h g (updateEmails update) >>= fun emailIdMap =>
        ofExcept (chooseAdminId emailIdMap project update) >>= fun adminId =>
        ofExcept (chooseUserIds emailIdMap project update) >>= fun ids =>
        revokeLeaving project (withAdmin ids adminId) >>= fun _ =>
        call (.updateProject project.id
          (update.changes project adminId (withAdmin ids adminId))) >>= fun r =>
        ofExcept r >>= fun updatedProject =>
        notifyMembershipChange (some project) updatedProject actor >>= fun _ =>
          Prog.ret updatedProject := rfl
  rw [hupdate, run_bind, hrun]
  dsimp only
  rw [hadminId, hids, ofExcept_ok, ret_bind, ofExcept_ok, ret_bind, run_bind, run_revokeLeaving]
  dsimp only
  rw [perform_bind, run_call]
  rcases exec_updateProject (h := h) project.id
      (update.changes project adminId (withAdmin ids adminId)) { db with
        users, appTokens := tokensLeft project (withAdmin ids adminId) db.appTokens } with
    ⟨hnone, -⟩ | ⟨p, hp, ⟨projects, hwritten, he⟩ | ⟨hrefused, he⟩⟩
  · exact absurd (hstored.symm.trans hnone) (by simp)
  · obtain rfl := Option.some.inj (hstored.symm.trans hp)
    rw [he]
    obtain ⟨notices, hnotify⟩ := run_notifyMembershipChange (h := h) (some project)
      (project.apply (update.changes project adminId (withAdmin ids adminId))) actor { db with
        users, projects, appTokens := tokensLeft project (withAdmin ids adminId) db.appTokens }
    refine .inl ⟨projects, notices, hwritten, ?_⟩
    rw [ofExcept_ok, ret_bind, run_bind, hnotify]
    rfl
  · rw [he]
    exact .inr ⟨hrefused, rfl⟩

/-! ### When an update does what it should -/

variable (h) in
/-- The emails of the new members are distinct in any case; members who stay are listed once. -/
def EmailsDistinct (project : Project) (update : ProjectUpdate) : Prop :=
  (∀ emails ∈ update.userEmails, (emails.map h.lower).Nodup) ∧
    (update.userEmails = none → project.userIds.Nodup)

/-- Another project has the name that an update gives. -/
def OtherHasName (db : Db P) (project : Project) (update : ProjectUpdate) : Prop :=
  ∃ id q, id ≠ project.id ∧ KeyedStore.get db.projects id = some q ∧
    q.name = update.name.getD project.name

variable (h g) in
/-- The members stay as they are, or no app token of the project is of another user. -/
def RevokesNone (db : Db P) (project : Project) (update : ProjectUpdate) : Prop :=
  ∀ adminId ids,
    chooseAdminId (emailIds h g (updateEmails update) db.backend db.users.rows) project update =
      .ok adminId →
    chooseUserIds (emailIds h g (updateEmails update) db.backend db.users.rows) project update =
      .ok ids →
      withAdmin ids adminId = project.userIds ∨ ∀ t ∈ db.appTokens.rows,
        t.projectId = project.id → t.userId ∈ withAdmin ids adminId

/-- **Updating a project does what it should** exactly if its members cannot be named, or it is
refused and no app token is of those who leave, or it is stored and its emails are distinct. -/
theorem updatesDistinct_iff {refusesRepeats : Prop}
    (hstore : ∀ p : Project, ¬ KeyedStore.Storable (S := P) p ↔ refusesRepeats ∧ ¬ p.userIds.Nodup)
    (hstored : KeyedStore.get db.projects project.id = some project) :
    UpdatesDistinct h db project update ((updateProject h g project update actor).run (exec h) db) ↔
      ¬ CanName h g (updateEmails update) db ∨
        (OtherHasName db project update ∨ refusesRepeats ∧ ¬ EmailsDistinct h project update →
          RevokesNone h g db project update) ∧
        (¬ OtherHasName db project update ∧ ¬ refusesRepeats → EmailsDistinct h project update) := by
  -- the emails are named before the project is touched
  by_cases hname : CanName h g (updateEmails update) db
  · obtain ⟨users, adminId, ids, hadminId, hids, hadmin, hare, hrun⟩ :=
      run_updateProject_named actor hstored hname
    have hnodup : (withAdmin ids adminId).Nodup ↔ EmailsDistinct h project update := by
      rw [nodup_withAdmin_iff, EmailsDistinct]
      unfold chooseUserIds at hids
      cases hemails : update.userEmails with
      | none =>
        rw [hemails] at hids
        obtain rfl := Except.ok.inj hids
        simp
      | some emails => simpa using (hare emails hemails).nodup_iff
    have hnone : KeyedStore.update db.projects project.id
        (update.changes project adminId (withAdmin ids adminId)) = none ↔
          OtherHasName db project update ∨ refusesRepeats ∧ ¬ EmailsDistinct h project update := by
      rw [KeyedStore.update_eq_none, ← hnodup]
      constructor
      · rintro ⟨p, hp, hrefused⟩
        obtain rfl := Option.some.inj (hstored.symm.trans hp)
        rw [hstore, userIds_after_changes] at hrefused
        exact hrefused.symm
      · intro hrefused
        refine ⟨project, hstored, ?_⟩
        rw [hstore, userIds_after_changes]
        exact hrefused.symm
    have hrevokes : RevokesNone h g db project update ↔
        (tokensLeft project (withAdmin ids adminId) db.appTokens).rows = db.appTokens.rows := by
      rw [tokensLeft_eq_iff]
      refine ⟨fun hall => hall adminId ids hadminId hids, fun hthis adminId' ids' hadmin' hids' => ?_⟩
      obtain rfl := Except.ok.inj (hadminId.symm.trans hadmin')
      obtain rfl := Except.ok.inj (hids.symm.trans hids')
      exact hthis
    rw [or_iff_right (not_not_intro hname), ← hnone]
    have hnot : ¬ OtherHasName db project update ∧ ¬ refusesRepeats →
        KeyedStore.update db.projects project.id
          (update.changes project adminId (withAdmin ids adminId)) ≠ none := fun h => by
      rw [ne_eq, hnone]
      exact fun hrefused => hrefused.elim h.1 fun hrepeats => h.2 hrepeats.1
    -- the project is written, or another has its name or the list is refused
    rcases hrun with ⟨projects, notices, hwritten, hrun⟩ | ⟨hrefused, hrun⟩
    · have hsome : KeyedStore.update db.projects project.id
          (update.changes project adminId (withAdmin ids adminId)) ≠ none := by simp [hwritten]
      rw [hrun]
      constructor
      · intro hupdates
        obtain ⟨q, hq, -, hmembers⟩ := hupdates.stored _ rfl
        obtain rfl := Option.some.inj hq
        have hn := hmembers.nodup
        rw [userIds_after_changes, hnodup] at hn
        exact ⟨fun hrefused => absurd hrefused hsome, fun _ => hn⟩
      · rintro ⟨-, hdistinct⟩
        have hn : (withAdmin ids adminId).Nodup := by
          by_contra hrepeated
          rw [hnodup] at hrepeated
          rw [ne_eq, hnone, not_or, not_and_not_right] at hsome
          exact hrepeated (hdistinct ⟨hsome.1, fun hrepeats => hrepeated (hsome.2 hrepeats)⟩)
        refine ⟨?_, fun e he => by cases he⟩
        rintro r ⟨⟩
        refine ⟨_, rfl, ?_, ?_⟩
        · rw [KeyedStore.get_update hwritten, if_pos rfl, hstored, Option.map_some]
        · refine ⟨by rwa [userIds_after_changes], fun emails hemails => ?_, fun hemails id => ?_,
            fun email hemail => hadmin email hemail, fun hemail => ?_⟩
          · exact (hare emails hemails).membersAre (userIds_after_changes _ _)
          · rw [userIds_after_changes, mem_withAdmin_iff]
            unfold chooseUserIds at hids
            rw [hemails] at hids
            obtain rfl := Except.ok.inj hids
            rfl
          · unfold chooseAdminId at hadminId
            rw [hemail] at hadminId
            exact (Except.ok.inj hadminId).symm
    · rw [hrun, hrevokes]
      refine ⟨fun hupdates => ⟨fun _ => (hupdates.unchanged _ rfl).2,
        fun h => absurd hrefused (hnot h)⟩, fun htokens => ⟨?_, fun _ _ => ?_⟩⟩
      · intro r hr
        cases hr
      · exact ⟨hstored, htokens.1 hrefused⟩
  · obtain ⟨users, hrun⟩ := run_getUserEmailIdMap_error hname
    refine iff_of_true ?_ (.inl hname)
    have hupdate : (updateProject h g project update actor).run (exec h) db =
        (.error .duplicateKey, { db with users }) := by
      unfold updateProject
      change ((getUserEmailIdMap h g (updateEmails update) >>= _).run (exec h) db) = _
      rw [run_bind, hrun]
    rw [hupdate]
    refine ⟨fun r hr => ?_, fun _ _ => ⟨hstored, rfl⟩⟩
    cases hr

end

/-- **Members are distinct and named once**, and a refused update leaves the app tokens, exactly where
the emails are distinct in any case, or the repeated ones come to nothing. -/
theorem distinct_iff (h : Host) (g : Generated) (actor : User) :
    (∀ (P : Type) [ProjectStore P] (db : Db P) (payload : ProjectCreate),
      KeyedStore.get db.projects g.id = none →
        (CreatesDistinct h db payload ((createProject h g payload actor).run (exec h) db) ↔
          ¬ CanName h g (memberEmails payload) db ∨ NameTaken db payload.name ∨
            (payload.userEmails.map h.lower).Nodup)) ∧
    (∀ (db : Db ProjectDocuments) (project : Project) (update : ProjectUpdate),
      KeyedStore.get db.projects project.id = some project →
        (UpdatesDistinct h db project update
            ((updateProject h g project update actor).run (exec h) db) ↔
          ¬ CanName h g (updateEmails update) db ∨
            (OtherHasName db project update → RevokesNone h g db project update) ∧
            (¬ OtherHasName db project update → EmailsDistinct h project update))) ∧
    ∀ (db : Db ProjectTables) (project : Project) (update : ProjectUpdate),
      KeyedStore.get db.projects project.id = some project →
        (UpdatesDistinct h db project update
            ((updateProject h g project update actor).run (exec h) db) ↔
          ¬ CanName h g (updateEmails update) db ∨
            (OtherHasName db project update ∨ ¬ EmailsDistinct h project update →
              RevokesNone h g db project update)) := by
  refine ⟨fun P _ db payload hfresh => createsDistinct_iff hfresh,
    fun db project update hstored => ?_, fun db project update hstored => ?_⟩
  · have hstore : ∀ p : Project,
        ¬ KeyedStore.Storable (S := ProjectDocuments) p ↔ False ∧ ¬ p.userIds.Nodup := fun p =>
      iff_of_false (not_not_intro trivial) fun hfalse => hfalse.1
    rw [updatesDistinct_iff hstore hstored]
    simp
  · have hstore : ∀ p : Project,
        ¬ KeyedStore.Storable (S := ProjectTables) p ↔ True ∧ ¬ p.userIds.Nodup := fun p =>
      (true_and _).symm ▸ Iff.rfl
    rw [updatesDistinct_iff hstore hstored]
    simp

/-! ## A member named twice -/

/-- What a call generates, with an id of its own for each user. -/
def membersGenerated : Generated := { labGenerated with userId := fun email => email }

/-- A project of the members of some emails. -/
def projectOf (userEmails : List String) : ProjectCreate where
  name := "annealing"
  adminEmail := "admin@lab.org"
  userEmails := userEmails

/-- The members of some emails are to be a project's. -/
def membersUpdate (userEmails : List String) : ProjectUpdate where
  userEmails := some userEmails
  updatedAt := none

/-- A member's app token. -/
def labToken : AppToken where
  title := "notebook"
  projectId := labProject.id
  lifespanSeconds := .finite 3600
  id := "65f0000000000000000000f1"
  token := "secret"
  userId := "65f0000000000000000000a2"
  createdAt := 0

/-- A project, with the app token. -/
def tokenDb {P : Type} (backend : Backend) (projects : P) : Db P :=
  { labDb backend projects with appTokens := Table.empty.insert labToken rfl }

theorem eq_ok_of_isOk {x : Except Exc Unit} (h : x.isOk = true) : x = .ok () := by
  cases x with
  | ok _ => rfl
  | error e => cases h

theorem distinct_carl_dora :
    CreatesDistinct labHost (labDb .sql ProjectTables.empty)
        (projectOf ["carl@lab.org", "dora@lab.org"])
        ((createProject labHost membersGenerated (projectOf ["carl@lab.org", "dora@lab.org"])
          labAdmin).run (exec labHost) (labDb .sql ProjectTables.empty)) ∧
      UpdatesDistinct labHost (tokenDb .mongodb labDocuments) labProject
        (membersUpdate ["carl@lab.org", "dora@lab.org"])
        ((updateProject labHost membersGenerated labProject
          (membersUpdate ["carl@lab.org", "dora@lab.org"]) labAdmin).run (exec labHost)
            (tokenDb .mongodb labDocuments)) := by
  refine ⟨((distinct_iff labHost membersGenerated labAdmin).1 ProjectTables _ _ rfl).mpr
    (.inr (.inr (by decide +kernel))), ?_⟩
  refine ((distinct_iff labHost membersGenerated labAdmin).2.1 _ _ _ (by decide +kernel)).mpr
    (.inr ⟨fun hother => ?_, fun _ => ⟨fun emails hemails => ?_, fun hnone => by cases hnone⟩⟩)
  · obtain ⟨id, q, hid, hq, -⟩ := hother
    have hmem : q ∈ [labProject] := (Table.get_eq_some.mp hq).1
    refine absurd ((Table.get_eq_some.mp hq).2.symm.trans ?_) hid
    rw [List.mem_singleton.mp hmem]
  · cases hemails
    decide +kernel

theorem canName_carl : CanName labHost membersGenerated
    (memberEmails (projectOf ["carl@lab.org", "carl@lab.org"]))
    (labDb .sql ProjectTables.empty) := by
  refine eq_ok_of_isOk ?_
  decide +kernel

/-- Carl is named twice. SQL says that the project's name is taken, and MongoDB stores him
twice; an update in SQL fails, with the app token of a member deleted. -/
theorem carl_twice :
    (¬ CreatesDistinct labHost (labDb .sql ProjectTables.empty)
        (projectOf ["carl@lab.org", "carl@lab.org"])
        ((createProject labHost membersGenerated (projectOf ["carl@lab.org", "carl@lab.org"])
          labAdmin).run (exec labHost) (labDb .sql ProjectTables.empty))) ∧
      (KeyedStore.get ((createProject labHost membersGenerated
          (projectOf ["carl@lab.org", "carl@lab.org"]) labAdmin).run (exec labHost)
            (labDb .mongodb (Table.empty : ProjectDocuments))).2.projects membersGenerated.id).map
          (·.userIds) = some ["carl@lab.org", "carl@lab.org", "admin@lab.org"] ∧
      ((updateProject labHost membersGenerated labProject
          (membersUpdate ["carl@lab.org", "carl@lab.org"]) labAdmin).run (exec labHost)
            (tokenDb .sql labTables)).1.isOk = false ∧
      ((updateProject labHost membersGenerated labProject
          (membersUpdate ["carl@lab.org", "carl@lab.org"]) labAdmin).run (exec labHost)
            (tokenDb .sql labTables)).2.appTokens.rows = [] := by
  have hrepeated : ¬ ((projectOf ["carl@lab.org", "carl@lab.org"]).userEmails.map
      labHost.lower).Nodup := by decide +kernel
  refine ⟨fun hcreates => ?_, by decide +kernel, by decide +kernel, by decide +kernel⟩
  rcases (createsDistinct_iff rfl).mp hcreates with hcannot | ⟨id, q, hq, -⟩ | hnodup
  · exact hcannot canName_carl
  · cases hq
  · exact hrepeated hnodup

end Mss
