import Mss.DeletedProjects
import Mss.NamedUsers
import Mss.PendingRequests

/-!
# A failed approval can be retried

An approval does what the request asks for before it records its decision, so that one that fails
leaves the request pending. Approving it again does the action again, from wherever the first left
it. That has the outcome of one approval exactly if the action may be repeated, or the first
approval failed before it changed a project and the users it created for the project's emails are
found again.

* `SameOutcome`: two calls succeed alike and leave the same projects and deleted projects.
* `CanRetry`: the request is pending, and approving it has the outcome of one undisturbed approval.
* `changesProject`: an operation that took effect on a project.
* `stops_oneUpdate`, `stops_closeProject`, `stops_createProject`: where the actions stop.
* `sameOutcome_createProject_lost`: where the users created are not found.
* **`canRetry_iff`**: when a failed approval can be retried. `seconds_added_twice`: one that cannot.
-/

namespace Mss

open Atomic Storage Prog

variable {h : Host} {P : Type} [ProjectStore P]

/-! ## What a retry should do -/

/-- **The two calls have the same outcome**: they succeed alike, and leave the same projects, with
their balances and members, and the same deleted projects. -/
structure SameOutcome {α β : Type} (x : Except Exc α × Db P) (y : Except Exc β × Db P) : Prop where
  succeeds : x.1.isOk = y.1.isOk
  projects : ∀ id, KeyedStore.get x.2.projects id = KeyedStore.get y.2.projects id
  deletedProjects : ∀ id, x.2.deletedProjects.get id = y.2.deletedProjects.get id

variable (h) in
/-- **The failed approval can be retried**: the request is as it was, pending, and any later
approval of it by a target user has the outcome of one undisturbed approval, the ids of the users
created before aside. -/
structure CanRetry (r : Request) (db db' : Db P) : Prop where
  pending : db'.requests.get r.id = some r
  retried : ∀ (g : Generated) (payload : RequestUpdate) (user : User),
    user.id ∈ r.targetUserIds → payload.newStatus = some .approved →
      SameOutcome ((update h g r.id payload user).run (exec h) db')
        ((update h (g.reusing (usersSince db db')) r.id payload user).run (exec h) db)

/-- The types of requests whose action may be done twice: it sets what it sets to one value. -/
def RequestType.isRepeatable : RequestType → Bool
  | .transferProject | .projectPulseAccess | .projectAccess => true
  | _ => false

namespace SameOutcome

variable {α β γ : Type} {x : Except Exc α × Db P} {y : Except Exc β × Db P}
  {z : Except Exc γ × Db P}

theorem refl (x : Except Exc α × Db P) : SameOutcome x x := ⟨rfl, fun _ => rfl, fun _ => rfl⟩

theorem symm (hxy : SameOutcome x y) : SameOutcome y x :=
  ⟨hxy.succeeds.symm, fun id => (hxy.projects id).symm, fun id => (hxy.deletedProjects id).symm⟩

theorem trans (hxy : SameOutcome x y) (hyz : SameOutcome y z) : SameOutcome x z :=
  ⟨hxy.succeeds.trans hyz.succeeds, fun id => (hxy.projects id).trans (hyz.projects id),
    fun id => (hxy.deletedProjects id).trans (hyz.deletedProjects id)⟩

theorem tryCatch {p : Service α} {f : Exc → Service α} (hf : ∀ e, ∃ e', f e = .raise e')
    (db : Db P) : SameOutcome ((tryCatch p f).run (exec h) db) (p.run (exec h) db) := by
  rw [run_tryCatch]
  rcases p.run (exec h) db with ⟨res, db'⟩
  cases res with
  | ok a => exact refl _
  | error e =>
    obtain ⟨e', he'⟩ := hf e
    simp only [he', run_raise]
    exact ⟨rfl, fun _ => rfl, fun _ => rfl⟩

theorem discard (p : Service α) (b : β) (db : Db P) :
    SameOutcome ((p >>= fun _ => Prog.ret b).run (exec h) db) (p.run (exec h) db) := by
  rw [run_bind]
  rcases p.run (exec h) db with ⟨res, db'⟩
  cases res <;> exact ⟨rfl, fun _ => rfl, fun _ => rfl⟩

end SameOutcome

/-! ## The approval and its action -/

section Approval

variable {g : Generated} {payload : RequestUpdate} {user : User} {db db' : Db P} {r : Request}
  {es : List (Event Resp)}

theorem raises_exceptionGroup (e : Exc) : ∃ e', (throw (.exceptionGroup "errors doing bulk action"
    [e]) : Service Unit) = .raise e' := ⟨_, rfl⟩

/-- **An approval has the outcome of its action.** -/
theorem sameOutcome_update (hr : db.requests.get r.id = some r) (hstatus : r.status = some .pending)
    (huser : user.id ∈ r.targetUserIds) (happroves : payload.newStatus = some .approved) :
    SameOutcome ((update h g r.id payload user).run (exec h) db)
      ((doAction h g r user).run (exec h) db) := by
  refine SameOutcome.trans ?_ (SameOutcome.tryCatch raises_exceptionGroup db)
  change SameOutcome _ ((doManyActions h g r user).run (exec h) db)
  have hfound : exec h (.findPendingRequest r.id user.id) db = (some r, db) :=
    Prod.ext (findPendingRequest_eq_some.mpr ⟨hr, huser, hstatus⟩) rfl
  have hact : actIfApproved h g payload r user = doManyActions h g r user := if_pos happroves
  have hdecides : payload.isDecision = true := by simp [RequestUpdate.isDecision, happroves]
  rcases hrun : (doManyActions h g r user).run (exec h) db with ⟨res, db₁⟩
  cases res with
  | error e =>
    have hupdate : (update h g r.id payload user).run (exec h) db = (.error e, db₁) := by
      rw [update_eq, perform_bind, run_call, hfound, run_bind, hact, hrun]
    rw [hupdate]
    exact ⟨rfl, fun _ => rfl, fun _ => rfl⟩
  | ok _ =>
    have hupdate : (update h g r.id payload user).run (exec h) db =
        (do
          let decided ← recordDecision r user payload
          tellDecision payload decided
          return decided : Service Request).run (exec h) db₁ := by
      rw [update_eq, perform_bind, run_call, hfound, run_bind, hact, hrun]
    have hacts : ((actIfApproved h g payload r user).run (exec h) db).1.isOk = true := by
      rw [hact, hrun]
      rfl
    rcases run_update_decision hr huser hstatus hdecides hacts with ⟨decided, db₂, hok, -, -⟩
    have hkept : ((update h g r.id payload user).run (exec h) db).2.projects = db₁.projects ∧
        ((update h g r.id payload user).run (exec h) db).2.deletedProjects =
          db₁.deletedProjects := by
      rw [hupdate]
      refine run_invariant (I := fun db : Db P => db.projects = db₁.projects ∧
        db.deletedProjects = db₁.deletedProjects) ?_ ⟨rfl, rfl⟩
      have hother : ∀ o : Op, o.writes ≠ some .projects → o.writes ≠ some .deletedProjects →
          ∀ db : Db P, db.projects = db₁.projects ∧ db.deletedProjects = db₁.deletedProjects →
          (exec h o db).2.projects = db₁.projects ∧
            (exec h o db).2.deletedProjects = db₁.deletedProjects :=
        fun o ho ho' db hdb => ⟨(exec_projects ho).trans hdb.1,
          (exec_deletedProjects ho').trans hdb.2⟩
      refine calls_bind (calls_recordDecision (hother _ (by simp [Op.writes])
        (by simp [Op.writes]))) fun decided => calls_bind (calls_tellDecision (fun _ => ?_)
          (fun _ _ => ?_) _ _) fun _ => trivial
      · exact hother _ (by simp [Op.writes]) (by simp [Op.writes])
      · exact hother _ (by simp [Op.writes]) (by simp [Op.writes])
    refine ⟨?_, fun id => by rw [hkept.1], fun id => by rw [hkept.2]⟩
    rw [hok]
    rfl

/-- **An approval that stops before its decision is recorded** stops in its action, or at the end
of it. -/
theorem stops_update (hr : db.requests.get r.id = some r) (hstatus : r.status = some .pending)
    (huser : user.id ∈ r.targetUserIds) (happroves : payload.newStatus = some .approved)
    (hstop : Stops (exec h) (Torn h) (update h g r.id payload user) db es db')
    (hundecided : ∀ e ∈ es, e.1.writes ≠ some .requests) :
    ∃ es', Stops (exec h) (Torn h) (doAction h g r user) db es' db' ∧
      ((∃ e ∈ es, changesProject e = true) ↔ ∃ e ∈ es', changesProject e = true) := by
  have hfound : exec h (.findPendingRequest r.id user.id) db = (some r, db) :=
    Prod.ext (findPendingRequest_eq_some.mpr ⟨hr, huser, hstatus⟩) rfl
  have hact : actIfApproved h g payload r user = doManyActions h g r user := if_pos happroves
  rw [update_eq] at hstop
  rcases stops_call hstop with ⟨rfl, rfl | htorn⟩ | ⟨es₀, rfl, hrest⟩
  · exact ⟨[], .here, Iff.rfl⟩
  · exact htorn.elim
  · rw [hfound] at hrest
    change Stops (exec h) (Torn h) (actIfApproved h g payload r user >>= _) db es₀ db' at hrest
    rw [hact] at hrest
    have hhead : ∀ es', (∃ e ∈ (⟨.findPendingRequest r.id user.id, (exec h
        (.findPendingRequest r.id user.id) db).1⟩ : Event Resp) :: es', changesProject e = true) ↔
          ∃ e ∈ es', changesProject e = true := by
      intro es'
      simp [changesProject]
    rcases stops_bind hrest with hfirst | ⟨_, db₁, es₁, es₂, -, hfirst, rfl, hsecond⟩
    · exact ⟨es₀, stops_tryCatch raises_exceptionGroup hfirst, hhead es₀⟩
    · -- the next operation records the decision
      rcases stops_call hsecond with ⟨rfl, rfl | htorn⟩ | ⟨es₃, rfl, -⟩
      · refine ⟨es₁, stops_tryCatch raises_exceptionGroup hfirst, ?_⟩
        rw [List.append_nil]
        exact hhead es₁
      · exact htorn.elim
      · exact absurd rfl (hundecided ⟨.updateRequest r.id (payload.changes user), _⟩
          (List.mem_cons_of_mem _ (List.mem_append_right es₁ List.mem_cons_self)))

end Approval

/-! ## Reading the project acted on -/

section Acted

variable {db db' : Db P} {es : List (Event Resp)} {projectId : Id} {p : Project}
  {f : Project → Service Unit}

theorem run_getActedProject (hp : KeyedStore.get db.projects projectId = some p) :
    (getActedProject projectId >>= f).run (exec h) db = (f p).run (exec h) db := by
  have hget : exec h (.getProject projectId) db = (some p, db) := Prod.ext hp rfl
  rw [getActedProject_eq, Prog.bind_assoc, perform_bind, run_call, hget]
  rfl

theorem run_getActedProject_missing (hp : KeyedStore.get db.projects projectId = none) :
    (getActedProject projectId >>= f).run (exec h) db =
      (.error (.notFound ("project " ++ projectId ++ " not found")), db) := by
  have hget : exec h (.getProject projectId) db = (none, db) := Prod.ext hp rfl
  rw [getActedProject_eq, Prog.bind_assoc, perform_bind, run_call, hget]
  rfl

theorem stops_getActedProject
    (hstop : Stops (exec h) (Torn h) (getActedProject projectId >>= f) db es db') :
    (db' = db ∧ ∀ e ∈ es, changesProject e = false) ∨
    ∃ p e es₀, KeyedStore.get db.projects projectId = some p ∧ es = e :: es₀ ∧
      changesProject e = false ∧ Stops (exec h) (Torn h) (f p) db es₀ db' := by
  rw [getActedProject_eq, Prog.bind_assoc] at hstop
  rcases stops_call hstop with ⟨rfl, rfl | htorn⟩ | ⟨es₀, rfl, hrest⟩
  · exact .inl ⟨rfl, fun _ he => absurd he List.not_mem_nil⟩
  · exact htorn.elim
  cases hp : KeyedStore.get db.projects projectId with
  | none =>
    have hget : exec h (.getProject projectId) db = (none, db) := Prod.ext hp rfl
    rw [hget] at hrest
    obtain ⟨rfl, rfl⟩ := stops_raise hrest
    refine .inl ⟨rfl, fun e he => ?_⟩
    rw [List.mem_singleton.mp he]
    rfl
  | some p =>
    have hget : exec h (.getProject projectId) db = (some p, db) := Prod.ext hp rfl
    rw [hget] at hrest
    exact .inr ⟨p, _, es₀, rfl, rfl, rfl, hrest⟩

end Acted

/-! ## The actions that update the project once -/

section OneUpdate

variable {db db' : Db P} {es : List (Event Resp)} {projectId : Id} {p : Project}
  {u : ProjectChanges} {reads : Service ProjectChanges}

/-- Read the project and what is to change, and update the project. -/
def oneUpdate (projectId : Id) (reads : Service ProjectChanges) : Service Unit := do
  let project ← getActedProject projectId
  let u ← reads
  let _ ← ofExcept (← call (.updateProject project.id u))

variable (h) in
/-- What the action of a request changes of its project, once it has read what it needs; nothing
where the action is another. -/
def actionChanges (request : Request) : Service ProjectChanges :=
  match request.metadata with
  | .transferProject adminEmail => do
    let emailIdMap ← getKnownEmailIdMap h [adminEmail]
    let adminId ← ofExcept (emailIdMap.get adminEmail)
    return { adminId := some adminId, userIds := some (.addToSet adminId) }
  | .projectQpuSeconds seconds => return { qpuSeconds := some (.inc seconds.1) }
  | .projectPulseAccess => return { isPulseAllowed := some true }
  | .projectAccess => return { userIds := some (.addToSet request.requesterId) }
  | _ => return {}

theorem doAction_eq_oneUpdate {r : Request} (hcreate : r.type ≠ .createProject)
    (hclose : r.type ≠ .closeProject) (g : Generated) (user : User) :
    doAction h g r user = oneUpdate r.resourceId (actionChanges h r) := by
  unfold doAction actionChanges oneUpdate
  cases hmetadata : r.metadata with
  | createProject _ _ _ _ _ => exact absurd (congrArg RequestMetadata.type hmetadata) hcreate
  | closeProject => exact absurd (congrArg RequestMetadata.type hmetadata) hclose
  | transferProject adminEmail =>
    simp only [Prog.bind_assoc]
    rfl
  | projectQpuSeconds seconds => rfl
  | projectPulseAccess => rfl
  | projectAccess => rfl

theorem calls_actionChanges (request : Request) :
    (actionChanges h request).Calls fun o => ∃ emails, o = .findUsersByEmail emails := by
  unfold actionChanges
  split
  · refine calls_bind ?_ fun d => calls_bind (calls_ofExcept _) fun _ => trivial
    refine calls_bind ((calls_perform _).mpr ⟨_, rfl⟩) fun users => ?_
    dsimp only
    split_ifs
    · trivial
    · exact calls_bind (calls_ofExcept _) fun _ => trivial
  all_goals trivial

theorem writes_of_changesProject {e : Event Resp} (he : changesProject e = true) :
    e.1.writes = some .projects := by
  obtain ⟨o, r⟩ := e
  cases o <;> first | rfl | cases he

theorem run_actionChanges_snd (request : Request) (db : Db P) :
    ((actionChanges h request).run (exec h) db).2 = db := by
  refine run_invariant (I := (· = db)) ((calls_actionChanges request).mono ?_) rfl
  rintro _ ⟨emails, rfl⟩ _ rfl
  rfl

theorem run_actionChanges_congr {request : Request} (husers : db'.users = db.users)
    (hbackend : db'.backend = db.backend) :
    ((actionChanges h request).run (exec h) db').1 =
      ((actionChanges h request).run (exec h) db).1 := by
  refine (run_congr (R := fun s t : Db P => s.users = t.users ∧ s.backend = t.backend)
    ((calls_actionChanges request).mono ?_) ⟨husers, hbackend⟩).1
  rintro _ ⟨emails, rfl⟩ s t ⟨hst, hbackend⟩
  refine ⟨?_, hst, hbackend⟩
  simp only [exec, hst, hbackend]

theorem stops_actionChanges {request : Request}
    (hstop : Stops (exec h) (Torn h) (actionChanges h request) db es db') :
    db' = db ∧ ∀ e ∈ es, changesProject e = false := by
  constructor
  · refine stops_invariant (I := (· = db)) ((calls_actionChanges request).mono ?_) rfl hstop
    rintro _ ⟨emails, rfl⟩
    exact ⟨by rintro _ rfl; rfl, fun _ _ _ htorn => htorn.elim⟩
  · intro e he
    obtain ⟨emails, ho⟩ := stops_events (calls_actionChanges request) hstop e he
    rw [← Bool.not_eq_true]
    intro hchanges
    have hwrites := writes_of_changesProject hchanges
    rw [ho] at hwrites
    cases hwrites

theorem run_oneUpdate (hp : KeyedStore.get db.projects projectId = some p)
    (hreads : reads.run (exec h) db = (.ok u, db)) :
    (oneUpdate projectId reads).run (exec h) db =
      ((exec h (.updateProject projectId u) db).1.map fun _ => (),
        (exec h (.updateProject projectId u) db).2) := by
  have hid : p.id = projectId := KeyedStore.key_of_get hp
  rw [oneUpdate, run_getActedProject hp]
  rw [run_bind, hreads, hid]
  change ((ofExcept (exec h (.updateProject projectId u) db).1 >>= fun _ => Prog.ret ()).run
    (exec h) _) = _
  cases (exec h (.updateProject projectId u) db).1 <;> rfl

/-- **Where one update of a project stops**: before it takes effect, or after. -/
theorem stops_oneUpdate {request : Request} (hstop : Stops (exec h) (Torn h)
      (oneUpdate projectId (actionChanges h request)) db es db') :
    (db' = db ∧ ∀ e ∈ es, changesProject e = false) ∨
    ∃ p u projects, KeyedStore.get db.projects projectId = some p ∧
      (actionChanges h request).run (exec h) db = (.ok u, db) ∧
      KeyedStore.update db.projects projectId u = some projects ∧
      db' = { db with projects } ∧ ∃ e ∈ es, changesProject e = true := by
  rw [oneUpdate] at hstop
  rcases stops_getActedProject hstop with hbefore | ⟨p, first, es₀, hp, rfl, hfirst, hrest⟩
  · exact .inl hbefore
  have hid : p.id = projectId := KeyedStore.key_of_get hp
  rcases stops_bind hrest with hreading | ⟨u, db₁, es₁, es₂, hrun, hreading, rfl, hupdating⟩
  · obtain ⟨rfl, hsilent⟩ := stops_actionChanges hreading
    exact .inl ⟨rfl, List.forall_mem_cons.mpr ⟨hfirst, hsilent⟩⟩
  obtain ⟨rfl, hsilent⟩ := stops_actionChanges hreading
  rcases stops_call hupdating with ⟨rfl, rfl | htorn⟩ | ⟨es₃, rfl, hdone⟩
  · rw [List.append_nil]
    exact .inl ⟨rfl, List.forall_mem_cons.mpr ⟨hfirst, hsilent⟩⟩
  · exact htorn.elim
  · obtain ⟨rfl, rfl⟩ := stops_of_calls_nothing
      (calls_bind (calls_ofExcept _) fun _ => calls_ret _) hdone
    rw [hid]
    rcases exec_updateProject (h := h) projectId u db₁ with
      ⟨hnone, -⟩ | ⟨q, -, ⟨projects, hu, he⟩ | ⟨-, he⟩⟩
    · rw [hnone] at hp
      cases hp
    · refine .inr ⟨p, u, projects, hp, hrun, hu, by rw [he], _,
        List.mem_cons_of_mem _ (List.mem_append_right _ List.mem_cons_self), ?_⟩
      rw [he]
      rfl
    · refine .inl ⟨by rw [he], List.forall_mem_cons.mpr ⟨hfirst, ?_⟩⟩
      refine List.forall_mem_append.mpr ⟨hsilent, fun e hmem => ?_⟩
      rw [List.mem_singleton.mp hmem, he]
      rfl

theorem apply_actionChanges {request : Request} (hrepeatable : request.type.isRepeatable = true)
    (hu : (actionChanges h request).run (exec h) db = (.ok u, db)) (p : Project) :
    (p.apply u).apply u = p.apply u := by
  have hadds : ∀ (x : Id) (l : List Id),
      ListChange.apply (.addToSet x) (ListChange.apply (.addToSet x) l) =
        ListChange.apply (.addToSet x) l := by
    intro x l
    by_cases hx : x ∈ l <;> simp [ListChange.apply, hx]
  unfold actionChanges at hu
  cases hmetadata : request.metadata with
  | transferProject adminEmail =>
    rw [hmetadata] at hu
    simp only [run_bind] at hu
    rcases hnamed : (getKnownEmailIdMap h [adminEmail]).run (exec h) db with ⟨res, db₁⟩
    rw [hnamed] at hu
    cases res with
    | error e => cases hu
    | ok d =>
      simp only at hu
      cases hd : d.get adminEmail with
      | error e =>
        rw [hd] at hu
        cases hu
      | ok adminId =>
        rw [hd] at hu
        cases hu
        simp [Project.apply, hadds]
  | projectPulseAccess =>
    rw [hmetadata] at hu
    cases hu
    simp [Project.apply]
  | projectAccess =>
    rw [hmetadata] at hu
    cases hu
    simp [Project.apply, hadds]
  | _ => simp [Request.type, hmetadata, RequestMetadata.type, RequestType.isRepeatable] at hrepeatable

theorem run_actionChanges_updated {request : Request}
    (hreads : (actionChanges h request).run (exec h) db = (.ok u, db)) (projects : P) :
    (actionChanges h request).run (exec h) { db with projects } =
      (.ok u, { db with projects }) := by
  have hread : ((actionChanges h request).run (exec h) db).1 = .ok u := by rw [hreads]
  refine Prod.ext (Eq.trans ?_ hread) (run_actionChanges_snd request _)
  exact run_actionChanges_congr rfl rfl

theorem get_updated {projects : P} (hp : KeyedStore.get db.projects projectId = some p)
    (hu : KeyedStore.update db.projects projectId u = some projects) :
    KeyedStore.get projects projectId = some (p.apply u) := by
  rw [KeyedStore.get_update hu, if_pos rfl, hp, Option.map_some]

theorem update_again {projects : P} (hp : KeyedStore.get db.projects projectId = some p)
    (hu : KeyedStore.update db.projects projectId u = some projects)
    (hagain : (p.apply u).apply u = p.apply u) :
    ∃ projects', KeyedStore.update projects projectId u = some projects' ∧
      ∀ id, KeyedStore.get projects' id = KeyedStore.get projects id := by
  have hget := get_updated hp hu
  cases hupdate : KeyedStore.update projects projectId u with
  | none =>
    exfalso
    obtain ⟨q, hq, hrefused⟩ := KeyedStore.update_eq_none.mp hupdate
    rw [hget, Option.some.injEq] at hq
    subst hq
    rw [hagain] at hrefused
    rcases hrefused with hstorable | ⟨k, q, hk, hq, hclash⟩
    · exact hstorable (KeyedStore.storable_of_get hget)
    · rw [KeyedStore.get_update hu, if_neg hk] at hq
      have hnone : KeyedStore.update db.projects projectId u = none :=
        KeyedStore.update_eq_none.mpr ⟨p, hp, .inr ⟨k, q, hk, hq, hclash⟩⟩
      rw [hu] at hnone
      cases hnone
  | some projects' =>
    refine ⟨projects', rfl, fun id => ?_⟩
    rw [KeyedStore.get_update hupdate]
    split_ifs with hid
    · rw [hid, hget, Option.map_some, hagain]
    · rfl

theorem exec_updateProject_of_update {projects : P}
    (hp : KeyedStore.get db.projects projectId = some p)
    (hu : KeyedStore.update db.projects projectId u = some projects) :
    exec h (.updateProject projectId u) db = (.ok (some (p.apply u)), { db with projects }) := by
  simp only [exec, hp, hu]

/-- **A repeatable action may be done again** after it took effect. -/
theorem sameOutcome_repeated {request : Request} {projects : P}
    (hrepeatable : request.type.isRepeatable = true)
    (hp : KeyedStore.get db.projects projectId = some p)
    (hreads : (actionChanges h request).run (exec h) db = (.ok u, db))
    (hu : KeyedStore.update db.projects projectId u = some projects) :
    SameOutcome
      ((oneUpdate projectId (actionChanges h request)).run (exec h) { db with projects })
      ((oneUpdate projectId (actionChanges h request)).run (exec h) db) := by
  have hreads' := run_actionChanges_updated hreads projects
  have hget := get_updated hp hu
  obtain ⟨projects', hu', hsame⟩ := update_again hp hu (apply_actionChanges hrepeatable hreads p)
  have hget' : KeyedStore.get ({ db with projects } : Db P).projects projectId = _ := hget
  rw [run_oneUpdate hp hreads, run_oneUpdate hget' hreads', exec_updateProject_of_update hp hu,
    exec_updateProject_of_update hget' hu']
  exact ⟨rfl, hsame, fun _ => rfl⟩

/-- **Seconds may not be added again** after they were. -/
theorem not_sameOutcome_seconds {request : Request} {seconds : {s : ℚ // 0 < s}} {projects : P}
    (hmetadata : request.metadata = .projectQpuSeconds seconds)
    (hp : KeyedStore.get db.projects projectId = some p)
    (hreads : (actionChanges h request).run (exec h) db = (.ok u, db))
    (hu : KeyedStore.update db.projects projectId u = some projects) :
    ¬ SameOutcome
      ((oneUpdate projectId (actionChanges h request)).run (exec h) { db with projects })
      ((oneUpdate projectId (actionChanges h request)).run (exec h) db) := by
  have hseconds : u = { qpuSeconds := some (.inc seconds.1) } := by
    unfold actionChanges at hreads
    rw [hmetadata] at hreads
    cases hreads
    rfl
  have hreads' := run_actionChanges_updated hreads projects
  have hget := get_updated hp hu
  have hget' : KeyedStore.get ({ db with projects } : Db P).projects projectId = _ := hget
  rw [run_oneUpdate hp hreads, run_oneUpdate hget' hreads', exec_updateProject_of_update hp hu]
  intro hsame
  rcases exec_updateProject (h := h) projectId u { db with projects } with
    ⟨hnone, -⟩ | ⟨q, hq, ⟨projects', hu', he⟩ | ⟨-, he⟩⟩
  · rw [hget'] at hnone
    cases hnone
  · rw [hget', Option.some.injEq] at hq
    subst hq
    have htwice := hsame.projects projectId
    rw [he] at htwice
    change KeyedStore.get projects' projectId = KeyedStore.get projects projectId at htwice
    rw [get_updated hget' hu', hget, Option.some.injEq] at htwice
    have hbalance := congrArg Project.qpuSeconds htwice
    subst hseconds
    simp only [Project.apply, NumberChange.apply, Option.map_some, Option.getD_some,
      add_eq_left] at hbalance
    exact absurd hbalance seconds.2.ne'
  · have hok := hsame.succeeds
    rw [he] at hok
    cases hok

end OneUpdate

/-! ## Closing a project -/

section Close

variable {g : Generated} {db db' : Db P} {r : Request} {p : Project} {es : List (Event Resp)}

theorem run_closeProject_missing (hp : KeyedStore.get db.projects r.resourceId = none) :
    (closeProject g r).run (exec h) db =
      (.error (.notFound ("project " ++ r.resourceId ++ " not found")), db) :=
  run_getActedProject_missing hp

theorem run_closeProject (hp : KeyedStore.get db.projects r.resourceId = some p) :
    (closeProject g r).run (exec h) db =
      exec h (.insertDeletedProject (.ofProject p g.now)) (afterRemoval p db) := by
  rw [closeProject, run_getActedProject hp]
  exact deleteProject_run (by simp [isRefused])

theorem sameOutcome_closeProject (hprojects : db'.projects = db.projects)
    (hcopies : db'.deletedProjects = db.deletedProjects) :
    SameOutcome ((closeProject g r).run (exec h) db') ((closeProject g r).run (exec h) db) := by
  cases hp : KeyedStore.get db.projects r.resourceId with
  | none =>
    rw [run_closeProject_missing hp, run_closeProject_missing (by rw [hprojects, hp])]
    exact ⟨rfl, fun _ => by rw [hprojects], fun _ => by rw [hcopies]⟩
  | some p =>
    have hp' : KeyedStore.get db'.projects r.resourceId = some p := by rw [hprojects, hp]
    rw [run_closeProject hp, run_closeProject hp']
    simp only [exec, afterRemoval, hprojects, hcopies]
    cases db.deletedProjects.insert? (fun _ _ => False) (.ofProject p g.now) <;>
      exact ⟨rfl, fun _ => rfl, fun _ => rfl⟩

theorem run_closeProject_copied (hp : KeyedStore.get db.projects r.resourceId = some p)
    (hcopy : db.deletedProjects.get r.resourceId ≠ none) :
    (closeProject g r).run (exec h) db = (.error .duplicateKey, afterRemoval p db) := by
  have hid : p.id = r.resourceId := KeyedStore.key_of_get hp
  rw [run_closeProject hp]
  rcases exec_insertDeletedProject (h := h) (.ofProject p g.now) (afterRemoval p db) with
    ⟨hnone, -⟩ | ⟨-, he⟩
  · exfalso
    refine hcopy ?_
    rw [← hid]
    exact hnone
  · exact he

theorem stops_deleteProject (hp : KeyedStore.get db.projects p.id = some p)
    (hstop : Stops (exec h) (Torn h) (deleteProject g p true) db es db') :
    (db'.projects = db.projects ∧ db'.deletedProjects = db.deletedProjects ∧
      ∀ e ∈ es, changesProject e = false) ∨
    db'.projects = KeyedStore.erase db.projects p.id ∧
      (db.deletedProjects.get p.id ≠ none → db'.deletedProjects = db.deletedProjects) ∧
      ∃ e ∈ es, changesProject e = true := by
  have hdelete : deleteProject g p true = call (.deleteAppTokens { projectId := p.id }) >>=
      fun _ => call (.deleteProject p.id) >>= fun _ =>
        call (.insertDeletedProject (.ofProject p g.now)) >>= ofExcept := by
    simp [deleteProject, deleteProjectTokens]
  rw [hdelete] at hstop
  rcases stops_call hstop with ⟨rfl, rfl | ⟨-, _, rfl⟩⟩ | ⟨es₁, rfl, hdeleting⟩
  · exact .inl ⟨rfl, rfl, fun _ he => absurd he List.not_mem_nil⟩
  · exact .inl ⟨rfl, rfl, fun _ he => absurd he List.not_mem_nil⟩
  rcases stops_call hdeleting with ⟨rfl, rfl | htorn⟩ | ⟨es₂, rfl, hcopying⟩
  · refine .inl ⟨rfl, rfl, fun e he => ?_⟩
    rw [List.mem_singleton.mp he]
    rfl
  · exact htorn.elim
  -- the project is deleted, and only its copy is to come
  have hanswer : (exec h (.deleteProject p.id)
      (exec h (.deleteAppTokens { projectId := p.id }) db).2).1 = some p := hp
  have hafter : (exec h (.deleteProject p.id)
      (exec h (.deleteAppTokens { projectId := p.id }) db).2).2 = afterRemoval p db := rfl
  rw [hafter] at hcopying
  refine .inr ((and_assoc.mp ⟨?_, ⟨.deleteProject p.id, _⟩,
    List.mem_cons_of_mem _ List.mem_cons_self, by rw [hanswer]; rfl⟩))
  rcases stops_call hcopying with ⟨rfl, rfl | htorn⟩ | ⟨es₃, rfl, hdone⟩
  · exact ⟨rfl, fun _ => rfl⟩
  · exact htorn.elim
  · obtain ⟨rfl, rfl⟩ := stops_of_calls_nothing (calls_ofExcept _) hdone
    refine ⟨exec_projects (by simp [Op.writes]), fun hcopy => ?_⟩
    rcases exec_insertDeletedProject (h := h) (.ofProject p g.now) (afterRemoval p db) with
      ⟨hnone, -⟩ | ⟨-, he⟩
    · exact absurd hnone hcopy
    · rw [he]
      rfl

/-- **Where closing a project stops**: before the project is deleted, or after. -/
theorem stops_closeProject (hstop : Stops (exec h) (Torn h) (closeProject g r) db es db') :
    (db'.projects = db.projects ∧ db'.deletedProjects = db.deletedProjects ∧
      ∀ e ∈ es, changesProject e = false) ∨
    ∃ p, KeyedStore.get db.projects r.resourceId = some p ∧
      db'.projects = KeyedStore.erase db.projects r.resourceId ∧
      (db.deletedProjects.get r.resourceId ≠ none →
        db'.deletedProjects = db.deletedProjects) ∧
      ∃ e ∈ es, changesProject e = true := by
  rcases stops_getActedProject hstop with ⟨rfl, hsilent⟩ | ⟨p, first, es₀, hp, rfl, hfirst, hrest⟩
  · exact .inl ⟨rfl, rfl, hsilent⟩
  have hid : p.id = r.resourceId := KeyedStore.key_of_get hp
  rcases stops_deleteProject (hid ▸ hp) hrest with
    ⟨hprojects, hcopies, hsilent⟩ | ⟨hprojects, hcopies, e, he, hchanges⟩
  · exact .inl ⟨hprojects, hcopies, List.forall_mem_cons.mpr ⟨hfirst, hsilent⟩⟩
  · rw [hid] at hprojects hcopies
    exact .inr ⟨p, hp, hprojects, hcopies, e, List.mem_cons_of_mem _ he, hchanges⟩

end Close

/-! ## Creating a project -/

section Create

variable {g : Generated} {payload : ProjectCreate} {actor : User} {db db' : Db P}
  {es : List (Event Resp)}

/-- The emails of the members of a project to be created. -/
def memberEmails (payload : ProjectCreate) : List String :=
  payload.userEmails ++ [payload.adminEmail]

theorem memberEmails_ne_nil (payload : ProjectCreate) : memberEmails payload ≠ [] := by
  simp [memberEmails]

/-- The project to be created, once its members are named. -/
def newProject (g : Generated) (payload : ProjectCreate) (adminId : Id) (userIds : List Id) :
    Project :=
  { id := g.id, name := payload.name, qpuSeconds := payload.qpuSeconds,
    description := payload.description, isPulseAllowed := payload.isPulseAllowed,
    userIds := withAdmin userIds adminId, adminId, createdAt := g.now, updatedAt := g.now }

/-- Create the project once its members are named. -/
def createNamed (g : Generated) (payload : ProjectCreate) (actor : User) (emailIdMap : Dict Id) :
    Service Project := do
  let adminId ← ofExcept (emailIdMap.get payload.adminEmail)
  let userIds ← ofExcept (payload.userEmails.mapM emailIdMap.get)
  let project := newProject g payload adminId userIds
  insertProject project
  notifyMembershipChange none (some project) actor
  return project

theorem createProject_eq (g : Generated) (payload : ProjectCreate) (actor : User) :
    createProject h g payload actor =
      getUserEmailIdMap h g (memberEmails payload) >>= createNamed g payload actor := rfl

theorem run_getUserEmailIdMap_keeps (g : Generated) (emails : List String) (db : Db P) :
    ((getUserEmailIdMap h g emails).run (exec h) db).2.projects = db.projects := by
  refine run_invariant (I := fun db' : Db P => db'.projects = db.projects) ?_ rfl
  refine calls_getUserEmailIdMap (fun o ho db' hdb' => ?_) emails
  rw [exec_projects (Op.writes_of_isMembership o ho), hdb']

variable (h g actor) in
theorem run_createNamed_insert {emailIdMap : Dict Id} {adminId : Id} {userIds : List Id}
    (hadmin : emailIdMap.get payload.adminEmail = .ok adminId)
    (husers : payload.userEmails.mapM emailIdMap.get = .ok userIds) (db : Db P) :
    (KeyedStore.insert db.projects (newProject g payload adminId userIds) = none ∧
      ∃ e, (createNamed g payload actor emailIdMap).run (exec h) db = (.error e, db)) ∨
    ((∃ projects, KeyedStore.insert db.projects (newProject g payload adminId userIds) =
        some projects) ∧
      ((createNamed g payload actor emailIdMap).run (exec h) db).1.isOk = true) := by
  unfold createNamed
  rw [hadmin, husers]
  rcases exec_insertProject h (newProject g payload adminId userIds) db with
    ⟨projects, hinsert, he⟩ | ⟨hinsert, he⟩
  · refine .inr ⟨⟨projects, hinsert⟩, ?_⟩
    simp only [ofExcept_ok, ret_bind, insertProject, perform_bind, call_bind, run_call, he]
    have hreturns : (notifyMembershipChange none (some (newProject g payload adminId
        userIds)) actor >>= fun _ => Prog.ret (newProject g payload adminId userIds) :
          Service Project).Returns :=
      returns_bind (returns_notifyMembershipChange _ _ _) fun _ => trivial
    rcases run_of_returns (exec h) hreturns { db with projects } with ⟨a, ha⟩
    exact congrArg Except.isOk ha
  · refine .inl ⟨hinsert, ?_⟩
    simp only [ofExcept_ok, ret_bind, insertProject, perform_bind, call_bind, run_call, he]
    exact ⟨_, rfl⟩

theorem run_createNamed (emailIdMap : Dict Id) (db : Db P) :
    (((createNamed g payload actor emailIdMap).run (exec h) db).1.isOk = false ∧
      ((createNamed g payload actor emailIdMap).run (exec h) db).2.projects = db.projects) ∨
    (((createNamed g payload actor emailIdMap).run (exec h) db).1.isOk = true ∧
      ∀ id q, KeyedStore.get db.projects id = some q → q.name ≠ payload.name) := by
  cases hadmin : emailIdMap.get payload.adminEmail with
  | error e =>
    unfold createNamed
    rw [hadmin]
    exact .inl ⟨rfl, rfl⟩
  | ok adminId =>
    cases husers : payload.userEmails.mapM emailIdMap.get with
    | error e =>
      unfold createNamed
      rw [hadmin, husers]
      exact .inl ⟨rfl, rfl⟩
    | ok userIds =>
      rcases run_createNamed_insert h g actor hadmin husers db with
        ⟨-, e, he⟩ | ⟨⟨projects, hinsert⟩, hok⟩
      · rw [he]
        exact .inl ⟨rfl, rfl⟩
      · refine .inr ⟨hok, fun id q hq hname => ?_⟩
        have hnone : KeyedStore.insert db.projects (newProject g payload adminId userIds) =
            none := KeyedStore.insert_eq_none.mpr (.inr ⟨id, q, hq, .inr hname⟩)
        rw [hinsert] at hnone
        cases hnone

theorem run_createProject (g : Generated) (payload : ProjectCreate) (actor : User) (db : Db P) :
    (((createProject h g payload actor).run (exec h) db).1.isOk = false ∧
      ((createProject h g payload actor).run (exec h) db).2.projects = db.projects) ∨
    (((createProject h g payload actor).run (exec h) db).1.isOk = true ∧
      ∀ id q, KeyedStore.get db.projects id = some q → q.name ≠ payload.name) := by
  have hkeeps := run_getUserEmailIdMap_keeps (h := h) g (memberEmails payload) db
  rw [createProject_eq, run_bind]
  rcases hrun : (getUserEmailIdMap h g (memberEmails payload)).run (exec h) db with ⟨res, db₁⟩
  rw [hrun] at hkeeps
  cases res with
  | error e => exact .inl ⟨rfl, hkeeps⟩
  | ok emailIdMap =>
    change db₁.projects = db.projects at hkeeps
    rw [← hkeeps]
    exact run_createNamed emailIdMap db₁

/-- **A project may be created again** where only users were created before, who are found. -/
theorem sameOutcome_createProject (g : Generated)
    (hadded : UsersAdded h (memberEmails payload) db db')
    (hfound : AreFound h db.backend (memberEmails payload) (usersSince db db')) :
    SameOutcome ((createProject h g payload actor).run (exec h) db')
      ((createProject h (g.reusing (usersSince db db')) payload actor).run (exec h) db) := by
  have hcreate : createNamed (g.reusing (usersSince db db')) payload actor =
      createNamed g payload actor := rfl
  rw [createProject_eq, createProject_eq, hcreate, run_bind, run_bind]
  rcases run_getUserEmailIdMap_again (memberEmails_ne_nil payload) hadded hfound g with
    hsame | ⟨e, t, t', hagain, honce⟩
  · rw [hsame]
    exact .refl _
  · rw [hagain, honce]
    exact ⟨rfl, fun _ => rfl, fun _ => rfl⟩

variable (h) in
/-- **The project cannot be created**: whatever is generated, it is refused, with the users created
since among those whom its emails name. -/
def CannotCreate (payload : ProjectCreate) (db db' : Db P) : Prop :=
  ∀ (g : Generated) (adminId : Id) (userIds : List Id),
    (idsSince h (memberEmails payload) db db').get (h.lower payload.adminEmail) = .ok adminId →
    (payload.userEmails.mapM fun email =>
      (idsSince h (memberEmails payload) db db').get (h.lower email)) = .ok userIds →
    KeyedStore.insert db.projects (newProject g payload adminId userIds) = none

/-- Where the users created before are not found, creating the project again fails, and has the
outcome of creating it once only where that fails too. -/
theorem sameOutcome_createProject_lost (actor : User)
    (hadded : UsersAdded h (memberEmails payload) db db')
    (hlost : ¬ AreFound h db.backend (memberEmails payload) (usersSince db db')) :
    (∀ g : Generated, SameOutcome ((createProject h g payload actor).run (exec h) db')
        ((createProject h (g.reusing (usersSince db db')) payload actor).run (exec h) db)) ↔
      CannotCreate h payload db db' := by
  have hprojects : db'.projects = db.projects := by
    obtain ⟨_, _, _, -, -, rfl⟩ := hadded
    rfl
  have hlostrun := run_getUserEmailIdMap_lost (memberEmails_ne_nil payload) hadded hlost
  obtain ⟨emailIdMap, hmap, hget⟩ := get_namedIds (hlostrun ⟨"", fun _ => "", "", "", 0⟩).2.2
  have hadmin : emailIdMap.get payload.adminEmail =
      (idsSince h (memberEmails payload) db db').get (h.lower payload.adminEmail) :=
    hget _ (List.mem_append_right _ List.mem_cons_self)
  have husers : payload.userEmails.mapM emailIdMap.get = payload.userEmails.mapM fun email =>
      (idsSince h (memberEmails payload) db db').get (h.lower email) :=
    mapM_congr_mem fun email hemail => hget email (List.mem_append_left _ hemail)
  have hruns : ∀ g : Generated,
      (createProject h g payload actor).run (exec h) db' = (.error .duplicateKey, db') ∧
        (createProject h (g.reusing (usersSince db db')) payload actor).run (exec h) db =
          (createNamed g payload actor emailIdMap).run (exec h) db' := by
    intro g
    obtain ⟨hagain, honce, -⟩ := hlostrun g
    rw [createProject_eq, createProject_eq, run_bind, run_bind, hagain, honce, hmap]
    exact ⟨rfl, rfl⟩
  constructor
  · intro hsame g adminId userIds hadminId huserIds
    obtain ⟨hagain, honce⟩ := hruns g
    have houtcome := (hsame g).succeeds
    rw [hagain, honce] at houtcome
    rcases run_createNamed_insert h g actor (hadmin.trans hadminId)
      (husers.trans huserIds) db' with ⟨hnone, -⟩ | ⟨-, hok⟩
    · rw [← hprojects]
      exact hnone
    · rw [hok] at houtcome
      cases houtcome
  · intro hcannot g
    obtain ⟨hagain, honce⟩ := hruns g
    rw [hagain, honce]
    obtain ⟨adminId, hadminId⟩ := (hlostrun g).2.2 payload.adminEmail
      (List.mem_append_right _ List.mem_cons_self)
    obtain ⟨userIds, huserIds, -⟩ := exists_mapM (q := fun _ _ => True)
      (l := payload.userEmails) fun email hemail => by
        obtain ⟨id, hid⟩ := (hlostrun g).2.2 email (List.mem_append_left _ hemail)
        exact ⟨id, hid, trivial⟩
    rcases run_createNamed_insert h g actor (hadmin.trans hadminId)
      (husers.trans huserIds) db' with ⟨-, e, he⟩ | ⟨⟨projects, hinsert⟩, -⟩
    · rw [he]
      exact ⟨rfl, fun _ => rfl, fun _ => rfl⟩
    · rw [hprojects, hcannot g adminId userIds hadminId huserIds] at hinsert
      cases hinsert

/-- **Where creating a project stops**: before the project is inserted, with some users created, or
after. -/
theorem stops_createProject
    (hstop : Stops (exec h) (Torn h) (createProject h g payload actor) db es db') :
    (UsersAdded h (memberEmails payload) db db' ∧ ∀ e ∈ es, changesProject e = false) ∨
    (∃ p, KeyedStore.get db.projects p.id = none ∧ KeyedStore.get db'.projects p.id = some p ∧
      p.name = payload.name) ∧ ∃ e ∈ es, changesProject e = true := by
  have hsilent : ∀ {es₁ : List (Event Resp)} {db₁ : Db P}, Stops (exec h) (Torn h)
      (getUserEmailIdMap h g (memberEmails payload)) db es₁ db₁ →
        ∀ e ∈ es₁, changesProject e = false := by
    intro es₁ db₁ hnaming e he
    rw [← Bool.not_eq_true]
    intro hchanges
    exact stops_events (calls_getUserEmailIdMap Op.writes_of_isMembership _) hnaming e he
      (writes_of_changesProject hchanges)
  have hkeeps := run_getUserEmailIdMap_keeps (h := h) g (memberEmails payload) db
  rw [createProject_eq] at hstop
  rcases stops_bind hstop with hnaming | ⟨emailIdMap, db₁, es₁, es₂, hrun, hnaming, rfl, hcreating⟩
  · exact .inl ⟨stops_getUserEmailIdMap hnaming, hsilent hnaming⟩
  rw [hrun] at hkeeps
  change db₁.projects = db.projects at hkeeps
  have hbefore : es₂ = [] ∧ db' = db₁ → UsersAdded h (memberEmails payload) db db' ∧
      ∀ e ∈ es₁ ++ es₂, changesProject e = false := by
    rintro ⟨rfl, rfl⟩
    rw [List.append_nil]
    exact ⟨stops_getUserEmailIdMap hnaming, hsilent hnaming⟩
  unfold createNamed at hcreating
  cases hadmin : emailIdMap.get payload.adminEmail with
  | error e =>
    rw [hadmin] at hcreating
    exact .inl (hbefore (stops_raise hcreating))
  | ok adminId =>
  cases husers : payload.userEmails.mapM emailIdMap.get with
  | error e =>
    rw [hadmin, husers] at hcreating
    exact .inl (hbefore (stops_raise hcreating))
  | ok userIds =>
    rw [hadmin, husers] at hcreating
    rcases stops_call hcreating with ⟨rfl, rfl | htorn⟩ | ⟨es₃, rfl, hdone⟩
    · exact .inl (hbefore ⟨rfl, rfl⟩)
    · exact htorn.elim
    rcases exec_insertProject h (newProject g payload adminId userIds) db₁ with
      ⟨projects, hinsert, he⟩ | ⟨-, he⟩
    · rw [he] at hdone
      refine .inr ⟨⟨newProject g payload adminId userIds, ?_, ?_, rfl⟩, _,
        List.mem_append_right _ List.mem_cons_self, by rw [he]; rfl⟩
      · rw [← hkeeps]
        exact free_of_answer (h := h) (by rw [he])
      · refine stops_invariant (I := fun db : Db P => KeyedStore.get db.projects
          (newProject g payload adminId userIds).id = some (newProject g payload adminId userIds))
          ?_ ?_ hdone
        · refine calls_bind (calls_ret ()) fun _ => calls_bind
            (calls_notifyMembershipChange (fun o ho => ⟨fun db hdb => ?_, fun db db' hdb ht => ?_⟩)
              _ _ _) fun _ => trivial
          · rw [exec_projects (Op.writes_of_isMembership o ho), hdb]
          · cases o with
            | insertUsers us =>
              obtain ⟨-, n, rfl⟩ := ht
              exact hdb
            | deleteAppTokens f => cases ho
            | _ => exact ht.elim
        · exact KeyedStore.get_insert_self hinsert
    · rw [he] at hdone
      obtain ⟨rfl, rfl⟩ := stops_raise hdone
      refine .inl ⟨stops_getUserEmailIdMap hnaming, fun e hmem => ?_⟩
      rcases List.mem_append.mp hmem with hfirst | hlast
      · exact hsilent hnaming e hfirst
      · rw [List.mem_singleton.mp hlast, he]
        rfl

end Create

/-! ## When a failed approval can be retried -/

section Retry

variable {g : Generated} {user : User} {db db' : Db P} {r : Request} {es : List (Event Resp)}

variable (h) in
/-- The action of the request, done again by a target user, has the outcome of doing it once. -/
def ActsAgain (r : Request) (db db' : Db P) : Prop :=
  ∀ (g : Generated) (user : User), user.id ∈ r.targetUserIds →
    SameOutcome ((doAction h g r user).run (exec h) db')
      ((doAction h (g.reusing (usersSince db db')) r user).run (exec h) db)

theorem actsAgain_oneUpdate (huser : user.id ∈ r.targetUserIds) (hcreate : r.type ≠ .createProject)
    (hclose : r.type ≠ .closeProject)
    (hstop : Stops (exec h) (Torn h) (doAction h g r user) db es db') :
    ActsAgain h r db db' ↔
      r.type.isRepeatable = true ∨ ∀ e ∈ es, changesProject e = false := by
  rw [doAction_eq_oneUpdate hcreate hclose] at hstop
  have hagain : ActsAgain h r db db' ↔
      SameOutcome ((oneUpdate r.resourceId (actionChanges h r)).run (exec h) db')
        ((oneUpdate r.resourceId (actionChanges h r)).run (exec h) db) := by
    constructor
    · intro hacts
      have hsame := hacts g user huser
      rw [doAction_eq_oneUpdate hcreate hclose, doAction_eq_oneUpdate hcreate hclose] at hsame
      exact hsame
    · intro hsame g user _
      rw [doAction_eq_oneUpdate hcreate hclose, doAction_eq_oneUpdate hcreate hclose]
      exact hsame
  rw [hagain]
  rcases stops_oneUpdate hstop with ⟨rfl, hsilent⟩ |
    ⟨p, u, projects, hp, hreads, hu, rfl, e, he, hchanges⟩
  · exact iff_of_true (.refl _) (.inr hsilent)
  · by_cases hrepeatable : r.type.isRepeatable = true
    · exact iff_of_true (sameOutcome_repeated hrepeatable hp hreads hu) (.inl hrepeatable)
    · have hnot : ¬ SameOutcome
          ((oneUpdate r.resourceId (actionChanges h r)).run (exec h) { db with projects })
          ((oneUpdate r.resourceId (actionChanges h r)).run (exec h) db) := by
        cases hmetadata : r.metadata with
        | projectQpuSeconds seconds => exact not_sameOutcome_seconds hmetadata hp hreads hu
        | createProject _ _ _ _ _ => exact absurd (congrArg RequestMetadata.type hmetadata) hcreate
        | closeProject => exact absurd (congrArg RequestMetadata.type hmetadata) hclose
        | _ =>
          exact absurd (congrArg (·.type.isRepeatable) hmetadata) hrepeatable
      refine iff_of_false hnot fun hor => ?_
      rcases hor with hyes | hsilent
      · exact hrepeatable hyes
      · rw [hsilent e he] at hchanges
        cases hchanges

theorem actsAgain_closeProject (huser : user.id ∈ r.targetUserIds)
    (hclose : r.metadata = .closeProject)
    (hstop : Stops (exec h) (Torn h) (doAction h g r user) db es db') :
    ActsAgain h r db db' ↔ (∀ e ∈ es, changesProject e = false) ∨
      db.deletedProjects.get r.resourceId ≠ none := by
  have hact : ∀ (g : Generated) (user : User), doAction h g r user = closeProject g r := by
    intro g user
    simp only [doAction, hclose]
  rw [hact] at hstop
  have hreusing : ∀ g : Generated, closeProject (g.reusing (usersSince db db')) r = closeProject g r :=
    fun _ => rfl
  rcases stops_closeProject hstop with ⟨hprojects, hcopies, hsilent⟩ |
    ⟨p, hp, hprojects, hcopies, e, he, hchanges⟩
  · refine iff_of_true (fun g user _ => ?_) (.inl hsilent)
    rw [hact, hact, hreusing]
    exact sameOutcome_closeProject hprojects hcopies
  · have hid : p.id = r.resourceId := KeyedStore.key_of_get hp
    have hmissing : KeyedStore.get db'.projects r.resourceId = none := by
      rw [hprojects, KeyedStore.get_erase, if_pos rfl]
    by_cases hcopy : db.deletedProjects.get r.resourceId = none
    · refine iff_of_false (fun hacts => ?_) fun hor => ?_
      · have hok := (hacts g user huser).succeeds
        rw [hact, hact, hreusing, run_closeProject_missing hmissing, run_closeProject hp] at hok
        rcases exec_insertDeletedProject (h := h) (.ofProject p g.now) (afterRemoval p db) with
          ⟨_, hdone⟩ | ⟨hsome, -⟩
        · rw [hdone] at hok
          cases hok
        · refine hsome ?_
          rw [← hid] at hcopy
          exact hcopy
      · rcases hor with hsilent | hsome
        · rw [hsilent e he] at hchanges
          cases hchanges
        · exact hsome hcopy
    · refine iff_of_true (fun g user _ => ?_) (.inr hcopy)
      rw [hact, hact, hreusing, run_closeProject_missing hmissing, run_closeProject_copied hp hcopy]
      refine ⟨rfl, fun id => ?_, fun id => ?_⟩
      · rw [hprojects, ← hid]
        rfl
      · rw [hcopies hcopy]
        rfl

/-- The error of creating a project, by the name it was to have. -/
def creationError (name : String) : Exc → Service Unit
  | .projectExists => throw (.conflict ("a project named '" ++ name ++ "' already exists"))
  | e => throw e

theorem raises_creationError (name : String) (e : Exc) : ∃ e', creationError name e = .raise e' := by
  cases e <;> exact ⟨_, rfl⟩

theorem doAction_createProject {name description adminEmail : String} {qpuSeconds : ℚ}
    {userEmails : List String}
    (hcreate : r.metadata = .createProject name qpuSeconds description adminEmail userEmails)
    (g : Generated) (user : User) : doAction h g r user = tryCatch (createProject h g
      { name, qpuSeconds, description, adminEmail, userEmails } user >>= fun _ => Prog.ret ())
        (creationError name) := by
  simp only [doAction, hcreate]
  rfl

variable (h) in
/-- **The users created since are found again**, where the request is to create a project; or no
approval can create it. -/
def FindsCreated (r : Request) (db db' : Db P) : Prop :=
  match r.metadata with
  | .createProject name qpuSeconds description adminEmail userEmails =>
    AreFound h db.backend (userEmails ++ [adminEmail]) (usersSince db db') ∨
      CannotCreate h { name, qpuSeconds, description, adminEmail, userEmails } db db'
  | _ => True

theorem actsAgain_createProject {name description adminEmail : String} {qpuSeconds : ℚ}
    {userEmails : List String} (huser : user.id ∈ r.targetUserIds)
    (hcreate : r.metadata = .createProject name qpuSeconds description adminEmail userEmails)
    (hstop : Stops (exec h) (Torn h) (doAction h g r user) db es db') :
    ActsAgain h r db db' ↔
      (∀ e ∈ es, changesProject e = false) ∧ FindsCreated h r db db' := by
  have houtcome : ∀ (g : Generated) (user : User) (db : Db P),
      SameOutcome ((doAction h g r user).run (exec h) db) ((createProject h g
        { name, qpuSeconds, description, adminEmail, userEmails } user).run (exec h) db) := by
    intro g user db
    rw [doAction_createProject hcreate]
    exact (SameOutcome.tryCatch (raises_creationError name) db).trans (SameOutcome.discard _ _ db)
  -- the action is that of creating the project, but for the error it turns
  have hagain : ActsAgain h r db db' ↔ ∀ (g : Generated) (user : User),
      user.id ∈ r.targetUserIds → SameOutcome
        ((createProject h g { name, qpuSeconds, description, adminEmail, userEmails } user).run
          (exec h) db')
        ((createProject h (g.reusing (usersSince db db'))
          { name, qpuSeconds, description, adminEmail, userEmails } user).run (exec h) db) := by
    constructor
    · intro hacts g user huser
      exact ((houtcome g user db').symm.trans (hacts g user huser)).trans (houtcome _ user db)
    · intro hsame g user huser
      exact ((houtcome g user db').trans (hsame g user huser)).trans (houtcome _ user db).symm
  rw [doAction_createProject hcreate] at hstop
  have hcreating : Stops (exec h) (Torn h) (createProject h g
      { name, qpuSeconds, description, adminEmail, userEmails } user) db es db' := by
    rcases stops_bind (stops_tryCatch (raises_creationError name) hstop) with
      hfirst | ⟨_, db₁, es₁, es₂, -, hfirst, rfl, hsecond⟩
    · exact hfirst
    · obtain ⟨rfl, rfl⟩ := stops_ret hsecond
      rw [List.append_nil]
      exact hfirst
  rw [hagain, FindsCreated, hcreate]
  rcases stops_createProject hcreating with ⟨hadded, hsilent⟩ |
    ⟨⟨p, hfree, hp, hname⟩, e, he, hchanges⟩
  · by_cases hfound : AreFound h db.backend (userEmails ++ [adminEmail]) (usersSince db db')
    · exact iff_of_true (fun g user _ => sameOutcome_createProject g hadded hfound)
        ⟨hsilent, .inl hfound⟩
    · have hlost := fun user => sameOutcome_createProject_lost user hadded hfound
      constructor
      · intro hsame
        exact ⟨hsilent, .inr ((hlost user).mp fun g => hsame g user huser)⟩
      · rintro ⟨-, hfound' | hcannot⟩ g user -
        · exact absurd hfound' hfound
        · exact (hlost user).mpr hcannot g
  · refine iff_of_false (fun hsame => ?_) fun hsilent => ?_
    · -- the name is taken, so the retry fails and leaves the project that one approval has not
      have hsame := hsame g user huser
      rcases run_createProject (h := h) g { name, qpuSeconds, description, adminEmail, userEmails }
        user db' with ⟨hfails, hleaves⟩ | ⟨-, hnames⟩
      · rcases run_createProject (h := h) (g.reusing (usersSince db db'))
          { name, qpuSeconds, description, adminEmail, userEmails } user db with
          ⟨-, hleaves'⟩ | ⟨hsucceeds, -⟩
        · have hget := hsame.projects p.id
          rw [hleaves, hleaves', hp, hfree] at hget
          cases hget
        · have hok := hsame.succeeds
          rw [hfails, hsucceeds] at hok
          cases hok
      · exact hnames p.id p hp hname
    · rw [hsilent.1 e he] at hchanges
      cases hchanges

/-- **A failed approval can be retried** exactly if its action may be repeated, or it failed before
it changed a project and the users it created are found again; or if it was to do what no approval
can do. -/
theorem canRetry_iff {payload : RequestUpdate} (hr : db.requests.get r.id = some r)
    (hstatus : r.status = some .pending) (huser : user.id ∈ r.targetUserIds)
    (happroves : payload.newStatus = some .approved)
    (hstop : Stops (exec h) (Torn h) (update h g r.id payload user) db es db')
    (hundecided : ∀ e ∈ es, e.1.writes ≠ some .requests) :
    CanRetry h r db db' ↔ r.type.isRepeatable = true ∨
      (∀ e ∈ es, changesProject e = false) ∧ FindsCreated h r db db' ∨
      r.type = .closeProject ∧ db.deletedProjects.get r.resourceId ≠ none := by
  obtain ⟨es', haction, hchanges⟩ := stops_update hr hstatus huser happroves hstop hundecided
  have hpending : db'.requests.get r.id = some r := by
    refine stops_invariant (I := fun db : Db P => db.requests.get r.id = some r)
      (calls_doAction_of_writes (fun o ho => ⟨fun db hdb => ?_, fun db db' hdb ht => ?_⟩) r user)
      hr haction
    · rw [exec_requests ho, hdb]
    · cases o with
      | insertUsers us =>
        obtain ⟨-, n, rfl⟩ := ht
        exact hdb
      | deleteAppTokens f =>
        obtain ⟨-, p, rfl⟩ := ht
        exact hdb
      | _ => exact ht.elim
  -- the events of the action are all there are on projects
  have hsilent : (∀ e ∈ es, changesProject e = false) ↔ ∀ e ∈ es', changesProject e = false := by
    have hnone : ∀ l : List (Event Resp), (∀ e ∈ l, changesProject e = false) ↔
        ¬ ∃ e ∈ l, changesProject e = true := by
      intro l
      simp only [not_exists, not_and, Bool.not_eq_true]
    rw [hnone, hnone, hchanges]
  have hacts : CanRetry h r db db' ↔ ActsAgain h r db db' := by
    constructor
    · intro hretry g user huser
      exact (sameOutcome_update hpending hstatus huser happroves).symm.trans
        ((hretry.retried g payload user huser happroves).trans
          (sameOutcome_update hr hstatus huser happroves))
    · intro hacts
      refine ⟨hpending, fun g payload user huser happroves => ?_⟩
      exact (sameOutcome_update hpending hstatus huser happroves).trans
        ((hacts g user huser).trans (sameOutcome_update hr hstatus huser happroves).symm)
  rw [hacts, hsilent]
  have hfinds : r.type ≠ .createProject → FindsCreated h r db db' := by
    intro htype
    unfold FindsCreated
    split
    · rename_i hmetadata
      exact absurd (congrArg RequestMetadata.type hmetadata) htype
    · trivial
  -- what may be done again depends on the type of the request
  cases hmetadata : r.metadata with
  | createProject name qpuSeconds description adminEmail userEmails =>
    rw [actsAgain_createProject huser hmetadata haction]
    simp [Request.type, hmetadata, RequestMetadata.type, RequestType.isRepeatable]
  | closeProject =>
    have htype : r.type ≠ .createProject := by
      simp [Request.type, hmetadata, RequestMetadata.type]
    rw [actsAgain_closeProject huser hmetadata haction, and_iff_left (hfinds htype)]
    simp [Request.type, hmetadata, RequestMetadata.type, RequestType.isRepeatable]
  | _ =>
    have hcreate : r.type ≠ .createProject := by
      simp [Request.type, hmetadata, RequestMetadata.type]
    have hclose : r.type ≠ .closeProject := by
      simp [Request.type, hmetadata, RequestMetadata.type]
    rw [actsAgain_oneUpdate huser hcreate hclose haction, and_iff_left (hfinds hcreate)]
    simp [hclose]

end Retry

/-! ## Two approvals that stop after their update -/

/-- The admin approves the request. -/
def labApproval (r : Request) : Service Request :=
  update labHost labGenerated r.id { status := some (some .approved), updatedAt := none } labAdmin

/-- The approval stops once it has read the request and the project and updated the project. -/
def stoppedApproval {P : Type} [ProjectStore P] (r : Request) (db : Db P) : List (Event Resp) × Db P :=
  (labApproval r).stopped (exec labHost) 3 db

/-- A pending request for access to the project. -/
def accessRequest : Request :=
  { labRequest with
    metadata := .projectAccess
    requesterId := "65f0000000000000000000a3" }

/-- The project and the request for access. -/
def accessDb {P : Type} (projects : P) : Db P :=
  { backend := .sql, projects := projects, requests := Table.empty.insert accessRequest rfl }

/-- The theorem where access is approved, which may be approved again after the member is added. -/
theorem canRetry_iff_lab :
    CanRetry labHost accessRequest (accessDb labTables)
      (stoppedApproval accessRequest (accessDb labTables)).2 :=
  (canRetry_iff (h := labHost) rfl rfl (by decide) rfl
    (stops_stopped (labApproval accessRequest) 3 (accessDb labTables)) (by decide +kernel)).mpr
      (.inl rfl)

/-- The seconds of the project. -/
def secondsOf (db : Db ProjectDocuments) : Option ℚ :=
  (db.projects.get labProject.id).map (·.qpuSeconds)

/-- **Seconds are added twice**: the approval adds 30 and stops before the decision is recorded;
the request is still pending, and approving it again adds 30 more. -/
theorem seconds_added_twice :
    Stops (exec labHost) (Torn labHost) (labApproval labRequest) (labDb .mongodb labDocuments)
      (stoppedApproval labRequest (labDb .mongodb labDocuments)).1
      (stoppedApproval labRequest (labDb .mongodb labDocuments)).2 ∧
    (∀ e ∈ (stoppedApproval labRequest (labDb .mongodb labDocuments)).1,
      e.1.writes ≠ some .requests) ∧
    (stoppedApproval labRequest (labDb .mongodb labDocuments)).2.requests.get labRequest.id =
      some labRequest ∧
    secondsOf ((labApproval labRequest).run (exec labHost) (labDb .mongodb labDocuments)).2 =
      some 130 ∧
    secondsOf ((labApproval labRequest).run (exec labHost)
      (stoppedApproval labRequest (labDb .mongodb labDocuments)).2).2 = some 160 ∧
    ¬ CanRetry labHost labRequest (labDb .mongodb labDocuments)
      (stoppedApproval labRequest (labDb .mongodb labDocuments)).2 := by
  have honce : secondsOf ((labApproval labRequest).run (exec labHost)
      (labDb .mongodb labDocuments)).2 = some 130 := by decide +kernel
  have htwice : secondsOf ((labApproval labRequest).run (exec labHost)
      (stoppedApproval labRequest (labDb .mongodb labDocuments)).2).2 = some 160 := by
    decide +kernel
  refine ⟨stops_stopped _ _ _, by decide +kernel, by decide +kernel, honce, htwice, fun hretry => ?_⟩
  have hsame := (hretry.retried labGenerated { status := some (some .approved), updatedAt := none }
    labAdmin (by decide) rfl).projects labProject.id
  have hseconds := congrArg (Option.map (·.qpuSeconds)) hsame
  exact absurd hseconds (by decide +kernel)

end Mss
