import Mss.JobRecords
import Mss.Lib.Pool
import Mss.Lib.Table
import Mss.Notices

/-!
# The database and its operations

`Op` is every operation the modelled services call on the `Database`, `Resp` what it answers and
**`exec`** what it does; each is one atomic operation. The projects are behind any `ProjectStore`,
so that the same services run on MongoDB's documents and on SQL's rows.

* `Host`: the functions of the host that the code calls and that are not its own.
* `exec_projects`, `exec_appTokens`, …: an operation leaves the tables it does not write alone.
-/

namespace Mss

open Atomic Storage

/-- The errors raised. -/
inductive Exc
  | duplicateKey
  | storage
  | forbidden (msg : String)
  | notFound (msg : String)
  | conflict (msg : String)
  | projectExists
  | projectNotExists (msg : String)
  | keyError (key : String)
  | attributeError (name : String)
  | httpException (status : ℕ) (detail : String)
  | exceptionGroup (msg : String) (errors : List Exc)

/-- What the host gives: lower case and the database's collation of a text, the hexadecimal SHA-256
digest of its UTF-8 bytes, and the decryption of a job's token. -/
structure Host where
  lower : String → String
  collate : String → String
  sha256 : String → String
  decrypt : String → Except Exc String

/-- A text that is asked for without case, as the database compares it: in SQL the code lowers it, to
be compared with the stored texts as the database lowers them; MongoDB reads both by one collation. -/
def Backend.asked (b : Backend) (lower collate : String → String) (text : String) : String :=
  match b with
  | .sql => lower text
  | .mongodb => collate text

/-- An email that is asked for, as the database compares it. -/
def askedEmail (h : Host) (b : Backend) (email : String) : String := b.asked h.lower h.collate email

/-- An id computed from another, for a purpose named: the first 12 bytes of a digest. -/
def Host.deriveId (h : Host) (parentId : Id) (namespace_ : String) : Id :=
  String.ofList ((h.sha256 (namespace_ ++ ":" ++ parentId)).toList.take 24)

/-- **A store of projects**: their ids and their names are unique, and whether one is refused by
itself is up to its members, whom it may list once each. -/
class ProjectStore (P : Type) extends KeyedStore P Project.id Project.apply SharesName where
  storable_of_nodup : ∀ {p : Project}, p.userIds.Nodup → Storable p
  storable_congr : ∀ {p q : Project}, p.userIds = q.userIds → Storable p → Storable q

/-- The projects as MongoDB's documents, which may list a member twice. -/
abbrev ProjectDocuments : Type := Table Project Project.id

instance : ProjectStore ProjectDocuments where
  toKeyedStore := Table.keyedStore Project.apply_id
  storable_of_nodup _ := trivial
  storable_congr _ _ := trivial

/-- **The database**: its tables, and the notices asked for and cleared. -/
structure Db (P : Type) where
  backend : Backend
  projects : P
  deletedProjects : Table DeletedProject (fun p => p.id) := .empty
  appTokens : Table AppToken AppToken.id := .empty
  users : Table User User.id := .empty
  requests : Table Request Request.id := .empty
  jobs : Table Job Job.jobId := .empty
  notices : List SystemNotice := []
  cleared : List (RefType × List Id) := []

/-- The filter of app tokens to delete: a project's, or only those of users not in a list. -/
structure AppTokenFilter where
  projectId : Id
  notUserIds : Option (List Id) := none
  deriving DecidableEq, Repr

/-- Whether the filter matches the token. -/
def AppTokenFilter.matches (f : AppTokenFilter) (t : AppToken) : Bool :=
  t.projectId = f.projectId ∧ ∀ ids ∈ f.notUserIds, t.userId ∉ ids

/-- **The operations**, each on one table. -/
inductive Op
  | getProject (id : Id)
  | findProjectOfMember (id userId : Id)
  | insertProject (p : Project)
  | updateProject (id : Id) (u : ProjectChanges)
  | deleteProject (id : Id)
  | insertDeletedProject (p : DeletedProject)
  | insertAppToken (t : AppToken)
  | deleteAppTokens (f : AppTokenFilter)
  | findUsersByEmail (emails : List String)
  | findUsersById (ids : List Id)
  | insertUsers (users : List User)
  | findPendingRequest (id targetUserId : Id)
  | updateRequest (id : Id) (u : RequestChanges)
  | getJob (jobId : String)
  | updateJob (jobId : String) (u : JobUpdate)
  | createSystemNotice (n : SystemNotice)
  | clearNoticesByReference (refType : RefType) (refIds : List Id)
  deriving DecidableEq

/-- What an operation answers. -/
@[reducible] def Resp : Op → Type
  | .getProject _ => Option Project
  | .findProjectOfMember _ _ => Option Project
  | .insertProject _ => Except Exc Unit
  | .updateProject _ _ => Except Exc (Option Project)
  | .deleteProject _ => Option Project
  | .insertDeletedProject _ => Except Exc Unit
  | .insertAppToken _ => Except Exc Unit
  | .deleteAppTokens _ => ℕ
  | .findUsersByEmail _ => List User
  | .findUsersById _ => List User
  | .insertUsers _ => Except Exc Unit
  | .findPendingRequest _ _ => Option Request
  | .updateRequest _ _ => Except Exc (Option Request)
  | .getJob _ => Option Job
  | .updateJob _ _ => Option Job
  | .createSystemNotice _ => Unit
  | .clearNoticesByReference _ _ => Unit

/-- Two app tokens of one token string may not be stored together. -/
def SharesToken (s t : AppToken) : Prop := s.token = t.token

instance : DecidableRel SharesToken := fun s t => inferInstanceAs (Decidable (s.token = t.token))

section Exec

variable {P : Type} [ProjectStore P] (h : Host)

/-- Two users whose emails the database compares as one may not be stored together. -/
def SharesEmail (u v : User) : Prop := h.collate u.email = h.collate v.email

instance : DecidableRel (SharesEmail h) := fun u v =>
  inferInstanceAs (Decidable (h.collate u.email = h.collate v.email))

/-- The users after an `insert_many`: in SQL one transaction, in MongoDB one insert at a time. -/
def insertManyUsers (b : Backend) (t : Table User User.id) (us : List User) :
    Except Exc Unit × Table User User.id :=
  match t.insertInOrder (SharesEmail h) us, b with
  | (t', true), _ => (.ok (), t')
  | (_, false), .sql => (.error .duplicateKey, t)
  | (t', false), .mongodb => (.error .duplicateKey, t')

/-- Whether MongoDB's validator refuses the update: a null for a field that takes none. -/
def RequestChanges.isRefused (b : Backend) (u : RequestChanges) : Bool :=
  b = .mongodb ∧ u.status = some none

/-- **What an operation answers and leaves.** -/
def exec (o : Op) (db : Db P) : Resp o × Db P :=
  match o with
  | .getProject id => (KeyedStore.get db.projects id, db)
  | .findProjectOfMember id userId =>
    ((KeyedStore.get db.projects id).filter (userId ∈ ·.userIds), db)
  | .insertProject p => match KeyedStore.insert db.projects p with
    | some projects => (.ok (), { db with projects })
    | none => (.error .duplicateKey, db)
  | .updateProject id u => match KeyedStore.get db.projects id with
    | none => (.ok none, db)
    | some p => match KeyedStore.update db.projects id u with
      | some projects => (.ok (some (p.apply u)), { db with projects })
      | none => (.error .duplicateKey, db)
  | .deleteProject id =>
    (KeyedStore.get db.projects id, { db with projects := KeyedStore.erase db.projects id })
  | .insertDeletedProject p => match db.deletedProjects.insert? (fun _ _ => False) p with
    | some deletedProjects => (.ok (), { db with deletedProjects })
    | none => (.error .duplicateKey, db)
  | .insertAppToken t => match db.appTokens.insert? SharesToken t with
    | some appTokens => (.ok (), { db with appTokens })
    | none => (.error .duplicateKey, db)
  | .deleteAppTokens f =>
    (db.appTokens.rows.countP f.matches, { db with appTokens := db.appTokens.eraseWhere f.matches })
  | .findUsersByEmail emails =>
    (db.users.rows.filter fun u => h.collate u.email ∈ emails.map (askedEmail h db.backend), db)
  | .findUsersById ids => (db.users.rows.filter (·.id ∈ ids), db)
  | .insertUsers us =>
    ((insertManyUsers h db.backend db.users us).1,
      { db with users := (insertManyUsers h db.backend db.users us).2 })
  | .findPendingRequest id targetUserId =>
    ((db.requests.get id).filter fun r => targetUserId ∈ r.targetUserIds ∧
      r.status = some .pending, db)
  | .updateRequest id u => match db.requests.get id with
    | none => (.ok none, db)
    | some r =>
      if u.isRefused db.backend then (.error .storage, db)
      else (.ok (some (r.apply u)),
        { db with requests := db.requests.modify id (.apply u) (Request.apply_id u) })
  | .getJob jobId => (db.jobs.get jobId, db)
  | .updateJob jobId u =>
    (db.jobs.get jobId, { db with
      jobs := db.jobs.modify jobId (.apply db.backend u) (Job.apply_jobId db.backend u) })
  | .createSystemNotice n => ((), { db with notices := db.notices ++ [n] })
  | .clearNoticesByReference refType refIds =>
    ((), { db with cleared := db.cleared ++ [(refType, refIds)] })

/-! ## The tables an operation writes -/

/-- The tables. -/
inductive TableName
  | projects | deletedProjects | appTokens | users | requests | jobs | notices
  deriving DecidableEq

/-- The table an operation may write. -/
def Op.writes : Op → Option TableName
  | .insertProject _ | .updateProject _ _ | .deleteProject _ => some .projects
  | .insertDeletedProject _ => some .deletedProjects
  | .insertAppToken _ | .deleteAppTokens _ => some .appTokens
  | .insertUsers _ => some .users
  | .updateRequest _ _ => some .requests
  | .updateJob _ _ => some .jobs
  | .createSystemNotice _ | .clearNoticesByReference _ _ => some .notices
  | _ => none

variable {h} {o : Op} {db : Db P}

theorem exec_projects (ho : o.writes ≠ some .projects) :
    (exec h o db).2.projects = db.projects := by
  cases o <;> simp only [Op.writes, ne_eq, not_true_eq_false] at ho <;> simp only [exec] <;>
    (repeat' split) <;> rfl

theorem exec_deletedProjects (ho : o.writes ≠ some .deletedProjects) :
    (exec h o db).2.deletedProjects = db.deletedProjects := by
  cases o <;> simp only [Op.writes, ne_eq, not_true_eq_false] at ho <;> simp only [exec] <;>
    (repeat' split) <;> rfl

theorem exec_appTokens (ho : o.writes ≠ some .appTokens) :
    (exec h o db).2.appTokens = db.appTokens := by
  cases o <;> simp only [Op.writes, ne_eq, not_true_eq_false] at ho <;> simp only [exec] <;>
    (repeat' split) <;> rfl

theorem exec_requests (ho : o.writes ≠ some .requests) :
    (exec h o db).2.requests = db.requests := by
  cases o <;> simp only [Op.writes, ne_eq, not_true_eq_false] at ho <;> simp only [exec] <;>
    (repeat' split) <;> rfl

theorem exec_jobs (ho : o.writes ≠ some .jobs) : (exec h o db).2.jobs = db.jobs := by
  cases o <;> simp only [Op.writes, ne_eq, not_true_eq_false] at ho <;> simp only [exec] <;>
    (repeat' split) <;> rfl

theorem exec_notices (ho : o.writes ≠ some .notices) : (exec h o db).2.notices = db.notices := by
  cases o <;> simp only [Op.writes, ne_eq, not_true_eq_false] at ho <;> simp only [exec] <;>
    (repeat' split) <;> rfl

@[simp] theorem exec_backend : (exec h o db).2.backend = db.backend := by
  cases o <;> simp only [exec] <;> (repeat' split) <;> rfl

/-! ## What each write does -/

variable (h) in
theorem exec_insertProject (p : Project) (db : Db P) :
    (∃ projects, KeyedStore.insert db.projects p = some projects ∧
      exec h (.insertProject p) db = (.ok (), { db with projects })) ∨
    (KeyedStore.insert db.projects p = none ∧
      exec h (.insertProject p) db = (.error .duplicateKey, db)) := by
  simp only [exec]
  cases hi : KeyedStore.insert db.projects p with
  | some projects => exact .inl ⟨projects, rfl, rfl⟩
  | none => exact .inr ⟨rfl, rfl⟩

theorem exec_updateProject (id : Id) (u : ProjectChanges) (db : Db P) :
    (KeyedStore.get db.projects id = none ∧ exec h (.updateProject id u) db = (.ok none, db)) ∨
    (∃ p, KeyedStore.get db.projects id = some p ∧
      ((∃ projects, KeyedStore.update db.projects id u = some projects ∧
        exec h (.updateProject id u) db = (.ok (some (p.apply u)), { db with projects })) ∨
      (KeyedStore.update db.projects id u = none ∧
        exec h (.updateProject id u) db = (.error .duplicateKey, db)))) := by
  simp only [exec]
  cases hg : KeyedStore.get db.projects id with
  | none => exact .inl ⟨rfl, rfl⟩
  | some p =>
    refine .inr ⟨p, rfl, ?_⟩
    cases hu : KeyedStore.update db.projects id u with
    | some projects => exact .inl ⟨projects, rfl, rfl⟩
    | none => exact .inr ⟨rfl, rfl⟩

theorem exec_insertDeletedProject (p : DeletedProject) (db : Db P) :
    (∃ hp, exec h (.insertDeletedProject p) db =
      (.ok (), { db with deletedProjects := db.deletedProjects.insert p hp })) ∨
    (db.deletedProjects.get p.id ≠ none ∧
      exec h (.insertDeletedProject p) db = (.error .duplicateKey, db)) := by
  by_cases hp : db.deletedProjects.get p.id = none
  · exact .inl ⟨hp, by simp [exec, Table.insert?, hp]⟩
  · exact .inr ⟨hp, by simp [exec, Table.insert?, hp]⟩

/-! ## What an event does to one record -/

/-- The project of an id after an event. -/
def projectAfter (pid : Id) : Event Resp → Option Project → Option Project
  | ⟨.insertProject q, .ok _⟩, p => if pid = q.id then some q else p
  | ⟨.updateProject id u, .ok (some _)⟩, p => if pid = id then p.map (·.apply u) else p
  | ⟨.deleteProject id, _⟩, p => if pid = id then none else p
  | _, p => p

/-- The request of an id after an event. -/
def requestAfter (pk : Id) : Event Resp → Option Request → Option Request
  | ⟨.updateRequest id u, .ok (some _)⟩, r => if pk = id then r.map (·.apply u) else r
  | _, r => r

/-- The copy of an id after an event. -/
def copyAfter (pid : Id) : Event Resp → Option DeletedProject → Option DeletedProject
  | ⟨.insertDeletedProject q, .ok _⟩, p => if pid = q.id then some q else p
  | _, p => p

/-- The app tokens after an event. -/
def tokensAfter : Event Resp → List AppToken → List AppToken
  | ⟨.insertAppToken t, .ok _⟩, ts => ts ++ [t]
  | ⟨.deleteAppTokens f, _⟩, ts => ts.filter fun t => !f.matches t
  | _, ts => ts

theorem projectAfter_eq_self {pid : Id} {e : Event Resp} {p : Option Project}
    (hinsert : ∀ q, e.1 ≠ .insertProject q)
    (hupdate : ∀ u q, e ≠ ⟨.updateProject pid u, .ok (some q)⟩)
    (hdelete : ∀ r, e ≠ ⟨.deleteProject pid, r⟩) : projectAfter pid e p = p := by
  obtain ⟨o, r⟩ := e
  cases o with
  | insertProject q => exact (hinsert q rfl).elim
  | updateProject id u =>
    match r with
    | .ok none => rfl
    | .error _ => rfl
    | .ok (some q) =>
      have hid : pid ≠ id := by
        rintro rfl
        exact hupdate u q rfl
      simp [projectAfter, hid]
  | deleteProject id =>
    have hid : pid ≠ id := by
      rintro rfl
      exact hdelete r rfl
    simp [projectAfter, hid]
  | _ => rfl

theorem get_exec_projects (o : Op) (db : Db P) (pid : Id) :
    KeyedStore.get (exec h o db).2.projects pid =
      projectAfter pid ⟨o, (exec h o db).1⟩ (KeyedStore.get db.projects pid) := by
  cases o with
  | insertProject p =>
    obtain ⟨projects, hi, he⟩ | ⟨_, he⟩ := exec_insertProject (h := h) p db
    · rw [he]
      exact KeyedStore.get_insert hi pid
    · rw [he]
      rfl
  | updateProject id u =>
    obtain ⟨hg, he⟩ | ⟨p, hg, ⟨projects, hu, he⟩ | ⟨_, he⟩⟩ := exec_updateProject (h := h) id u db
    · rw [he]
      rfl
    · rw [he]
      by_cases hid : pid = id
      · subst hid; exact (KeyedStore.get_update hu pid).trans (by simp [projectAfter])
      · exact (KeyedStore.get_update hu pid).trans (by simp [projectAfter, hid])
    · rw [he]
      rfl
  | deleteProject id => exact KeyedStore.get_erase db.projects id pid
  | _ => rw [exec_projects (by simp [Op.writes])]; rfl

theorem get_exec_requests (o : Op) (db : Db P) (pk : Id) :
    (exec h o db).2.requests.get pk =
      requestAfter pk ⟨o, (exec h o db).1⟩ (db.requests.get pk) := by
  cases o with
  | updateRequest id u =>
    simp only [exec]
    cases hg : db.requests.get id with
    | none => rfl
    | some r =>
      by_cases hu : u.isRefused db.backend
      · simp [requestAfter, hu]
      · simp only [hu, Bool.false_eq_true, if_false, requestAfter, Table.get_modify]
        by_cases hid : pk = id
        · subst hid; simp
        · simp [hid]
  | _ => rw [exec_requests (by simp [Op.writes])]; rfl

theorem get_exec_copies (o : Op) (db : Db P) (pid : Id) :
    (exec h o db).2.deletedProjects.get pid =
      copyAfter pid ⟨o, (exec h o db).1⟩ (db.deletedProjects.get pid) := by
  cases o with
  | insertDeletedProject q =>
    obtain ⟨hq, he⟩ | ⟨_, he⟩ := exec_insertDeletedProject (h := h) q db
    · rw [he]
      exact Table.get_insert _ q hq pid
    · rw [he]
      rfl
  | _ => rw [exec_deletedProjects (by simp [Op.writes])]; rfl

theorem rows_exec_appTokens (o : Op) (db : Db P) :
    (exec h o db).2.appTokens.rows =
      tokensAfter ⟨o, (exec h o db).1⟩ db.appTokens.rows := by
  cases o with
  | insertAppToken t =>
    simp only [exec, Table.insert?]
    split_ifs <;> rfl
  | deleteAppTokens f => rfl
  | _ => rw [exec_appTokens (by simp [Op.writes])]; rfl

section Answers

variable {o : Op} {db : Db P}

theorem updated_of_answer {id : Id} {u : ProjectChanges} {q : Project}
    (he : (exec h (.updateProject id u) db).1 = .ok (some q)) :
    ∃ p, KeyedStore.get db.projects id = some p ∧ q = p.apply u := by
  obtain ⟨_, hu⟩ | ⟨p, hg, ⟨_, _, hu⟩ | ⟨_, hu⟩⟩ := exec_updateProject (h := h) id u db
  · rw [hu] at he; cases he
  · rw [hu] at he; cases he; exact ⟨p, hg, rfl⟩
  · rw [hu] at he; cases he

theorem free_of_answer {p : Project} (he : (exec h (.insertProject p) db).1 = .ok ()) :
    KeyedStore.get db.projects p.id = none := by
  obtain ⟨projects, hi, _⟩ | ⟨_, hu⟩ := exec_insertProject (h := h) p db
  · by_contra hne
    obtain ⟨q, hq⟩ := Option.ne_none_iff_exists'.mp hne
    have hnone : KeyedStore.insert db.projects p = none :=
      KeyedStore.insert_eq_none.mpr (.inr ⟨p.id, q, hq, .inl rfl⟩)
    rw [hi] at hnone
    cases hnone
  · rw [hu] at he; cases he

end Answers

/-! ## What a step of an interleaving does -/

section Step

variable {ι α : Type} [DecidableEq ι] {i : ι} {e : Event Resp}
  {c c' : Config (Db P) ι Resp Exc α}

theorem step_projects (hs : StepBy (exec h) i e c c') (pid : Id) :
    KeyedStore.get c'.store.projects pid =
      projectAfter pid e (KeyedStore.get c.store.projects pid) := by
  rw [hs.store, get_exec_projects, hs.resp]

theorem step_requests (hs : StepBy (exec h) i e c c') (pk : Id) :
    c'.store.requests.get pk = requestAfter pk e (c.store.requests.get pk) := by
  rw [hs.store, get_exec_requests, hs.resp]

theorem step_copies (hs : StepBy (exec h) i e c c') (pid : Id) :
    c'.store.deletedProjects.get pid = copyAfter pid e (c.store.deletedProjects.get pid) := by
  rw [hs.store, get_exec_copies, hs.resp]

theorem step_tokens (hs : StepBy (exec h) i e c c') :
    c'.store.appTokens.rows = tokensAfter e c.store.appTokens.rows := by
  rw [hs.store, rows_exec_appTokens, hs.resp]

end Step

end Exec

/-! ## Programs of the services -/

/-- A service's program. -/
abbrev Service (α : Type) : Type := Prog Resp Exc α

/-- Call one operation of the database. -/
abbrev call (o : Op) : Service (Resp o) := Prog.perform o

/-- What a call generates: ids, a secret token and the time. -/
structure Generated where
  id : Id
  userId : String → Id
  token : String
  now : String
  nowMicros : ℤ

end Mss
