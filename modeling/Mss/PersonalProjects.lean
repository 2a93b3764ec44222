import Mss.Runs

/-!
# Every user who logs in has a personal project

A personal project is named after the part of the user's email before the '@', and names are
unique. After any run of creations, logins and deletions, a login gives the user their personal
project exactly when it is stored already or its name is free.

* `ReturnsPersonal`: a login returns the user's own personal project, and it is stored.
* `KeepsPersonal`: the invariant of the runs.
* **`ensurePersonalProject_iff`**: after any run, when a login does so.
* `second_ann_has_none`: two users of one local part, the second of whom gets no project.
-/

namespace Mss

open Atomic Storage Prog

variable {P : Type} [ProjectStore P] (h : Host)

/-- The id of the user's personal project. -/
def User.personalId (user : User) : Id := h.deriveId user.id "project"

/-- The name of the user's personal project. -/
def User.personalName (user : User) : String := user.username ++ " (personal)"

/-- The project is the user's own personal project. -/
structure IsPersonalOf (user : User) (p : Project) : Prop where
  isPersonal : p.isPersonal = true
  id : p.id = user.personalId h
  admin : p.adminId = user.id
  member : user.id ∈ p.userIds

/-- **A login returns the user's own personal project, and it is stored.** -/
def ReturnsPersonal (user : User) (r : Except Exc (Option Project) × Db P) : Prop :=
  ∃ p, r.1 = .ok (some p) ∧ IsPersonalOf h user p ∧ KeyedStore.get r.2.projects p.id = some p

/-- No other call of the run makes a project of the user's derived id: no generated id is one, and
no other user's derived id is the same. -/
structure DerivedApart (user : User) (calls : List ProjectCall) : Prop where
  created : ∀ payload actor g, .create payload actor g ∈ calls → g.id ≠ user.personalId h
  login : ∀ v qpuSeconds g, .login v qpuSeconds g ∈ calls →
    v.personalId h = user.personalId h → v.id = user.id

/-- The project stored under the user's derived id, if there is one, is theirs. -/
def KeepsPersonal (user : User) (db : Db P) : Prop :=
  ∀ p, KeyedStore.get db.projects (user.personalId h) = some p → IsPersonalOf h user p

variable {h} {user : User}

/-! ## What a run keeps -/

theorem keepsPersonal_insert {p : Project} (hp : p.id = user.personalId h → IsPersonalOf h user p)
    {db : Db P} (hdb : KeepsPersonal h user db) :
    KeepsPersonal h user (exec h (.insertProject p) db).2 := by
  obtain ⟨projects, hi, he⟩ | ⟨_, he⟩ := exec_insertProject (h := h) p db
  · rw [he]
    intro q hq
    rw [KeyedStore.get_insert hi] at hq
    split_ifs at hq with hid
    · cases hq
      exact hp hid.symm
    · exact hdb q hq
  · rw [he]
    exact hdb

theorem keepsPersonal_delete (id : Id) {db : Db P} (hdb : KeepsPersonal h user db) :
    KeepsPersonal h user (exec h (.deleteProject id) db).2 := by
  intro p hp
  change KeyedStore.get (KeyedStore.erase db.projects id) _ = _ at hp
  rw [KeyedStore.get_erase] at hp
  split_ifs at hp
  exact hdb p hp

theorem keepsPersonal_other {o : Op} (ho : o.writes ≠ some .projects) {db : Db P}
    (hdb : KeepsPersonal h user db) : KeepsPersonal h user (exec h o db).2 := by
  unfold KeepsPersonal
  rw [exec_projects ho]
  exact hdb

theorem keepsPersonal_call {calls : List ProjectCall} (hcalls : DerivedApart h user calls)
    {call : ProjectCall} (hcall : call ∈ calls) :
    (call.service h).Calls fun o =>
      ∀ db : Db P, KeepsPersonal h user db → KeepsPersonal h user (exec h o db).2 := by
  cases call with
  | create payload actor g =>
    refine calls_bind (calls_createProject ?_ ?_ payload actor) fun _ => trivial
    · exact fun o ho db hdb => keepsPersonal_other (Op.writes_of_isMembership o ho) hdb
    · intro p hp _ db hdb
      exact keepsPersonal_insert (fun hid => absurd (hp ▸ hid) (hcalls.created _ _ g hcall)) hdb
  | login v qpuSeconds g =>
    refine calls_bind (calls_ensurePersonalProject ?_ ?_) fun _ => trivial
    · exact fun db hdb => keepsPersonal_other (by simp [Op.writes]) hdb
    · refine fun db hdb => keepsPersonal_insert (fun hid => ?_) hdb
      have hv : v.id = user.id := hcalls.login v _ g hcall hid
      exact ⟨rfl, hid, hv, by simp [personalProject, hv]⟩
  | delete projectId isSuperuser g =>
    refine calls_bind (calls_getProject ?_) fun project => ?_
    · exact fun db hdb => keepsPersonal_other (by simp [Op.writes]) hdb
    · refine calls_deleteProject ?_ ?_ ?_
      · exact fun db hdb => keepsPersonal_other (by simp [Op.writes]) hdb
      · exact fun db hdb => keepsPersonal_delete _ hdb
      · exact fun db hdb => keepsPersonal_other (by simp [Op.writes]) hdb

/-! ## What a login returns -/

variable {db : Db P} {g : Generated} {qpuSeconds : ℚ}

theorem ensurePersonalProject_stored {p : Project}
    (hp : KeyedStore.get db.projects (user.personalId h) = some p) :
    (ensurePersonalProject h g user qpuSeconds).run (exec h) db = (.ok (some p), db) := by
  simp only [User.personalId] at hp
  simp [ensurePersonalProject, exec, hp]

theorem ensurePersonalProject_missing
    (hnone : KeyedStore.get db.projects (user.personalId h) = none) :
    (ensurePersonalProject h g user qpuSeconds).run (exec h) db =
      match exec h (.insertProject (personalProject h g user qpuSeconds)) db with
      | (.ok _, db') => (.ok (some (personalProject h g user qpuSeconds)), db')
      | (.error _, db') => (.ok none, db') := by
  simp only [User.personalId] at hnone
  have hget : exec h (.getProject (h.deriveId user.id "project")) db = (none, db) := by
    simp [exec, hnone]
  obtain ⟨projects, hi, he⟩ | ⟨_, he⟩ :=
    exec_insertProject (h := h) (personalProject h g user qpuSeconds) db
  · simp [ensurePersonalProject, hget, he]
  · simp [ensurePersonalProject, hget, he]

theorem ensurePersonalProject_free
    (hnone : KeyedStore.get db.projects (user.personalId h) = none)
    (hname : ∀ id p, KeyedStore.get db.projects id = some p → p.name ≠ user.personalName) :
    ReturnsPersonal h user ((ensurePersonalProject h g user qpuSeconds).run (exec h) db) := by
  rw [ensurePersonalProject_missing hnone]
  obtain ⟨projects, hi, he⟩ | ⟨hi, _⟩ :=
    exec_insertProject (h := h) (personalProject h g user qpuSeconds) db
  · rw [he]
    refine ⟨_, rfl, ⟨rfl, rfl, rfl, by simp [personalProject]⟩, ?_⟩
    rw [KeyedStore.get_insert hi, if_pos rfl]
  · obtain hs | ⟨id, p, hp, rfl | hclash⟩ := KeyedStore.insert_eq_none.mp hi
    · exact absurd (ProjectStore.storable_of_nodup (by simp [personalProject])) hs
    · exact absurd hp (by simp only [User.personalId] at hnone; simp [personalProject, hnone])
    · exact absurd hclash (hname id p hp)

theorem ensurePersonalProject_taken
    (hnone : KeyedStore.get db.projects (user.personalId h) = none) {id : Id} {p : Project}
    (hp : KeyedStore.get db.projects id = some p) (hname : p.name = user.personalName) :
    (ensurePersonalProject h g user qpuSeconds).run (exec h) db = (.ok none, db) := by
  rw [ensurePersonalProject_missing hnone]
  have hi : KeyedStore.insert db.projects (personalProject h g user qpuSeconds) = none :=
    KeyedStore.insert_eq_none.mpr (.inr ⟨id, p, hp, .inr hname⟩)
  obtain ⟨projects, hi', _⟩ | ⟨_, he⟩ :=
    exec_insertProject (h := h) (personalProject h g user qpuSeconds) db
  · rw [hi] at hi'; cases hi'
  · rw [he]

/-- **After any run, a login gives the user their own personal project exactly when it is stored
already or no stored project has its name.** -/
theorem ensurePersonalProject_iff {calls : List ProjectCall} (hcalls : DerivedApart h user calls)
    (hdb : ∀ id, KeyedStore.get db.projects id = none) :
    ReturnsPersonal h user
        ((ensurePersonalProject h g user qpuSeconds).run (exec h) (runCalls h calls db)) ↔
      (∃ p, KeyedStore.get (runCalls h calls db).projects (user.personalId h) = some p) ∨
      ∀ id p, KeyedStore.get (runCalls h calls db).projects id = some p →
        p.name ≠ user.personalName := by
  have hkeeps : KeepsPersonal h user (runCalls h calls db) :=
    runCalls_invariant (fun call hcall db => run_invariant (keepsPersonal_call hcalls hcall))
      fun p hp => by rw [hdb] at hp; cases hp
  cases hget : KeyedStore.get (runCalls h calls db).projects (user.personalId h) with
  | some p =>
    have hp := hkeeps p hget
    refine iff_of_true ⟨p, ?_, hp, ?_⟩ (.inl ⟨p, rfl⟩)
    · rw [ensurePersonalProject_stored hget]
    · rw [ensurePersonalProject_stored hget, hp.id, hget]
  | none =>
    simp only [reduceCtorEq, exists_false, false_or]
    refine ⟨fun hr id p hp hname => ?_, ensurePersonalProject_free hget⟩
    obtain ⟨q, hq, _⟩ := hr
    rw [ensurePersonalProject_taken hget hp hname] at hq
    cases hq

/-! ## Two users of one local part -/

/-- The digests of the two users' personal ids; any other text is its own digest. -/
def annDigest (text : String) : String :=
  if text = "project:65f000000000000000000001" then
    "d38b8bc0ed39ff85fe11a12eb78b41f0c718b7c18409069c82a96c80b6e303d9"
  else if text = "project:65f000000000000000000002" then
    "a8e2362c84cf33707a1950a72a3a57356eb27c61d54d96c512f20ffcbc58e53a"
  else text

/-- A host that folds the case of nothing, for texts already in lower case. -/
def annHost : Host where
  lower := id
  collate := id
  sha256 := annDigest
  decrypt := .ok

/-- A user of one host. -/
def annOfOne : User := { id := "65f000000000000000000001", email := "ann@one.org" }

/-- A user of another host, with the same local part. -/
def annOfTwo : User := { id := "65f000000000000000000002", email := "ann@two.org" }

/-- What the logins generate: times alone. -/
def loginGenerated : Generated where
  id := "65f00000000000000000000a"
  userId _ := "65f00000000000000000000b"
  token := "token"
  now := "2026-01-01T00:00:00.000Z"
  nowMicros := 1767225600000000

/-- The database of no records. -/
def emptyDb : Db ProjectDocuments where
  backend := .mongodb
  projects := .empty

/-- The first user's login alone. -/
def annLogin : List ProjectCall := [.login annOfOne 60 loginGenerated]

theorem annLogin_apart (user : User) (huser : user.id = annOfTwo.id) :
    DerivedApart annHost user annLogin where
  created _ _ _ hmem := by simp [annLogin] at hmem
  login v _ _ hmem hid := by
    simp only [annLogin, List.mem_singleton, ProjectCall.login.injEq] at hmem
    obtain ⟨rfl, _⟩ := hmem
    simp only [User.personalId, huser] at hid
    exact absurd hid (by decide)

/-- **The second user of the local part gets no project.** -/
theorem second_ann_has_none :
    annOfOne.id ≠ annOfTwo.id ∧ annOfOne.email ≠ annOfTwo.email ∧
    ¬ ReturnsPersonal annHost annOfTwo
      ((ensurePersonalProject annHost loginGenerated annOfTwo 60).run (exec annHost)
        (runCalls annHost annLogin emptyDb)) := by
  refine ⟨by decide, by decide, ?_⟩
  rintro ⟨p, hp, _⟩
  have hnone : ((ensurePersonalProject annHost loginGenerated annOfTwo 60).run (exec annHost)
      (runCalls annHost annLogin emptyDb)).1 = .ok none := rfl
  rw [hnone] at hp
  cases hp

/-- A user of the same id, whose email has another local part. -/
def annieOfTwo : User := { annOfTwo with email := "annie@two.org" }

/-- The theorem at the same run, for a name that is free. -/
theorem ensurePersonalProject_iff_annie :
    ReturnsPersonal annHost annieOfTwo
      ((ensurePersonalProject annHost loginGenerated annieOfTwo 60).run (exec annHost)
        (runCalls annHost annLogin emptyDb)) := by
  refine (ensurePersonalProject_iff (annLogin_apart annieOfTwo rfl) fun _ => rfl).mpr (.inr ?_)
  intro id p hp
  have hrows : ∀ p ∈ (runCalls annHost annLogin emptyDb).projects.rows,
      p.name ≠ annieOfTwo.personalName := by decide +kernel
  exact hrows p (Table.get_eq_some.mp hp).1

end Mss
