import Mss.PersonalProjects

/-!
# A deleted project is kept

Deleting a project takes its app tokens and the project away before the copy is inserted, and the
copy's id is the project's. After any run of creations, logins and deletions, a deletion keeps the
project exactly when no copy of its id is stored: a personal project is created again under its
derived id, so that its second deletion loses it.

* `KeepsDeleted`: the deletion succeeds and leaves a copy, or leaves the project stored.
* **`deleteProject_iff`**: after any run, when a deletion does so.
* **`deleteProject_first`**: the first deletion of an id in a run always does.
* `second_deletion_loses`: a personal project deleted, created again, and deleted.
-/

namespace Mss

open Atomic Storage Prog

variable {P : Type} [ProjectStore P] {h : Host} {g : Generated}

/-- Whether the deletion is refused: only a superuser deletes a personal project. -/
def isRefused (p : Project) (isSuperuser : Bool) : Bool := p.isPersonal && !isSuperuser

/-- The project is gone with its app tokens, and a copy with its balance and members is stored. -/
structure IsKept (p : Project) (db : Db P) : Prop where
  gone : KeyedStore.get db.projects p.id = none
  tokens : ∀ t ∈ db.appTokens.rows, t.projectId ≠ p.id
  copy : ∃ q, db.deletedProjects.get p.id = some q ∧ q.qpuSeconds = p.qpuSeconds ∧
    q.userIds = p.userIds ∧ q.adminId = p.adminId

/-- **A deletion keeps the project**: unless it is refused it succeeds and leaves a copy, and if
it raises the project is still stored. -/
structure KeepsDeleted (p : Project) (isSuperuser : Bool) (r : Except Exc Unit × Db P) :
    Prop where
  succeeds : isRefused p isSuperuser = false → r.1 = .ok () ∧ IsKept p r.2
  raises : ∀ e, r.1 = .error e → KeyedStore.get r.2.projects p.id = some p

/-! ## What a deletion does -/

/-- The database once the project and its app tokens are gone. -/
def afterRemoval (p : Project) (db : Db P) : Db P :=
  { db with
    appTokens := db.appTokens.eraseWhere ({ projectId := p.id : AppTokenFilter }).matches
    projects := KeyedStore.erase db.projects p.id }

variable {p : Project} {isSuperuser : Bool} {db : Db P}

theorem deleteProject_refused (hr : isRefused p isSuperuser = true) :
    (deleteProject g p isSuperuser).run (exec h) db =
      (.error (.forbidden "you cannot delete your own personal project"), db) := by
  simp only [isRefused] at hr
  simp [deleteProject, hr]

theorem deleteProject_run (hr : isRefused p isSuperuser = false) :
    (deleteProject g p isSuperuser).run (exec h) db =
      exec h (.insertDeletedProject (.ofProject p g.now)) (afterRemoval p db) := by
  simp only [isRefused] at hr
  have hins : ∀ db : Db P, ((call (.insertDeletedProject (.ofProject p g.now)) >>= ofExcept).run
      (exec h) db) = exec h (.insertDeletedProject (.ofProject p g.now)) db := by
    intro db
    obtain ⟨_, he⟩ | ⟨_, he⟩ := exec_insertDeletedProject (h := h) (.ofProject p g.now) db <;>
      simp [he]
  simp only [deleteProject, hr]
  exact hins _

theorem isKept_afterRemoval {now : String}
    (hp : (afterRemoval p db).deletedProjects.get (DeletedProject.ofProject p now).id = none) :
    IsKept p { afterRemoval p db with
      deletedProjects := (afterRemoval p db).deletedProjects.insert (.ofProject p now) hp } where
  gone := by
    change KeyedStore.get (KeyedStore.erase db.projects p.id) p.id = none
    rw [KeyedStore.get_erase, if_pos rfl]
  tokens t ht hid := by
    obtain ⟨_, hf⟩ := Table.mem_eraseWhere.mp ht
    simp [AppTokenFilter.matches, hid] at hf
  copy := by
    refine ⟨.ofProject p now, ?_, rfl, rfl, rfl⟩
    exact (Table.get_insert _ _ hp p.id).trans (if_pos rfl)

theorem keepsDeleted_iff (hp : KeyedStore.get db.projects p.id = some p) :
    KeepsDeleted p isSuperuser ((deleteProject g p isSuperuser).run (exec h) db) ↔
      isRefused p isSuperuser = true ∨ db.deletedProjects.get p.id = none := by
  cases hr : isRefused p isSuperuser with
  | true =>
    rw [deleteProject_refused hr]
    refine iff_of_true ⟨fun hn => ?_, fun _ _ => hp⟩ (.inl rfl)
    rw [hr] at hn
    cases hn
  | false =>
    rw [deleteProject_run hr]
    simp only [Bool.false_eq_true, false_or]
    obtain ⟨hnone, he⟩ | ⟨hsome, he⟩ := exec_insertDeletedProject (h := h)
      (.ofProject p g.now) (afterRemoval p db)
    · rw [he]
      refine iff_of_true ⟨fun _ => ⟨rfl, isKept_afterRemoval hnone⟩, fun e hc => by cases hc⟩ ?_
      exact hnone
    · rw [he]
      refine iff_of_false (fun hk => ?_) hsome
      cases (hk.succeeds hr).1

/-- **After any run, a deletion of a stored project keeps it exactly when it is refused or no copy
of its id is stored.** -/
theorem deleteProject_iff {calls : List ProjectCall}
    (hp : KeyedStore.get (runCalls h calls db).projects p.id = some p) :
    KeepsDeleted p isSuperuser
        ((deleteProject g p isSuperuser).run (exec h) (runCalls h calls db)) ↔
      isRefused p isSuperuser = true ∨
        (runCalls h calls db).deletedProjects.get p.id = none :=
  keepsDeleted_iff hp

/-! ## The first deletion of an id -/

/-- The ids of the deletions of a run. -/
def deletedIds (calls : List ProjectCall) : List Id :=
  calls.filterMap fun call => match call with
    | .delete projectId _ _ => some projectId
    | _ => none

/-- Every copy stored is of one of the ids. -/
def CopiesOf (ids : List Id) (db : Db P) : Prop :=
  ∀ id, db.deletedProjects.get id ≠ none → id ∈ ids

theorem copiesOf_insert {ids : List Id} {q : DeletedProject} (hq : q.id ∈ ids)
    (hdb : CopiesOf ids db) : CopiesOf ids (exec h (.insertDeletedProject q) db).2 := by
  obtain ⟨hnone, he⟩ | ⟨_, he⟩ := exec_insertDeletedProject (h := h) q db
  · rw [he]
    intro id hid
    rw [Table.get_insert] at hid
    split_ifs at hid with hk
    · exact hk ▸ hq
    · exact hdb id hid
  · rw [he]
    exact hdb

theorem copiesOf_other {ids : List Id} {o : Op} (ho : o.writes ≠ some .deletedProjects)
    (hdb : CopiesOf ids db) : CopiesOf ids (exec h o db).2 := by
  unfold CopiesOf
  rw [exec_deletedProjects ho]
  exact hdb

theorem copiesOf_deleteProject {ids : List Id} (hp : p.id ∈ ids) (hdb : CopiesOf ids db) :
    CopiesOf ids ((deleteProject g p isSuperuser).run (exec h) db).2 := by
  cases hr : isRefused p isSuperuser with
  | true =>
    rw [deleteProject_refused hr]
    exact hdb
  | false =>
    rw [deleteProject_run hr]
    exact copiesOf_insert hp hdb

theorem copiesOf_call {calls : List ProjectCall} {call : ProjectCall} (hcall : call ∈ calls)
    (hdb : CopiesOf (deletedIds calls) db) :
    CopiesOf (deletedIds calls) ((call.service h).run (exec h) db).2 := by
  have hother : ∀ o : Op, o.writes ≠ some .deletedProjects → ∀ db : Db P,
      CopiesOf (deletedIds calls) db → CopiesOf (deletedIds calls) (exec h o db).2 :=
    fun o ho db hdb => copiesOf_other ho hdb
  cases call with
  | create payload actor g =>
    refine run_invariant (I := CopiesOf (deletedIds calls)) ?_ hdb
    refine calls_bind (calls_createProject ?_ ?_ payload actor) fun _ => trivial
    · exact fun o ho => hother o (by cases o <;> simp_all [Op.isMembership, Op.writes])
    · exact fun p _ _ => hother _ (by simp [Op.writes])
  | login v qpuSeconds g =>
    refine run_invariant (I := CopiesOf (deletedIds calls)) ?_ hdb
    refine calls_bind (calls_ensurePersonalProject ?_ ?_) fun _ => trivial
    · exact hother _ (by simp [Op.writes])
    · exact hother _ (by simp [Op.writes])
  | delete projectId isSuperuser g =>
    have hmem : projectId ∈ deletedIds calls := List.mem_filterMap.mpr ⟨_, hcall, rfl⟩
    cases hget : KeyedStore.get db.projects projectId with
    | none => simpa [ProjectCall.service, getProject, exec, hget] using hdb
    | some p =>
      have hp : p.id ∈ deletedIds calls := by rwa [KeyedStore.key_of_get hget]
      simpa [ProjectCall.service, getProject, exec, hget] using copiesOf_deleteProject hp hdb

theorem deleteProject_first {calls : List ProjectCall} (hdb : ∀ id, db.deletedProjects.get id = none)
    (hp : KeyedStore.get (runCalls h calls db).projects p.id = some p)
    (hfirst : p.id ∉ deletedIds calls) :
    KeepsDeleted p isSuperuser
      ((deleteProject g p isSuperuser).run (exec h) (runCalls h calls db)) := by
  have hcopies : CopiesOf (deletedIds calls) (runCalls h calls db) :=
    runCalls_invariant (fun call hcall db => copiesOf_call hcall) fun id hid =>
      absurd (hdb id) hid
  refine (keepsDeleted_iff hp).mpr (.inr ?_)
  by_contra hne
  exact hfirst (hcopies _ hne)

/-! ## A personal project deleted twice -/

/-- The personal project of the first user, as a login creates it. -/
def annProject : Project := personalProject annHost loginGenerated annOfOne 60

/-- The user logs in, a superuser deletes their project, and they log in again. -/
def annReturns : List ProjectCall :=
  [.login annOfOne 60 loginGenerated, .delete annProject.id true loginGenerated,
    .login annOfOne 60 loginGenerated]

/-- **The second deletion raises, and the project is gone without a copy of its own.** -/
theorem second_deletion_loses :
    (runCalls annHost annReturns emptyDb).projects.get annProject.id = some annProject ∧
    isRefused annProject true = false ∧
    ¬ KeepsDeleted annProject true ((deleteProject loginGenerated annProject true).run
      (exec annHost) (runCalls annHost annReturns emptyDb)) := by
  refine ⟨by decide +kernel, rfl, fun hk => ?_⟩
  have hgone : ((deleteProject loginGenerated annProject true).run (exec annHost)
      (runCalls annHost annReturns emptyDb)).1 = .error .duplicateKey := rfl
  rw [(hk.succeeds rfl).1] at hgone
  cases hgone

/-- The theorem at a run of one login. -/
theorem deleteProject_iff_annLogin :
    KeepsDeleted annProject true ((deleteProject loginGenerated annProject true).run
      (exec annHost) (runCalls annHost annLogin emptyDb)) :=
  (deleteProject_iff (by decide +kernel)).mpr (.inr (by decide +kernel))

end Mss
