import Mathlib.Data.Fintype.Option
import Mss.QpuLedger

/-!
# The copy of a deleted project

A deletion inserts as the copy the project its caller read operations earlier. Deletions of a
project run at once with charges, grants and changes of its members, one operation of the database
at a time: the copy is the project's last state when no change of its balance, members or admin
falls between a deletion's read and the end of that deletion.

* `ClosingTask`: the calls; `removals`: the projects taken away, as they were.
* `KeepsLastState`: one removal at most, and its project's last state is that of the copy.
* `ChangesUnread`: the condition, as a guard on each step.
* **`keepsLastState_of_changesUnread`**: in every interleaving whose steps meet the condition,
  the copy is the last state once all calls have returned.
* `grant_missing_from_copy`: a grant between the read and the removal is not in the copy.
-/

namespace Mss

open Atomic Storage Prog

/-! ## The calls -/

/-- **The calls that run at once**: the three callers of `deleteProject`, each from its read of the
project on, and the operations that change a project. -/
inductive ClosingTask
  | destroy (projectId userId : Id) (g : Generated)
  | adminDelete (projectId : Id) (g : Generated)
  | close (request : Request) (g : Generated)
  | increment (projectId : Option Id) (qpuSeconds : ℚ)
  | addMember (projectId userId : Id)
  | setAdmin (projectId userId : Id)
  | removeMember (project : Project) (memberId : Id) (actor : User)
  | updateProject (project : Project) (payload : ProjectUpdate) (actor : User) (g : Generated)

/-- The program of a call. -/
def ClosingTask.service (h : Host) : ClosingTask → Service Unit
  | .destroy projectId userId g => destroyRoute g projectId userId
  | .adminDelete projectId g => deleteProjectRoute g projectId
  | .close request g => closeProject g request
  | .increment projectId qpuSeconds => do
    let _ ← incrementQpuSeconds projectId qpuSeconds
  | .addMember projectId userId => do
    let _ ← Mss.addMember projectId userId
  | .setAdmin projectId userId => do
    let _ ← Mss.setAdmin projectId userId
  | .removeMember project memberId actor => do
    let _ ← Mss.removeMember project memberId actor
  | .updateProject project payload actor g => do
    let _ ← Mss.updateProject h g project payload actor

/-! ## The last state -/

/-- The state of a project that its copy is to keep: its balance, members and admin. -/
structure LastState where
  qpuSeconds : ℚ
  userIds : List Id
  adminId : Id
  deriving DecidableEq, Repr

/-- The project's balance, members and admin. -/
def Project.lastState (p : Project) : LastState := ⟨p.qpuSeconds, p.userIds, p.adminId⟩

@[simp] theorem lastState_ofProject (p : Project) (now : String) :
    (DeletedProject.ofProject p now).lastState = p.lastState := rfl

/-- The project the event took away, if it did. -/
def removal (pid : Id) : Event Resp → Option Project
  | ⟨.deleteProject id, some p⟩ => if id = pid then some p else none
  | _ => none

/-- **The projects of the id taken away**, as they were, in the order they were. -/
def removals {ι : Type} (pid : Id) (trace : List (ι × Event Resp)) : List Project :=
  trace.filterMap fun x => removal pid x.2

theorem removals_append {ι : Type} (pid : Id) (trace : List (ι × Event Resp)) (i : ι)
    (e : Event Resp) :
    removals pid (trace ++ [(i, e)]) = removals pid trace ++ (removal pid e).toList := by
  simp only [removals, List.filterMap_append, List.append_cancel_left_eq]
  cases he : removal pid e <;> simp [he]

variable {P : Type} [ProjectStore P] {ι : Type} [DecidableEq ι] {pid : Id}

/-- **The copy is the last state**: the project was not taken away and has no copy, or it was
once, and the one copy of its id has the balance, members and admin it had then. -/
def KeepsLastState (pid : Id) (c : Config (Db P) ι Resp Exc Unit) : Prop :=
  (removals pid c.trace = [] ∧ c.store.deletedProjects.get pid = none) ∨
  ∃ p copy, removals pid c.trace = [p] ∧ KeyedStore.get c.store.projects pid = none ∧
    c.store.deletedProjects.get pid = some copy ∧ copy.lastState = p.lastState

/-! ## The condition -/

/-- The event read the project. -/
def isRead (pid : Id) : Event Resp → Bool
  | ⟨.getProject id, some _⟩ => id = pid
  | _ => false

/-- Whether the event changed the stored project's balance, members or admin. -/
def changesState (pid : Id) (before : Option Project) : Event Resp → Bool
  | ⟨.updateProject id _, .ok (some after)⟩ =>
    id = pid ∧ before.map (·.lastState) ≠ some after.lastState
  | _ => false

/-- **The condition**: a step that changes the project's balance, members or admin finds every
call that has read the project for its deletion at its end. -/
def ChangesUnread (pid : Id) (c : Config (Db P) ι Resp Exc Unit) (_ : ι) (e : Event Resp) : Prop :=
  changesState pid (KeyedStore.get c.store.projects pid) e = true →
    ∀ j, (c.mine j).any (isRead pid) = true → (c.pool j).Done

instance [Fintype ι] (c : Config (Db P) ι Resp Exc Unit) (i : ι) (e : Event Resp) :
    Decidable (ChangesUnread pid c i e) :=
  inferInstanceAs (Decidable (_ → ∀ j, _ → (c.pool j).Done))

/-! ## The protocol of a call -/

/-- Where a call is: the project it read, whether it has removed it, and whether it has tried to
insert the copy. -/
structure ClosingPhase where
  read : Option Project := none
  removed : Bool := false
  inserted : Bool := false

/-- **What a call does to a project and its copy**: it removes only a project it has read, and
inserts as the copy what it read, after the removal. -/
def closingProtocol (pid : Id) : Protocol Resp Exc Unit ClosingPhase where
  next m e := match e with
    | ⟨.getProject id, some p⟩ => if id = pid then { m with read := some p } else m
    | ⟨.deleteProject id, _⟩ => if id = pid then { m with removed := true } else m
    | ⟨.insertDeletedProject q, _⟩ => if q.id = pid then { m with inserted := true } else m
    | _ => m
  assumes _ e := ∀ id p, e = ⟨.getProject id, some p⟩ → p.id = id
  allows m e := match e.1 with
    | .insertProject _ => False
    | .deleteProject id => id = pid → ∃ p, m.read = some p
    | .insertDeletedProject q => q.id = pid → m.removed = true ∧
        ∃ p, m.read = some p ∧ q.lastState = p.lastState
    | _ => True
  ends m _ := m.removed = true → m.inserted = true

/-- Operations that neither read, insert nor delete a project, and insert no copy. -/
def Op.isAside : Op → Bool
  | .getProject _ | .insertProject _ | .deleteProject _ | .insertDeletedProject _ => false
  | _ => true

theorem silent_of_isAside {o : Op} (ho : o.isAside) : Silent (closingProtocol pid) o := by
  intro m r
  cases o <;> first | exact ⟨trivial, rfl⟩ | cases ho

theorem isAside_of_isMembership (o : Op) (ho : o.isMembership) : o.isAside := by
  cases o <;> first | rfl | cases ho

theorem follows_of_isAside {m : ClosingPhase} {p : Service Unit} (hp : p.Calls (Op.isAside ·))
    (hm : m.removed = true → m.inserted = true) : Follows (closingProtocol pid) m p :=
  follows_silent (hp.mono fun _ => silent_of_isAside) fun _ => hm

/-- **A deletion of the project read follows the protocol.** -/
theorem follows_deleteProject {g : Generated} {project : Project} {isSuperuser : Bool} {id : Id}
    (hid : project.id = id) :
    Follows (closingProtocol pid)
      ((closingProtocol pid).next {} ⟨.getProject id, some project⟩)
      (deleteProject g project isSuperuser) := by
  subst hid
  unfold deleteProject
  split_ifs
  · by_cases hpid : project.id = pid <;> simp [closingProtocol, hpid]
  · refine follows_perform_bind.mpr fun _ _ => ⟨trivial, ?_⟩
    refine follows_perform_bind.mpr fun _ _ => ⟨?_, ?_⟩
    · intro hpid
      exact ⟨project, by simp [closingProtocol, hpid]⟩
    · refine follows_perform_bind.mpr fun r _ => ⟨?_, ?_⟩
      · intro hpid
        rw [DeletedProject.ofProject_id] at hpid
        exact ⟨by simp [closingProtocol, hpid], project, by simp [closingProtocol, hpid], rfl⟩
      · refine follows_of_isAside (calls_ofExcept r) ?_
        by_cases hpid : project.id = pid <;> simp [closingProtocol, hpid]

theorem follows_deletion {g : Generated} {id : Id} {f : Option Project → Service Unit}
    (hnone : (f none).Calls (Op.isAside ·))
    (hsome : ∀ p, (f (some p)).Calls (Op.isAside ·) ∨
      ∃ isSuperuser, f (some p) = deleteProject g p isSuperuser) :
    Follows (closingProtocol pid) {} (call (.getProject id) >>= f) := by
  refine follows_perform_bind.mpr fun r hr => ⟨trivial, ?_⟩
  cases r with
  | none => exact follows_of_isAside hnone (by simp [closingProtocol])
  | some p =>
    obtain hp | ⟨isSuperuser, hp⟩ := hsome p
    · refine follows_of_isAside hp ?_
      by_cases hpid : id = pid <;> simp [closingProtocol, hpid]
    · rw [hp]
      exact follows_deleteProject (hr id p rfl)

theorem follows_closingTask (h : Host) (pid : Id) (task : ClosingTask) :
    Follows (closingProtocol pid) {} (task.service h) := by
  have haside : ∀ p : Service Unit, p.Calls (Op.isAside ·) → Follows (closingProtocol pid) {} p :=
    fun p hp => follows_of_isAside hp (by simp)
  cases task with
  | destroy projectId userId g =>
    change Follows _ _ (getProjectOrMissing projectId >>= _)
    rw [getProjectOrMissing_eq, bind_assoc]
    refine follows_deletion (g := g) trivial fun p => ?_
    change Prog.Calls _ (if userId ≠ p.adminId then _ else _) ∨
      ∃ _, (if userId ≠ p.adminId then _ else _) = _
    by_cases hadmin : userId ≠ p.adminId
    · rw [if_pos hadmin]
      exact .inl trivial
    · rw [if_neg hadmin]
      exact .inr ⟨false, rfl⟩
  | adminDelete projectId g =>
    change Follows _ _ (getProjectOr404 projectId >>= _)
    unfold getProjectOr404
    split_ifs
    · rw [getProjectOrMissing_eq, bind_assoc]
      exact follows_deletion (g := g) trivial fun p => .inr ⟨true, rfl⟩
    · exact haside _ trivial
  | close request g =>
    change Follows _ _ (getActedProject request.resourceId >>= _)
    rw [getActedProject_eq, bind_assoc]
    exact follows_deletion (g := g) trivial fun p => .inr ⟨true, rfl⟩
  | increment projectId qpuSeconds =>
    refine haside _ (calls_bind ?_ fun _ => trivial)
    cases projectId with
    | none => trivial
    | some projectId => exact calls_updateOne rfl
  | addMember projectId userId =>
    exact haside _ (calls_bind (calls_updateOne rfl) fun _ => trivial)
  | setAdmin projectId userId =>
    exact haside _ (calls_bind (calls_updateOne rfl) fun _ => trivial)
  | removeMember project memberId actor =>
    refine haside _ (calls_bind (calls_removeMember ?_ (fun _ => rfl) rfl) fun _ => trivial)
    exact isAside_of_isMembership
  | updateProject project payload actor g =>
    refine haside _ (calls_bind (calls_updateProject ?_ (fun _ => rfl) fun _ _ => rfl)
      fun _ => trivial)
    exact isAside_of_isMembership

/-! ## The invariant -/

/-- The programs of the calls. -/
abbrev closingPool (h : Host) (tasks : ι → ClosingTask) (i : ι) : Service Unit :=
  (tasks i).service h

/-- The phase of a call. -/
abbrev closingPhase (pid : Id) (c : Config (Db P) ι Resp Exc Unit) (i : ι) : ClosingPhase :=
  c.phase (fun _ => closingProtocol pid) (fun _ => {}) i

/-- The project has not been taken away, and whoever has read it read its present state. -/
structure StillThere (pid : Id) (c : Config (Db P) ι Resp Exc Unit) : Prop where
  removals : removals pid c.trace = []
  copy : c.store.deletedProjects.get pid = none
  removed : ∀ j, (closingPhase pid c j).removed ≠ true
  inserted : ∀ j, (closingPhase pid c j).inserted ≠ true
  read : ∀ j q, (closingPhase pid c j).read = some q → ¬ (c.pool j).Done →
    ∃ p, KeyedStore.get c.store.projects pid = some p ∧ q.lastState = p.lastState

/-- The project was taken away as `p`, which is what whoever has read it read. -/
structure TakenAway (pid : Id) (p : Project) (c : Config (Db P) ι Resp Exc Unit) : Prop where
  removals : removals pid c.trace = [p]
  gone : KeyedStore.get c.store.projects pid = none
  copy : ∀ copy, c.store.deletedProjects.get pid = some copy → copy.lastState = p.lastState
  removed : ∃ j, (closingPhase pid c j).removed = true
  inserted : ∀ j, (closingPhase pid c j).inserted = true →
    c.store.deletedProjects.get pid ≠ none
  read : ∀ j q, (closingPhase pid c j).read = some q → ¬ (c.pool j).Done →
    q.lastState = p.lastState

section Phase

variable {m : ClosingPhase} {e : Event Resp} {q : Project}

theorem read_next (hq : ((closingProtocol pid).next m e).read = some q) :
    e = ⟨.getProject pid, some q⟩ ∨ m.read = some q := by
  obtain ⟨o, r⟩ := e
  cases o with
  | getProject id =>
    cases r with
    | none => exact .inr hq
    | some p =>
      by_cases hid : id = pid
      · subst hid
        simp only [closingProtocol, if_true, Option.some.injEq] at hq
        exact .inl (by rw [hq])
      · exact .inr (by simpa [closingProtocol, hid] using hq)
  | deleteProject id =>
    by_cases hid : id = pid <;> exact .inr (by simpa [closingProtocol, hid] using hq)
  | insertDeletedProject p =>
    by_cases hid : p.id = pid <;> exact .inr (by simpa [closingProtocol, hid] using hq)
  | _ => exact .inr hq

theorem removed_next (hm : m.removed = true) :
    ((closingProtocol pid).next m e).removed = true := by
  simp only [closingProtocol]
  split <;> (try split_ifs) <;> first | rfl | exact hm

theorem removed_of_next (hm : ((closingProtocol pid).next m e).removed = true) :
    (∃ r, e = ⟨.deleteProject pid, r⟩) ∨ m.removed = true := by
  obtain ⟨o, r⟩ := e
  cases o with
  | getProject id =>
    cases r with
    | none => exact .inr hm
    | some p => by_cases hid : id = pid <;> exact .inr (by simpa [closingProtocol, hid] using hm)
  | deleteProject id =>
    by_cases hid : id = pid
    · exact .inl ⟨r, by rw [hid]⟩
    · exact .inr (by simpa [closingProtocol, hid] using hm)
  | insertDeletedProject p =>
    by_cases hid : p.id = pid <;> exact .inr (by simpa [closingProtocol, hid] using hm)
  | _ => exact .inr hm

theorem inserted_of_next (hm : ((closingProtocol pid).next m e).inserted = true) :
    (∃ p r, p.id = pid ∧ e = ⟨.insertDeletedProject p, r⟩) ∨ m.inserted = true := by
  obtain ⟨o, r⟩ := e
  cases o with
  | getProject id =>
    cases r with
    | none => exact .inr hm
    | some p => by_cases hid : id = pid <;> exact .inr (by simpa [closingProtocol, hid] using hm)
  | deleteProject id =>
    by_cases hid : id = pid <;> exact .inr (by simpa [closingProtocol, hid] using hm)
  | insertDeletedProject p =>
    by_cases hid : p.id = pid
    · exact .inl ⟨p, r, hid, rfl⟩
    · exact .inr (by simpa [closingProtocol, hid] using hm)
  | _ => exact .inr hm

end Phase

section Step

variable {h : Host} {i : ι} {e : Event Resp} {c c' : Config (Db P) ι Resp Exc Unit}
  {p : Project}

theorem done_of_changes (hguard : ChangesUnread pid c i e)
    (hchange : changesState pid (KeyedStore.get c.store.projects pid) e = true) {j : ι}
    {q : Project} (hq : (closingPhase pid c j).read = some q) : (c.pool j).Done := by
  have htold := Config.exists_of_phase (fun m : ClosingPhase => m.read = some q)
    (fun e => e = ⟨.getProject pid, some q⟩) hq fun _ _ => read_next
  obtain ⟨_, hmem, rfl⟩ | hnone := htold
  · exact hguard hchange j (List.any_eq_true.mpr ⟨_, hmem, by simp [isRead]⟩)
  · cases hnone

theorem reader_before (hs : StepBy (exec h) i e c c') {j : ι} {q : Project}
    (hq : (closingPhase pid c' j).read = some q) (hj : ¬ (c'.pool j).Done) :
    (e = ⟨.getProject pid, some q⟩ ∧ KeyedStore.get c.store.projects pid = some q) ∨
      ((closingPhase pid c j).read = some q ∧ ¬ (c.pool j).Done) := by
  by_cases hij : j = i
  · subst hij
    rw [closingPhase, hs.phase_self] at hq
    obtain rfl | hq := read_next hq
    · exact .inl ⟨rfl, hs.resp⟩
    · exact .inr ⟨hq, hs.not_done⟩
  · rw [closingPhase, hs.phase_ne _ _ hij] at hq
    rw [hs.pool_ne hij] at hj
    exact .inr ⟨hq, hj⟩

theorem removed_step (hs : StepBy (exec h) i e c c') {j : ι}
    (hj : (closingPhase pid c' j).removed = true) :
    (∃ r, j = i ∧ e = ⟨.deleteProject pid, r⟩) ∨ (closingPhase pid c j).removed = true := by
  by_cases hij : j = i
  · subst hij
    rw [closingPhase, hs.phase_self] at hj
    exact (removed_of_next hj).imp_left fun ⟨r, he⟩ => ⟨r, rfl, he⟩
  · rw [closingPhase, hs.phase_ne _ _ hij] at hj
    exact .inr hj

theorem inserted_step (hs : StepBy (exec h) i e c c') {j : ι}
    (hj : (closingPhase pid c' j).inserted = true) :
    (∃ p r, p.id = pid ∧ e = ⟨.insertDeletedProject p, r⟩) ∨
      (closingPhase pid c j).inserted = true := by
  by_cases hij : j = i
  · subst hij
    rw [closingPhase, hs.phase_self] at hj
    exact inserted_of_next hj
  · rw [closingPhase, hs.phase_ne _ _ hij] at hj
    exact .inr hj

theorem lastState_step (hs : StepBy (exec h) i e c c')
    (hinsert : ∀ q, e.1 ≠ .insertProject q) (hremoval : ∀ r, e ≠ ⟨.deleteProject pid, r⟩)
    (hchange : changesState pid (KeyedStore.get c.store.projects pid) e ≠ true)
    (hp : KeyedStore.get c.store.projects pid = some p) :
    ∃ p', KeyedStore.get c'.store.projects pid = some p' ∧ p'.lastState = p.lastState := by
  rw [step_projects hs, hp]
  by_cases hupdate : ∃ u q, e = ⟨.updateProject pid u, .ok (some q)⟩
  · obtain ⟨u, q, rfl⟩ := hupdate
    obtain ⟨p₀, hp₀, rfl⟩ := updated_of_answer hs.resp
    rw [hp] at hp₀
    cases hp₀
    refine ⟨p.apply u, by simp [projectAfter], ?_⟩
    have hsame : p.lastState = (p.apply u).lastState := by simpa [changesState, hp] using hchange
    exact hsame.symm
  · have hupdate : ∀ u q, e ≠ ⟨.updateProject pid u, .ok (some q)⟩ :=
      fun u q he => hupdate ⟨u, q, he⟩
    exact ⟨p, projectAfter_eq_self hinsert hupdate hremoval, rfl⟩

theorem copy_step (hs : StepBy (exec h) i e c c')
    (hcopy : c.store.deletedProjects.get pid ≠ none) :
    c'.store.deletedProjects.get pid ≠ none := by
  rw [step_copies hs]
  unfold copyAfter
  split
  · split_ifs
    · exact Option.some_ne_none _
    · exact hcopy
  · exact hcopy

theorem copy_inserted {q : DeletedProject} {r : Resp (.insertDeletedProject q)}
    (hs : StepBy (exec h) i ⟨.insertDeletedProject q, r⟩ c c') :
    c'.store.deletedProjects.get q.id ≠ none := by
  obtain ⟨_, he⟩ | ⟨hne, he⟩ := exec_insertDeletedProject (h := h) q c.store
  · rw [hs.store, he]
    simp [Table.get_insert]
  · rw [hs.store, he]
    exact hne

/-- **A removal of the project takes it away as it is.** -/
theorem StillThere.remove {r : Option Project} (hinv : StillThere pid c)
    (hs : StepBy (exec h) i ⟨.deleteProject pid, r⟩ c c')
    (hallow : (closingProtocol pid).allows (closingPhase pid c i) ⟨.deleteProject pid, r⟩) :
    ∃ p, TakenAway pid p c' := by
  obtain ⟨q, hq⟩ := hallow rfl
  obtain ⟨p, hp, hqp⟩ := hinv.read i q hq hs.not_done
  obtain rfl : some p = r := hp ▸ hs.resp
  refine ⟨p, ?_, ?_, ?_, ⟨i, ?_⟩, ?_, ?_⟩
  · rw [hs.trace, removals_append, hinv.removals]
    simp [removal]
  · rw [step_projects hs]
    simp [projectAfter]
  · intro copy hcopy
    rw [step_copies hs] at hcopy
    exact absurd (hinv.copy.symm.trans hcopy) (by simp)
  · rw [closingPhase, hs.phase_self]
    simp [closingProtocol]
  · intro j hj
    obtain ⟨_, _, _, he⟩ | hj := inserted_step hs hj
    · cases he
    · exact (hinv.inserted j hj).elim
  · intro j q' hq' hj
    obtain ⟨he, _⟩ | ⟨hq', hj⟩ := reader_before hs hq' hj
    · cases he
    · obtain ⟨p', hp', hqp'⟩ := hinv.read j q' hq' hj
      rw [hp] at hp'
      cases hp'
      exact hqp'

theorem StillThere.stay (hinv : StillThere pid c) (hs : StepBy (exec h) i e c c')
    (hallow : (closingProtocol pid).allows (closingPhase pid c i) e)
    (hguard : ChangesUnread pid c i e) (hremoval : ∀ r, e ≠ ⟨.deleteProject pid, r⟩) :
    StillThere pid c' := by
  have hinsert : ∀ q, e.1 ≠ .insertProject q := fun q he => by
    simp [closingProtocol, he] at hallow
  have hcopies : ∀ q r, q.id = pid → e ≠ ⟨.insertDeletedProject q, r⟩ := by
    rintro q r hq rfl
    exact hinv.removed i (hallow hq).1
  refine ⟨?_, ?_, ?_, ?_, ?_⟩
  · rw [hs.trace, removals_append, hinv.removals]
    obtain ⟨o, r⟩ := e
    cases o with
    | deleteProject id =>
      have hid : id ≠ pid := fun hid => hremoval r (by rw [hid])
      cases r <;> simp [removal, hid]
    | _ => rfl
  · rw [step_copies hs, hinv.copy]
    obtain ⟨o, r⟩ := e
    cases o with
    | insertDeletedProject q =>
      have hq : pid ≠ q.id := fun hq => hcopies q r hq.symm rfl
      match r with
      | .ok () => simp [copyAfter, hq]
      | .error _ => rfl
    | _ => rfl
  · intro j hj
    obtain ⟨r, -, he⟩ | hj := removed_step hs hj
    · exact hremoval r he
    · exact hinv.removed j hj
  · intro j hj
    obtain ⟨q, r, hq, he⟩ | hj := inserted_step hs hj
    · exact hcopies q r hq he
    · exact hinv.inserted j hj
  · intro j q hq hj
    by_cases hchange : changesState pid (KeyedStore.get c.store.projects pid) e = true
    · obtain ⟨rfl, _⟩ | ⟨hq, hj⟩ := reader_before hs hq hj
      · cases hchange
      · exact (hj (done_of_changes hguard hchange hq)).elim
    · obtain ⟨rfl, hp⟩ | ⟨hq, hj⟩ := reader_before hs hq hj
      · exact ⟨q, (step_projects hs pid).trans hp, rfl⟩
      · obtain ⟨p, hp, hqp⟩ := hinv.read j q hq hj
        obtain ⟨p', hp', hpp'⟩ := lastState_step hs hinsert hremoval hchange hp
        exact ⟨p', hp', hqp.trans hpp'.symm⟩

/-- **Every step after the removal leaves the project taken away as it was.** -/
theorem TakenAway.step (hinv : TakenAway pid p c) (hs : StepBy (exec h) i e c c')
    (hallow : (closingProtocol pid).allows (closingPhase pid c i) e) : TakenAway pid p c' := by
  -- no call can insert the project any more, and none reads it
  have hinsert : ∀ q, e.1 ≠ .insertProject q := fun q he => by
    simp [closingProtocol, he] at hallow
  have hreads : ∀ q, e ≠ ⟨.getProject pid, some q⟩ := by
    rintro q rfl
    exact absurd (hinv.gone.symm.trans hs.resp) (by simp)
  refine ⟨?_, ?_, ?_, ?_, ?_, ?_⟩
  · rw [hs.trace, removals_append, hinv.removals]
    have hresp := hs.resp
    obtain ⟨o, r⟩ := e
    cases o with
    | deleteProject id =>
      by_cases hid : id = pid
      · subst hid
        obtain rfl : none = r := hinv.gone ▸ hresp
        rfl
      · cases r <;> simp [removal, hid]
    | _ => rfl
  · rw [step_projects hs, hinv.gone]
    obtain ⟨o, r⟩ := e
    cases o with
    | insertProject q => exact (hinsert q rfl).elim
    | updateProject id u =>
      rcases r with _ | _ | q
      · rfl
      · rfl
      · simp [projectAfter]
    | deleteProject id => simp [projectAfter]
    | _ => rfl
  · intro copy hcopy
    rw [step_copies hs] at hcopy
    obtain ⟨o, r⟩ := e
    cases o with
    | insertDeletedProject q =>
      cases r with
      | error _ => exact hinv.copy copy hcopy
      | ok _ =>
        by_cases hq : pid = q.id
        · obtain ⟨-, p', hp', hqp⟩ := hallow hq.symm
          simp only [copyAfter, hq, if_true, Option.some.injEq] at hcopy
          rw [← hcopy, hqp]
          exact hinv.read i p' hp' hs.not_done
        · simp only [copyAfter, hq, if_false] at hcopy
          exact hinv.copy copy hcopy
    | _ => exact hinv.copy copy hcopy
  · obtain ⟨j, hj⟩ := hinv.removed
    refine ⟨j, ?_⟩
    by_cases hij : j = i
    · subst hij
      rw [closingPhase, hs.phase_self]
      exact removed_next hj
    · rwa [closingPhase, hs.phase_ne _ _ hij]
  · intro j hj
    obtain ⟨q, r, rfl, rfl⟩ | hj := inserted_step hs hj
    · exact copy_inserted hs
    · exact copy_step hs (hinv.inserted j hj)
  · intro j q hq hj
    obtain ⟨he, _⟩ | ⟨hq, hj⟩ := reader_before hs hq hj
    · exact (hreads q he).elim
    · exact hinv.read j q hq hj

end Step

/-- **The invariant**: the project is still there, or was taken away once. -/
def ClosingInv (pid : Id) (c : Config (Db P) ι Resp Exc Unit) : Prop :=
  StillThere pid c ∨ ∃ p, TakenAway pid p c

theorem ClosingInv.step {h : Host} {i : ι} {e : Event Resp} {c c' : Config (Db P) ι Resp Exc Unit}
    (hinv : ClosingInv pid c) (hguard : ChangesUnread pid c i e) (hs : StepBy (exec h) i e c c')
    (hallow : (closingProtocol pid).allows (closingPhase pid c i) e) : ClosingInv pid c' := by
  obtain hstill | ⟨p, htaken⟩ := hinv
  · by_cases hremoval : ∃ r, e = ⟨.deleteProject pid, r⟩
    · obtain ⟨r, rfl⟩ := hremoval
      exact .inr (hstill.remove hs hallow)
    · exact .inl (hstill.stay hs hallow hguard (not_exists.mp hremoval))
  · exact .inr ⟨p, htaken.step hs hallow⟩

/-- **The copy of a deleted project is its last state**, in every interleaving in which no change
of its balance, members or admin falls between a deletion's read and that deletion's end. -/
theorem keepsLastState_of_changesUnread (h : Host) (tasks : ι → ClosingTask) {db : Db P}
    (hcopy : db.deletedProjects.get pid = none) {c : Config (Db P) ι Resp Exc Unit}
    (hr : Reach (exec h) (ChangesUnread pid) (Config.start db (closingPool h tasks)) c)
    (hdone : c.AllDone) : KeepsLastState pid c := by
  have hstart : ClosingInv pid (Config.start db (closingPool h tasks)) :=
    .inl ⟨rfl, hcopy, fun _ => by simp, fun _ => by simp, fun _ _ hq => by simp at hq⟩
  obtain ⟨hf, hinv⟩ := hr.invariant (fun _ => closingProtocol pid) (fun _ => {}) (ClosingInv pid)
    (fun i => follows_closingTask h pid (tasks i)) hstart
    (fun c i e c' _ _ _ hs => by
      rintro id p rfl
      exact KeyedStore.key_of_get hs.resp)
    (fun c i e c' _ _ hinv hguard hs hallow => hinv.step hguard hs hallow)
  obtain hstill | ⟨p, htaken⟩ := hinv
  · exact .inl ⟨hstill.removals, hstill.copy⟩
  · obtain ⟨j, hj⟩ := htaken.removed
    obtain ⟨_, hends, -⟩ := hf.ends (hdone j)
    obtain ⟨copy, hstored⟩ := Option.ne_none_iff_exists'.mp (htaken.inserted j (hends hj))
    exact .inr ⟨p, copy, htaken.removals, htaken.gone, hstored, htaken.copy copy hstored⟩

/-! ## A deletion and a grant at once -/

/-- A superuser deletes the project, its admin does too, and 30 seconds are granted. -/
def closingTasks : Option Bool → ClosingTask
  | none => .adminDelete labProject.id labGenerated
  | some false => .destroy labProject.id labAdmin.id labGenerated
  | some true => .increment (some labProject.id) 30

/-- The calls at their start. -/
def closingStart : Config (Db ProjectDocuments) (Option Bool) Resp Exc Unit :=
  Config.start (labDb .mongodb labDocuments) (closingPool labHost closingTasks)

/-- The grant comes first, then the two deletions turn by turn. -/
def grantedFirst : List (Option Bool) :=
  [some true, none, some false, none, some false, none, some false, none, some false]

/-- The superuser reads the project, the grant is made, and the project is deleted. -/
def grantedMeanwhile : List (Option Bool) := [none, some true, none, none, none, some false]

/-- The theorem at an interleaving of two deletions: the copy has 130 seconds. -/
theorem keepsLastState_of_changesUnread_lab :
    KeepsLastState labProject.id (closingStart.schedule (exec labHost) grantedFirst) ∧
    ((closingStart.schedule (exec labHost) grantedFirst).store.deletedProjects.get
      labProject.id).map (·.qpuSeconds) = some 130 :=
  ⟨keepsLastState_of_changesUnread labHost closingTasks (by decide +kernel)
    (reach_schedule_of_obeys (by decide +kernel)) (by decide +kernel), by decide +kernel⟩

/-- **A grant between a deletion's read and its removal is missing from the copy**: 130 seconds
are taken away, and the copy has 100. -/
theorem grant_missing_from_copy :
    ∃ c, Reach (exec labHost) anyStep closingStart c ∧ c.AllDone ∧
      (removals labProject.id c.trace).map (·.qpuSeconds) = [130] ∧
      (c.store.deletedProjects.get labProject.id).map (·.qpuSeconds) = some 100 ∧
      ¬ KeepsLastState labProject.id c := by
  refine ⟨closingStart.schedule (exec labHost) grantedMeanwhile, reach_schedule _ _ _,
    by decide +kernel, by decide +kernel, by decide +kernel, ?_⟩
  have hremovals : (removals labProject.id (closingStart.schedule (exec labHost)
      grantedMeanwhile).trace).map (·.qpuSeconds) = [130] := by decide +kernel
  have hcopy : ((closingStart.schedule (exec labHost) grantedMeanwhile).store.deletedProjects.get
      labProject.id).map (·.qpuSeconds) = some 100 := by decide +kernel
  rintro (⟨hnone, -⟩ | ⟨p, copy, hp, -, hstored, hsame⟩)
  · rw [hnone] at hremovals
    cases hremovals
  · rw [hp, List.map_singleton, List.singleton_inj] at hremovals
    rw [hstored, Option.map_some, Option.some.injEq] at hcopy
    have hseconds : copy.qpuSeconds = p.qpuSeconds := congrArg LastState.qpuSeconds hsame
    rw [hcopy, hremovals] at hseconds
    exact absurd hseconds (by decide +kernel)

end Mss
