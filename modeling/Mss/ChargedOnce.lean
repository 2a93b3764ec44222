import Mss.QpuLedger

/-!
# A job is charged once

A job's first report of its usage is to be charged, and no later one. Whether one came before is
told from the job's stored timestamps, which each event that sends any replaces whole. The total
charged is the first usage reported exactly when the stored timestamps tell so at each report.

* `JobEvent`, `handleEvents`: an event of the job, and the database after a run of them.
* `firstUsage`: the usage the first event that reports one reports; `IsChargedOnce`.
* `keptUsage`, `TellsCharged`: the usage the stored timestamps tell, and when that is right.
* **`isChargedOnce_iff`**: a run charges once exactly when that is right at each of its events.
* `charged_again`: a report, then timestamps without an execution, then a report.
-/

namespace Mss

open Atomic Storage Prog

/-! ## Events and what they report -/

/-- An event that a job was updated, with what its handling generates. -/
structure JobEvent where
  sent : SentJobUpdate
  generated : Generated

/-- The usage the event reports, if any. -/
def JobEvent.usage (e : JobEvent) : Option ℚ := e.sent.timestamps.bind (·.resourceUsage)

/-- **The usage of the first event that reports one**, and nothing if none does. -/
def firstUsage (events : List JobEvent) : ℚ := (events.findSome? JobEvent.usage).getD 0

/-- The timestamps the database keeps of the job after the events: the last ones sent. -/
def keptTimestamps (b : Backend) (job : Job) (events : List JobEvent) : Option JobTimestamps :=
  (events.filterMap (·.sent.timestamps)).getLast?.map (.stored b) <|> job.timestamps

/-- The usage that the kept timestamps tell. -/
def keptUsage (b : Backend) (job : Job) (events : List JobEvent) : Option ℚ :=
  (keptTimestamps b job events).bind (·.resourceUsage)

/-- **The kept timestamps tell whether the job was charged** when the event comes: if it reports
some time, they tell no usage exactly when no earlier event reported one. -/
def TellsCharged (b : Backend) (job : Job) (before : List JobEvent) (e : JobEvent) : Prop :=
  e.usage.getD 0 ≠ 0 → (keptUsage b job before = none ↔ ∀ e' ∈ before, e'.usage = none)

instance (b : Backend) (job : Job) (before : List JobEvent) (e : JobEvent) :
    Decidable (TellsCharged b job before e) :=
  inferInstanceAs (Decidable (_ → (_ ↔ ∀ e' ∈ before, _)))

/-! ## A run of events -/

variable {P : Type} [ProjectStore P]

/-- The database after the events, handled in turn. -/
def handleEvents (h : Host) (threshold : ℚ) (events : List JobEvent) (db : Db P) : Db P :=
  events.foldl (fun db e =>
    ((onJobUpdatedEvent h e.generated threshold e.sent.toJobUpdate).run (exec h) db).2) db

/-- **The job is charged once**: after each event of the run, what was taken from the project is
the usage of the first event so far that reported one. -/
def IsChargedOnce (h : Host) (threshold : ℚ) (pid : Id) (events : List JobEvent) (db : Db P) :
    Prop :=
  ∀ n, (KeyedStore.get db.projects pid).map (·.qpuSeconds - firstUsage (events.take n)) =
    (KeyedStore.get (handleEvents h threshold (events.take n) db).projects pid).map (·.qpuSeconds)

/-- **The job is billed to the project**, which has some balance, and a name of its own. -/
structure Billed (b : Backend) (pid : Id) (job : Job) (balance : ℚ) (db : Db P) : Prop where
  backend : db.backend = b
  stored : db.jobs.get job.jobId = some job
  billed : job.projectId = some pid
  project : ∃ p, KeyedStore.get db.projects pid = some p ∧ p.qpuSeconds = balance ∧
    ∀ id q, KeyedStore.get db.projects id = some q → q.name = p.name → id = pid

variable {h : Host} {threshold : ℚ} {b : Backend} {pid : Id} {job : Job} {balance : ℚ} {db : Db P}

theorem Billed.exec_other {o : Op} (hb : Billed b pid job balance db)
    (hjobs : o.writes ≠ some .jobs) (hprojects : o.writes ≠ some .projects) :
    Billed b pid job balance (exec h o db).2 where
  backend := exec_backend.trans hb.backend
  stored := by rw [exec_jobs hjobs]; exact hb.stored
  billed := hb.billed
  project := by rw [exec_projects hprojects]; exact hb.project

theorem Billed.exec_updateJob {u : JobUpdate} (hb : Billed b pid job balance db)
    (hu : u.projectId = none) :
    (exec h (.updateJob job.jobId u) db).1 = some job ∧
      Billed b pid (job.apply b u) balance (exec h (.updateJob job.jobId u) db).2 := by
  refine ⟨hb.stored, ?_, ?_, ?_, hb.project⟩
  · exact hb.backend
  · change (db.jobs.modify job.jobId (.apply db.backend u)
      (Job.apply_jobId db.backend u)).get job.jobId = _
    rw [Table.get_modify, if_pos rfl, hb.stored, hb.backend]
    rfl
  · simpa [Job.apply, hu] using hb.billed

theorem Billed.exec_increment {v : ℚ} (hb : Billed b pid job balance db) :
    Billed b pid job (balance + v)
      (exec h (.updateProject pid { qpuSeconds := some (.inc v) }) db).2 := by
  obtain ⟨p, hp, hbalance, hname⟩ := hb.project
  obtain ⟨hnone, -⟩ | ⟨p', hp', ⟨projects, hu, he⟩ | ⟨hu, -⟩⟩ :=
    exec_updateProject (h := h) pid { qpuSeconds := some (.inc v) } db
  · rw [hp] at hnone
    cases hnone
  · rw [hp] at hp'
    cases hp'
    rw [he]
    refine ⟨hb.backend, hb.stored, hb.billed, p.apply { qpuSeconds := some (.inc v) }, ?_, ?_, ?_⟩
    · change KeyedStore.get projects pid = _
      rw [KeyedStore.get_update hu, if_pos rfl, hp]
      rfl
    · simp [Project.apply, NumberChange.apply, hbalance]
    · intro id q hq hqn
      change KeyedStore.get projects id = some q at hq
      rw [KeyedStore.get_update hu] at hq
      split_ifs at hq with hid
      · exact hid
      · exact hname id q hq hqn
  · obtain ⟨r, hr, hstorable | ⟨id, q, hne, hq, hclash⟩⟩ := KeyedStore.update_eq_none.mp hu
    · have hr' : KeyedStore.Storable P r := KeyedStore.storable_of_get hr
      exact (hstorable (ProjectStore.storable_congr (p := r) rfl hr')).elim
    · rw [hp] at hr
      cases hr
      exact (hne (hname id q hq hclash)).elim

/-! ## What one event does -/

/-- What the handling of an event takes from the project. -/
def charge (job : Job) (e : JobEvent) : ℚ :=
  if job.durationInSecs = none then e.usage.getD 0 else 0

/-- The job after an event. -/
def Job.after (b : Backend) (job : Job) (e : JobEvent) : Job :=
  job.apply b { e.sent.toJobUpdate with updatedAt := some e.generated.now }

theorem Billed.updateQpuUsage {q : ℚ} (hb : Billed b pid job balance db) :
    Billed b pid job (balance - q)
      ((updateQpuUsage h threshold job.jobId q).run (exec h) db).2 := by
  have hgot : (exec h (.getJob job.jobId) db).1 = some job := hb.stored
  have hkeeps : ∀ o : Op, o.writes ≠ some .jobs → o.writes ≠ some .projects → ∀ db : Db P,
      Billed b pid job (balance - q) db → Billed b pid job (balance - q) (exec h o db).2 :=
    fun o hjobs hprojects db hb => hb.exec_other hjobs hprojects
  have hread : (getJob h job.jobId).run (exec h) db = (.ok job, db) := by
    simp only [getJob, perform_bind, run_call, hgot]
    rfl
  unfold Mss.updateQpuUsage
  rw [run_bind, hread]
  dsimp only
  rw [hb.billed]
  unfold incrementQpuSeconds
  refine run_bind_invariant ?_ fun r => ?_
  · refine run_bind_invariant ?_ fun r => calls_ofExcept r
    rw [sub_eq_add_neg]
    exact hb.exec_increment
  · cases r with
    | none => trivial
    | some project =>
      dsimp only
      split
      · trivial
      · exact calls_bind (calls_notifyProject (fun _ => hkeeps _ (by simp [Op.writes])
          (by simp [Op.writes])) _ _) fun _ => trivial

variable (h threshold) in
theorem Billed.onJobUpdatedEvent {e : JobEvent} (hb : Billed b pid job balance db)
    (hjob : e.sent.jobId = some job.jobId) :
    Billed b pid (job.after b e) (balance - charge job e)
      ((onJobUpdatedEvent h e.generated threshold e.sent.toJobUpdate).run (exec h) db).2 := by
  have hsent : ({ e.sent.toJobUpdate with updatedAt := some e.generated.now } :
      JobUpdate).projectId = none := rfl
  obtain ⟨hanswer, hb'⟩ := hb.exec_updateJob (h := h) hsent
  have hread : ∀ db : Db P, Billed b pid (job.after b e) (balance - charge job e) db →
      Billed b pid (job.after b e) (balance - charge job e) (exec h (.getJob job.jobId) db).2 :=
    fun db hb => hb.exec_other (by simp [Op.writes]) (by simp [Op.writes])
  have hid : e.sent.toJobUpdate.jobId = some job.jobId := hjob
  unfold Mss.onJobUpdatedEvent updateJob
  simp only [hid, perform_bind, call_bind, run_call, hanswer, pure_eq, ret_bind, Option.getD_some]
  refine run_bind_invariant ?_ fun _ => calls_getJob hread
  have husage : e.sent.toJobUpdate.timestamps.bind (·.resourceUsage) = e.usage := rfl
  unfold chargeFirstUsage
  rw [husage]
  cases hbefore : job.durationInSecs with
  | some d =>
    have hcharge : charge job e = 0 := by simp [charge, hbefore]
    rw [hcharge, sub_zero]
    exact hb'
  | none =>
    cases he : e.usage with
    | none =>
      have hcharge : charge job e = 0 := by simp [charge, he]
      rw [hcharge, sub_zero]
      exact hb'
    | some q =>
      refine run_bind_invariant ?_ fun _ => trivial
      have hcharge : charge job e = q := by simp [charge, hbefore, he]
      rw [hcharge]
      exact hb'.updateQpuUsage

/-! ## What a run of events does -/

/-- The job after a run of events. -/
def Job.afterAll (b : Backend) (job : Job) (events : List JobEvent) : Job :=
  events.foldl (Job.after b) job

/-- What a run of events takes from the project. -/
def taken (b : Backend) (job : Job) : List JobEvent → ℚ
  | [] => 0
  | e :: events => charge job e + taken b (job.after b e) events

theorem taken_append (b : Backend) (job : Job) (events : List JobEvent) (e : JobEvent) :
    taken b job (events ++ [e]) = taken b job events + charge (job.afterAll b events) e := by
  induction events generalizing job with
  | nil => simp [taken, Job.afterAll]
  | cons e' events ih =>
    rw [List.cons_append, taken, ih, taken, add_assoc]
    rfl

variable (h threshold) in
/-- **Handling events** takes from the project what each takes. -/
theorem Billed.handleEvents {events : List JobEvent} (hb : Billed b pid job balance db)
    (hjob : ∀ e ∈ events, e.sent.jobId = some job.jobId) :
    Billed b pid (job.afterAll b events) (balance - taken b job events)
      (handleEvents h threshold events db) := by
  induction events generalizing job balance db with
  | nil =>
    rw [taken, sub_zero]
    exact hb
  | cons e events ih =>
    rw [List.forall_mem_cons] at hjob
    have hnext := ih (hb.onJobUpdatedEvent h threshold hjob.1) hjob.2
    rw [sub_sub] at hnext
    exact hnext

theorem timestamps_afterAll (b : Backend) (job : Job) (events : List JobEvent) :
    (job.afterAll b events).timestamps = keptTimestamps b job events := by
  induction events generalizing job with
  | nil => rfl
  | cons e events ih =>
    change ((job.after b e).afterAll b events).timestamps = _
    have hsent : (job.after b e).timestamps =
        (e.sent.timestamps.map (.stored b) <|> job.timestamps) := rfl
    rw [ih, keptTimestamps, keptTimestamps, hsent, List.filterMap_cons]
    cases he : e.sent.timestamps with
    | none => rfl
    | some t =>
      dsimp only
      rw [List.getLast?_cons]
      cases (events.filterMap (·.sent.timestamps)).getLast? <;> rfl

theorem charge_afterAll (b : Backend) (job : Job) (events : List JobEvent) (e : JobEvent) :
    charge (job.afterAll b events) e =
      if keptUsage b job events = none then e.usage.getD 0 else 0 := by
  rw [charge, Job.durationInSecs, timestamps_afterAll]
  rfl

theorem firstUsage_append (events : List JobEvent) (e : JobEvent) :
    firstUsage (events ++ [e]) = firstUsage events +
      if ∀ e' ∈ events, e'.usage = none then e.usage.getD 0 else 0 := by
  rw [firstUsage, firstUsage, List.findSome?_append]
  split_ifs with hnone
  · rw [List.findSome?_eq_none_iff.mpr hnone]
    cases he : e.usage <;> simp [he]
  · cases hfirst : events.findSome? JobEvent.usage with
    | none => exact (hnone (List.findSome?_eq_none_iff.mp hfirst)).elim
    | some q => simp

theorem ite_eq_ite_iff (p q : Prop) [Decidable p] [Decidable q] (x : ℚ) :
    (if p then x else 0) = (if q then x else 0) ↔ (x ≠ 0 → (p ↔ q)) := by
  by_cases hp : p <;> by_cases hq : q <;> simp [hp, hq, eq_comm]

theorem taken_eq_firstUsage_iff (b : Backend) (job : Job) (events : List JobEvent) :
    (∀ n, taken b job (events.take n) = firstUsage (events.take n)) ↔
      ∀ n (hn : n < events.length), TellsCharged b job (events.take n) events[n] := by
  have hcharge : ∀ n (hn : n < events.length), taken b job (events.take n) =
      firstUsage (events.take n) → (taken b job (events.take (n + 1)) =
        firstUsage (events.take (n + 1)) ↔ TellsCharged b job (events.take n) events[n]) := by
    intro n hn heq
    rw [List.take_succ_eq_append_getElem hn, taken_append, firstUsage_append, charge_afterAll, heq,
      add_right_inj]
    exact ite_eq_ite_iff _ _ _
  constructor
  · intro heq n hn
    exact (hcharge n hn (heq n)).mp (heq (n + 1))
  · intro htells n
    induction n with
    | zero => rfl
    | succ n ih =>
      by_cases hn : n < events.length
      · exact (hcharge n hn ih).mpr (htells n hn)
      · rw [List.take_of_length_le (by omega), ← List.take_of_length_le (not_lt.mp hn)]
        exact ih

/-- **A run of events charges the job once exactly when, at each of its events, the timestamps
kept tell whether it was charged.** -/
theorem isChargedOnce_iff {job : Job} {events : List JobEvent} {p₀ : Project}
    (hjob : db.jobs.get job.jobId = some job) (hbilled : job.projectId = some pid)
    (hproject : KeyedStore.get db.projects pid = some p₀)
    (hname : ∀ id q, KeyedStore.get db.projects id = some q → q.name = p₀.name → id = pid)
    (hevents : ∀ e ∈ events, e.sent.jobId = some job.jobId) :
    IsChargedOnce h threshold pid events db ↔
      ∀ n (hn : n < events.length), TellsCharged db.backend job (events.take n) events[n] := by
  rw [← taken_eq_firstUsage_iff]
  have hb : Billed db.backend pid job p₀.qpuSeconds db :=
    ⟨rfl, hjob, hbilled, p₀, hproject, rfl, hname⟩
  refine forall_congr' fun n => ?_
  obtain ⟨p, hp, hbalance, -⟩ := (hb.handleEvents h threshold
    fun e he => hevents e (List.mem_of_mem_take he)).project
  rw [hproject, hp, Option.map_some, Option.map_some, Option.some.injEq, hbalance, sub_right_inj,
    eq_comm]

/-! ## Three events of one job -/

/-- An event of the job with some timestamps. -/
def labEvent (timestamps : Option JobTimestamps) : JobEvent where
  sent := { jobId := labJob.jobId, status := some .executing, timestamps := timestamps }
  generated := labGenerated

/-- An execution of 5 seconds. -/
def fiveSeconds : TimestampPair where
  started := some ⟨1767225600000000, some 0⟩
  finished := some ⟨1767225605000000, some 0⟩

/-- A status, then the execution, then the execution with the final stage. -/
def reportedOnce : List JobEvent :=
  [labEvent none, labEvent (some { execution := some fiveSeconds }),
    labEvent (some { execution := some fiveSeconds, final := some fiveSeconds })]

/-- The execution, then the final stage alone, then the execution again. -/
def reportedTwice : List JobEvent :=
  [labEvent (some { execution := some fiveSeconds }), labEvent (some { final := some fiveSeconds }),
    labEvent (some { execution := some fiveSeconds })]

theorem labDocuments_name : ∀ id q, KeyedStore.get labDocuments id = some q →
    q.name = labProject.name → id = labProject.id := by
  intro id q hq _
  obtain ⟨hmem, rfl⟩ := Table.get_eq_some.mp hq
  have hrows : labDocuments.rows = [labProject] := rfl
  rw [hrows, List.mem_singleton] at hmem
  rw [hmem]

/-- The theorem at a run that reports the execution twice with its timestamps kept. -/
theorem isChargedOnce_iff_lab :
    IsChargedOnce labHost 10 labProject.id reportedOnce (labDb .mongodb labDocuments) :=
  have hjob : (labDb .mongodb labDocuments).jobs.get labJob.jobId = some labJob := rfl
  have hproject : KeyedStore.get labDocuments labProject.id = some labProject := rfl
  (isChargedOnce_iff hjob rfl hproject labDocuments_name (by decide +kernel)).mpr
    (by decide +kernel)

/-- **A report after timestamps without an execution is charged again**: 10 seconds are taken for
an execution of 5. -/
theorem charged_again :
    (KeyedStore.get (handleEvents labHost 10 reportedTwice (labDb .mongodb labDocuments)).projects
      labProject.id).map (·.qpuSeconds) = some 90 ∧
    firstUsage reportedTwice = 5 ∧
    ¬ IsChargedOnce labHost 10 labProject.id reportedTwice (labDb .mongodb labDocuments) :=
  ⟨by decide +kernel, by decide +kernel, fun honce => absurd (honce 3) (by decide +kernel)⟩

end Mss
