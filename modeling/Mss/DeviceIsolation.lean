import Mss.ChargedOnce
import Mss.LastOnline
import Mss.Services.DeviceEvents

/-!
# What the events of a device touch

The backend of a device may edit the records of that device only. All handlers see to that but the
one of updated jobs, which is not told which device the event is of.

* `TouchesOnly`: no record of another device is changed.
* `touchesOnly_initialized`, …: the handlers that see to it.
* `run_updateQpuUsage`, `run_onJobUpdatedEvent`: what a job's event changes.
* `NamesOwnJob`, **`touchesOnly_iff`**: an event touches only its own device's records exactly if
  any job it names is of that device. `updates_another`: one that is not.
-/

namespace Mss.DeviceEvents

open Atomic Storage Prog

variable {P : Type} [ProjectStore P] {h : Host} {g : Generated} {device : String} {s : Store P}

/-- **No record of another device is changed**: no job that was of another, no other device nor its
mark as switched off, no calibration of another, and no project that no job of the device was
billed to. -/
structure TouchesOnly (device : String) (s s' : Store P) : Prop where
  jobs : ∀ jobId job, s.db.jobs.get jobId = some job → job.device ≠ device →
    s'.db.jobs.get jobId = some job
  projects : ∀ pid, (∀ jobId job, s.db.jobs.get jobId = some job → job.device = device →
    job.projectId ≠ some pid) →
      KeyedStore.get s'.db.projects pid = KeyedStore.get s.db.projects pid
  devices : ∀ name, name ≠ device → s'.devices.devices.get name = s.devices.devices.get name
  switchedOff : ∀ name, name ≠ device →
    s'.devices.switchedOff.get name = s.devices.switchedOff.get name
  calibrations : ∀ name, name ≠ device →
    s'.calibrations.calibrations.get name = s.calibrations.calibrations.get name
  logs : ∀ r, r.name ≠ device → (r ∈ s'.calibrations.logs.rows ↔ r ∈ s.calibrations.logs.rows)

theorem TouchesOnly.refl (s : Store P) : TouchesOnly device s s :=
  ⟨fun _ _ hjob _ => hjob, fun _ _ => rfl, fun _ _ => rfl, fun _ _ => rfl, fun _ _ => rfl,
    fun _ _ => Iff.rfl⟩

/-! ## The events about the device -/

omit [ProjectStore P] in
theorem runDevices_snd (p : Devices.Service Devices.Device) (s : Store P) :
    (runDevices p s).2 = { s with devices := (p.run Devices.exec s.devices).2 } := by
  unfold runDevices
  rcases p.run Devices.exec s.devices with ⟨res, w⟩
  cases res <;> rfl

theorem TouchesOnly.of_devices {w : Devices.World}
    (hdevices : ∀ name, name ≠ device → w.devices.get name = s.devices.devices.get name)
    (hswitched : ∀ name, name ≠ device →
      w.switchedOff.get name = s.devices.switchedOff.get name) :
    TouchesOnly device s { s with devices := w } :=
  { TouchesOnly.refl s with devices := hdevices, switchedOff := hswitched }

theorem touchesOnly_initialized (data : Devices.DeviceUpsert) :
    TouchesOnly device s (onDeviceInitializedEvent h g device data s).2 := by
  unfold onDeviceInitializedEvent
  split_ifs with hname
  · exact TouchesOnly.refl s
  · rw [not_not] at hname
    subst hname
    have hworld : ((Devices.upsertDevice h.devices data g.deviceId).run Devices.exec s.devices).2 =
        Devices.worldAfter h.devices s.devices (.upsert data g.deviceId) :=
      (run_discard_snd _ _ () _).symm
    rw [runDevices_snd, hworld]
    refine TouchesOnly.of_devices (fun name hname => ?_) fun name _ => ?_
    · rw [Devices.get_worldAfter_upsert, if_neg hname]
    · rw [Devices.worldAfter_upsert, (Devices.sameButDevices_worldSynced _ _).switchedOff]
      rfl

theorem touchesOnly_switchedOff (date : DateTime) :
    TouchesOnly device s (onDeviceSwitchedOffEvent h device date s).2 := by
  have hworld : ((Devices.switchOffDevice h.devices device date).run Devices.exec s.devices).2 =
      Devices.worldAfter h.devices s.devices (.switchOff device date) :=
    (run_discard_snd _ _ () _).symm
  rw [onDeviceSwitchedOffEvent, runDevices_snd, hworld]
  rcases Devices.worldAfter_switchOff (h := h.devices) device date s.devices with
    ⟨-, hsame⟩ | ⟨d, -, hsame, hget⟩
  · rw [hsame]
    exact TouchesOnly.refl s
  · refine TouchesOnly.of_devices (fun name hname => ?_) fun name hname => ?_
    · rw [hget, if_neg hname]
    · rw [hsame.switchedOff, Devices.get_upsertSwitchedOff, if_neg hname]

theorem touchesOnly_switchedOn : TouchesOnly device s (onDeviceSwitchedOnEvent h device s).2 := by
  have hworld : ((Devices.switchOnDevice h.devices device).run Devices.exec s.devices).2 =
      Devices.worldAfter h.devices s.devices (.switchOn device) :=
    (run_discard_snd _ _ () _).symm
  rw [onDeviceSwitchedOnEvent, runDevices_snd, hworld, Devices.worldAfter_switchOn]
  refine TouchesOnly.of_devices (fun name hname => ?_) fun name hname => ?_
  · rw [Devices.get_worldSynced, if_neg (by simpa using hname)]
    rfl
  · rw [(Devices.sameButDevices_worldSynced _ _).switchedOff]
    exact (Table.get_erase s.devices.switchedOff device name).trans (if_neg hname)

/-! ## Its calibrations -/

omit [ProjectStore P] in
theorem runCalibrations_snd (p : Calibrations.Service Calibrations.DeviceCalibration)
    (s : Store P) : (runCalibrations p s).2 =
      { s with calibrations := (p.run Calibrations.exec s.calibrations).2 } := by
  unfold runCalibrations
  rcases p.run Calibrations.exec s.calibrations with ⟨res, w⟩
  cases res <;> rfl

section Calibrations

open Calibrations

/-- The calibrations of other devices are as they were. -/
def KeepsOthers (device : String) (w w' : Calibrations.World) : Prop :=
  (∀ name, name ≠ device → w'.calibrations.get name = w.calibrations.get name) ∧
  ∀ r, r.name ≠ device → (r ∈ w'.logs.rows ↔ r ∈ w.logs.rows)

theorem KeepsOthers.exec {w w' : Calibrations.World} {o : Calibrations.Op}
    (ho : ∀ record id now, o = .upsertLog record id now ∨ o = .upsertCalibration record id now →
      record.name = device) (hw : KeepsOthers device w w') :
    KeepsOthers device w (Calibrations.exec o w').2 := by
  cases o with
  | upsertLog record id now =>
    have hdevice := ho record id now (.inl rfl)
    simp only [Calibrations.exec]
    split_ifs
    · exact hw
    · split
      · next logs hinsert =>
        refine ⟨hw.1, fun r hr => ?_⟩
        rw [Table.rows_insert? hinsert, List.mem_append, List.mem_singleton]
        have hne : r ≠ { record with id := id, updatedAt := some now } := by
          rintro rfl
          exact hr hdevice
        rw [or_iff_left hne]
        exact hw.2 r hr
      · exact hw
  | upsertCalibration record id now =>
    have hdevice := ho record id now (.inr rfl)
    refine ⟨fun name hname => ?_, hw.2⟩
    have hget := Table.get_upsert w'.calibrations record.name (.apply record now) (fun _ => rfl)
      { record with id := id, updatedAt := some now } rfl name
    rw [if_neg (hdevice ▸ hname)] at hget
    exact hget.trans (hw.1 name hname)

theorem touchesOnly_recalibrated (data : DeviceCalibrationCreate) :
    TouchesOnly device s (onDeviceRecalibratedEvent g device data s).2 := by
  unfold onDeviceRecalibratedEvent
  split_ifs with hname
  · exact TouchesOnly.refl s
  · rw [not_not] at hname
    rw [runCalibrations_snd]
    have hkeeps : KeepsOthers device s.calibrations
        ((createCalibration data g.logId g.calibrationId g.jobs.now).run Calibrations.exec
          s.calibrations).2 := by
      refine run_invariant (I := KeepsOthers device s.calibrations) ?_
        ⟨fun _ _ => rfl, fun _ _ => Iff.rfl⟩
      refine calls_bind ((calls_perform _).mpr fun w hw => hw.exec fun record _ _ ho => ?_)
        fun r => calls_bind (calls_ofExcept r) fun _ =>
          (calls_perform _).mpr fun w hw => hw.exec fun record _ _ ho => ?_
      · rcases ho with ho | ho
        · cases ho
          exact hname
        · cases ho
      · rcases ho with ho | ho
        · cases ho
        · cases ho
          exact hname
    exact { TouchesOnly.refl s with calibrations := hkeeps.1, logs := hkeeps.2 }

end Calibrations

/-! ## Its jobs -/

theorem runJobs_snd (p : Mss.Service Job) (s : Store P) :
    (runJobs h p s).2 = { s with db := (p.run (Mss.exec h.jobs) s.db).2 } := by
  unfold runJobs
  rcases p.run (Mss.exec h.jobs) s.db with ⟨res, db⟩
  cases res <;> rfl

section Jobs

variable {h : Mss.Host} {g : Mss.Generated} {threshold : ℚ} {jobId : String} {job : Job}

/-- No job differs, nor any project but the one given. -/
def SameButProject (projectId : Option Id) (db db' : Db P) : Prop :=
  db'.jobs = db.jobs ∧ ∀ pid, projectId ≠ some pid →
    KeyedStore.get db'.projects pid = KeyedStore.get db.projects pid

theorem SameButProject.exec_other {projectId : Option Id} {db db' : Db P} {o : Op}
    (hdb : SameButProject projectId db db') (hjobs : o.writes ≠ some .jobs)
    (hprojects : o.writes ≠ some .projects) :
    SameButProject projectId db (exec h o db').2 :=
  ⟨(exec_jobs hjobs).trans hdb.1, fun pid hpid => by rw [exec_projects hprojects, hdb.2 pid hpid]⟩

variable (threshold) in
/-- **Charging a job** changes no project but the one it is billed to. -/
theorem run_updateQpuUsage {db : Db P} (hjob : db.jobs.get jobId = some job) (qpuUsage : ℚ) :
    SameButProject job.projectId db
      ((updateQpuUsage h threshold jobId qpuUsage).run (exec h) db).2 := by
  have hread : (getJob h jobId).run (exec h) db = (.ok job, db) := by
    simp only [getJob, perform_bind, run_call, exec, hjob]
    rfl
  have hother : ∀ o : Op, o.writes ≠ some .jobs → o.writes ≠ some .projects → ∀ db' : Db P,
      SameButProject job.projectId db db' → SameButProject job.projectId db (exec h o db').2 :=
    fun o hjobs hprojects db' hdb' => hdb'.exec_other hjobs hprojects
  rw [updateQpuUsage, run_bind, hread]
  refine run_invariant (I := SameButProject job.projectId db) ?_ ⟨rfl, fun _ _ => rfl⟩
  refine calls_bind ?_ fun r => ?_
  · cases hbilled : job.projectId with
    | none => trivial
    | some projectId =>
      refine calls_updateOne fun db' hdb' => ⟨(exec_jobs (by simp [Op.writes])).trans hdb'.1, ?_⟩
      intro pid hpid
      have hne : pid ≠ projectId := fun heq => hpid (by rw [heq])
      rw [← hdb'.2 pid hpid, get_exec_projects]
      generalize (exec h (.updateProject projectId { qpuSeconds := some (.inc (-qpuUsage)) }) db').1
        = r
      cases r with
      | error _ => rfl
      | ok updated => cases updated <;> simp [projectAfter, hne]
  · cases r with
    | none => cases job.projectId <;> trivial
    | some project =>
      dsimp only
      split
      · trivial
      · exact calls_bind (calls_notifyProject (fun _ => hother _ (by simp [Op.writes])
          (by simp [Op.writes])) _ _) fun _ => trivial

/-- The changes that a job's event makes of the job. -/
def eventChanges (g : Mss.Generated) (data : SentJobUpdate) : JobUpdate :=
  { data.toJobUpdate with updatedAt := some g.now }

theorem get_exec_updateJob (jobId : String) (u : JobUpdate) (db : Db P) (other : String) :
    (exec h (.updateJob jobId u) db).2.jobs.get other =
      if other = jobId then (db.jobs.get jobId).map (.apply db.backend u)
        else db.jobs.get other :=
  Table.get_modify db.jobs jobId (.apply db.backend u) (Job.apply_jobId db.backend u) other

variable (threshold) in
theorem run_onJobUpdatedEvent_missing {data : SentJobUpdate} {db : Db P}
    (hmissing : ∀ jobId ∈ data.jobId, db.jobs.get jobId = none) :
    (∀ jobId, ((Mss.onJobUpdatedEvent h g threshold data.toJobUpdate).run (exec h) db).2.jobs.get
      jobId = db.jobs.get jobId) ∧
    ((Mss.onJobUpdatedEvent h g threshold data.toJobUpdate).run (exec h) db).2.projects =
      db.projects := by
  have hid : data.toJobUpdate.jobId = data.jobId := rfl
  unfold Mss.onJobUpdatedEvent updateJob
  cases hsent : data.jobId with
  | none =>
    simp only [hid, hsent]
    exact ⟨fun _ => rfl, rfl⟩
  | some jobId =>
    have hnone := hmissing jobId hsent
    have hget := get_exec_updateJob (h := h) jobId (eventChanges g data) db
    rw [hnone] at hget
    simp only [hid, hsent, perform_bind, call_bind, run_call, exec, hnone]
    refine ⟨fun other => (hget other).trans ?_, rfl⟩
    split_ifs with hother
    · rw [hother, hnone]
      rfl
    · rfl

variable (threshold) in
/-- **An event of a stored job** changes that job, and no project but the one it is billed to, nor
that if the job had a usage before or the event reports none. -/
theorem run_onJobUpdatedEvent {data : SentJobUpdate} {db : Db P} (hid : data.jobId = some jobId)
    (hjob : db.jobs.get jobId = some job) :
    (∀ other, ((Mss.onJobUpdatedEvent h g threshold data.toJobUpdate).run (exec h) db).2.jobs.get
      other = if other = jobId then some (job.apply db.backend (eventChanges g data))
        else db.jobs.get other) ∧
    ∀ pid, (job.durationInSecs = none → data.timestamps.bind (·.resourceUsage) ≠ none →
      job.projectId ≠ some pid) → KeyedStore.get
        ((Mss.onJobUpdatedEvent h g threshold data.toJobUpdate).run (exec h) db).2.projects pid =
          KeyedStore.get db.projects pid := by
  have hsent : data.toJobUpdate.jobId = some jobId := hid
  have hget : ∀ other, (exec h (.updateJob jobId (eventChanges g data)) db).2.jobs.get other =
      if other = jobId then some (job.apply db.backend (eventChanges g data))
        else db.jobs.get other := by
    intro other
    rw [get_exec_updateJob, hjob, Option.map_some]
  have hbilled : (job.apply db.backend (eventChanges g data)).projectId = job.projectId := rfl
  have hread : ∀ db' : Db P, ∀ projectId, SameButProject projectId
      (exec h (.updateJob jobId (eventChanges g data)) db).2 db' →
      SameButProject projectId (exec h (.updateJob jobId (eventChanges g data)) db).2
        ((getJob h jobId true).run (exec h) db').2 := by
    intro db' projectId hdb'
    exact run_invariant (I := SameButProject projectId _) (calls_getJob fun db₁ hdb₁ =>
      hdb₁.exec_other (by simp [Op.writes]) (by simp [Op.writes])) hdb'
  -- the job is written first, and then its project is charged
  have hrun : (Mss.onJobUpdatedEvent h g threshold data.toJobUpdate).run (exec h) db =
      (chargeFirstUsage h threshold jobId job data.toJobUpdate >>= fun _ =>
        getJob h jobId true).run (exec h)
          (exec h (.updateJob jobId (eventChanges g data)) db).2 := by
    unfold Mss.onJobUpdatedEvent updateJob
    simp only [hsent, perform_bind, call_bind, run_call, exec, hjob, pure_eq, ret_bind,
      Option.getD_some]
    rfl
  rw [hrun]
  have hcharge : SameButProject (if job.durationInSecs = none ∧
      data.timestamps.bind (·.resourceUsage) ≠ none then job.projectId else none)
      (exec h (.updateJob jobId (eventChanges g data)) db).2
      ((chargeFirstUsage h threshold jobId job data.toJobUpdate >>= fun _ =>
        getJob h jobId true).run (exec h)
          (exec h (.updateJob jobId (eventChanges g data)) db).2).2 := by
    rw [run_bind]
    have husage : data.toJobUpdate.timestamps = data.timestamps := rfl
    unfold chargeFirstUsage
    rw [husage]
    cases hbefore : job.durationInSecs with
    | some _ => exact hread _ _ ⟨rfl, fun _ _ => rfl⟩
    | none =>
      cases hreported : data.timestamps.bind (·.resourceUsage) with
      | none => exact hread _ _ ⟨rfl, fun _ _ => rfl⟩
      | some qpuUsage =>
        rw [if_pos ⟨rfl, Option.some_ne_none _⟩]
        have hstored := (hget jobId).trans (if_pos rfl)
        have hcharged := run_updateQpuUsage (h := h) threshold hstored qpuUsage
        rw [hbilled] at hcharged
        rw [run_bind]
        rcases hrun : (updateQpuUsage h threshold jobId qpuUsage).run (exec h)
          (exec h (.updateJob jobId (eventChanges g data)) db).2 with ⟨res, db₁⟩
        rw [hrun] at hcharged
        cases res with
        | ok _ => exact hread db₁ _ hcharged
        | error _ => exact hcharged
  refine ⟨fun other => ?_, fun pid hpid => ?_⟩
  · rw [hcharge.1, hget]
  · refine hcharge.2 pid ?_
    split_ifs with hcharged
    · exact hpid hcharged.1 hcharged.2
    · exact (Option.some_ne_none pid).symm

end Jobs

/-! ## Which events touch the device's own records only -/

/-- **Any job that the event names is of the device**, or is left as it is: whatever the event
gives is stored already, its time included. -/
def NamesOwnJob (g : Generated) (device : String) (s : Store P) : DeviceEventData → Prop
  | .jobUpdated data => ∀ jobId ∈ data.jobId, ∀ job ∈ s.db.jobs.get jobId,
      job.device = device ∨ job.apply s.db.backend (eventChanges g.jobs data) = job
  | _ => True

theorem resourceUsage_stored (b : Backend) {t : JobTimestamps} (ht : t.resourceUsage ≠ none) :
    (t.stored b).resourceUsage ≠ none := by
  cases b with
  | sql =>
    have hdate : DateTime.stored .sql = id := rfl
    have hpair : TimestampPair.stored .sql = id := by
      funext p
      simp [TimestampPair.stored, hdate]
    have hsame : t.stored .sql = t := by simp [JobTimestamps.stored, hpair]
    rw [hsame]
    exact ht
  | mongodb =>
    -- both ends are given back in UTC, so they compare
    cases hexecution : t.execution with
    | none => simp [JobTimestamps.resourceUsage, hexecution] at ht
    | some execution =>
      obtain ⟨- | started, - | finished⟩ := execution
      case some.some =>
        simp [JobTimestamps.resourceUsage, JobTimestamps.stored, TimestampPair.stored,
          DateTime.stored, DateTime.sub, DateTime.isAware, hexecution]
      all_goals simp [JobTimestamps.resourceUsage, hexecution] at ht

theorem durationInSecs_of_apply_eq {b : Backend} {g : Mss.Generated} {data : SentJobUpdate}
    {job : Job} (hsame : job.apply b (eventChanges g data) = job)
    (hreported : data.timestamps.bind (·.resourceUsage) ≠ none) : job.durationInSecs ≠ none := by
  have htimestamps : (data.timestamps.map (.stored b) <|> job.timestamps) = job.timestamps :=
    congrArg Job.timestamps hsame
  cases hsent : data.timestamps with
  | none =>
    rw [hsent] at hreported
    exact absurd rfl hreported
  | some t =>
    rw [hsent] at htimestamps hreported
    have hstored : job.timestamps = some (t.stored b) := htimestamps.symm
    rw [Job.durationInSecs, hstored]
    exact resourceUsage_stored b hreported

theorem onJobUpdatedEvent_snd (data : SentJobUpdate) : (onJobUpdatedEvent h g data s).2 =
    { s with db := ((Mss.onJobUpdatedEvent h.jobs g.jobs h.qpuSecondsLowThreshold
        data.toJobUpdate).run (Mss.exec h.jobs) s.db).2 } :=
  runJobs_snd _ s

theorem touchesOnly_jobUpdated {data : SentJobUpdate}
    (hown : NamesOwnJob g device s (.jobUpdated data)) :
    TouchesOnly device s (onJobUpdatedEvent h g data s).2 := by
  rw [onJobUpdatedEvent_snd]
  by_cases hmissing : ∀ jobId ∈ data.jobId, s.db.jobs.get jobId = none
  · have hrun := run_onJobUpdatedEvent_missing (h := h.jobs) (g := g.jobs)
      h.qpuSecondsLowThreshold hmissing
    refine { TouchesOnly.refl s with jobs := fun other old hold _ => ?_, projects := fun pid _ => ?_ }
    · exact (hrun.1 other).trans hold
    · rw [hrun.2]
  · push Not at hmissing
    obtain ⟨jobId, hid, hstored⟩ := hmissing
    obtain ⟨job, hjob⟩ := Option.ne_none_iff_exists'.mp hstored
    have hrun := run_onJobUpdatedEvent (h := h.jobs) (g := g.jobs) h.qpuSecondsLowThreshold hid hjob
    refine { TouchesOnly.refl s with
      jobs := fun other old hold hother => (hrun.1 other).trans ?_
      projects := fun pid hpid => hrun.2 pid fun hbefore hreported => ?_ }
    · split_ifs with heq
      · subst heq
        cases hjob.symm.trans hold
        rcases hown other hid job hjob with hdevice | hsame
        · exact absurd hdevice hother
        · rw [hsame]
      · exact hold
    · rcases hown jobId hid job hjob with hdevice | hsame
      · exact hpid jobId job hjob hdevice
      · exact absurd hbefore (durationInSecs_of_apply_eq hsame hreported)

/-- **An event touches only its own device's records** exactly if any job it names is of that
device, or is left as it is. -/
theorem touchesOnly_iff (h : Host) (g : Generated) (event : DeviceEvent) (device : String)
    (s : Store P) : TouchesOnly device s (handleFrame h g (.ok event) device s).2 ↔
      NamesOwnJob g device s event.data := by
  have hframe : (handleFrame h g (.ok event) device s).2 =
      (handleEvent h g device event.data s).2 := by
    rcases hrun : handleEvent h g device event.data s with ⟨res, s'⟩
    cases res <;> simp only [handleFrame, hrun]
  rw [hframe]
  cases event.data with
  | initialized data => exact iff_of_true (touchesOnly_initialized data) trivial
  | recalibrated data => exact iff_of_true (touchesOnly_recalibrated data) trivial
  | switchedOff date => exact iff_of_true (touchesOnly_switchedOff date) trivial
  | switchedOn _ => exact iff_of_true touchesOnly_switchedOn trivial
  | jobUpdated data =>
    refine ⟨fun htouches jobId hid job hjob => ?_, touchesOnly_jobUpdated⟩
    by_cases hdevice : job.device = device
    · exact .inl hdevice
    · have hkept := htouches.jobs jobId job hjob hdevice
      have hrun := run_onJobUpdatedEvent (h := h.jobs) (g := g.jobs) h.qpuSecondsLowThreshold hid hjob
      have hchanged := (hrun.1 jobId).trans (if_pos rfl)
      change (onJobUpdatedEvent h g data s).2.db.jobs.get jobId = some job at hkept
      rw [onJobUpdatedEvent_snd] at hkept
      exact .inr (Option.some_injective _ (hchanged.symm.trans hkept))

/-! ## An event of another's job -/

/-- A device of another backend than the job's. -/
def labStore {P : Type} (backend : Backend) (projects : P) : Store P where
  db := labDb backend projects
  devices := Devices.labWorld

/-- Another backend reports that it took five seconds to run the job. -/
def labReport : DeviceEvent where
  id := "65f0000000000000000000f9"
  data := .jobUpdated
    { jobId := labJob.jobId, status := some .successful,
      timestamps := some { execution := some fiveSeconds } }

/-- The store once "thor" has sent the report of a job of "loke". -/
def labReported {P : Type} [ProjectStore P] (s : Store P) : Store P :=
  (handleFrame ⟨Mss.labHost, Devices.labHost, 10⟩ ⟨Mss.labGenerated, "", "", ""⟩ (.ok labReport)
    "thor" s).2

/-- **A device ends the job of another**, and the project pays for it: it has five seconds fewer
than its 100, though no job of the device is billed to it. -/
theorem updates_another :
    (labReported (labStore .mongodb labDocuments)).db.jobs.rows.map (fun job => (job.device, job.status)) =
      [("loke", .successful)] ∧
    (KeyedStore.get (labReported (labStore .mongodb labDocuments)).db.projects labProject.id).map
      (·.qpuSeconds) = some 95 ∧
    ¬ TouchesOnly "thor" (labStore .mongodb labDocuments)
      (labReported (labStore .mongodb labDocuments)) :=
  ⟨by decide +kernel, by decide +kernel, fun htouches => absurd
    (htouches.jobs labJob.jobId labJob rfl (by decide)) (by decide +kernel)⟩

end Mss.DeviceEvents
