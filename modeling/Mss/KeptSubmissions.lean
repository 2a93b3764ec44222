import Mss.QpuLedger
import Mss.Services.Submissions

/-!
# All or nothing

A submission returns the job, which is stored with its source, or raises and leaves no job of its id.
It does, unless the upload fails in a way that is not listed: the connection breaks after it was made,
or an error's body is no JSON object.

* `AllOrNothing`: what a submission should come to.
* `Exchange.Unforeseen`: an upload that fails with an error that is not listed.
* `ReachesUpload`: what a submission asks for, up to its upload.
* **`allOrNothing_iff`**: when it comes to what it should. `reset_keeps_job`: an upload that is reset.
-/

namespace Mss.Submission

open Atomic Storage Prog

/-- **A submission is all or nothing**: it returns its job, stored with its source, or raises, and no
job of its id is stored. -/
structure AllOrNothing (jobId : String) (source : JobSource)
    (outcome : Except SubmitExc Job × World) : Prop where
  returned : ∀ job, outcome.1 = .ok job → ∃ stored, outcome.2.jobs.get jobId = some stored ∧
    stored.source = some source ∧ job = { stored with accessToken := none }
  raised : ∀ e, outcome.1 = .error e → outcome.2.jobs.get jobId = none

/-! ## The upload -/

/-- Whether 1 cannot be added to a JSON value. -/
def Json.isNoColumn : Json → Bool
  | .str _ | .array _ | .object _ => true
  | _ => false

/-- Whether a detail names a circuit, with a column that is no number. -/
def Json.hasBadColumn : Json → Bool
  | .object detail =>
    (detail.lookup "circuit_index").isSome && ((detail.lookup "column").getD .null).isNoColumn
  | _ => false

/-- Whether the body of an error is one that the client cannot read: bytes that are no text, JSON that
is no object, or a 422's circuit with a column that is no number. -/
def Response.isUnreadable (response : Response) : Bool :=
  match response.body with
  | .undecodable => true
  | .text _ => false
  | .json (.object entries) =>
    response.statusCode = 422 && ((entries.lookup "detail").getD .null).hasBadColumn
  | .json _ => true

/-- **The upload fails with an error that is not listed.** -/
def Exchange.Unforeseen : Exchange → Prop
  | .response r => r.isError = true ∧ r.isUnreadable = true
  | .raised e => e.isUnavailable = false

theorem columnFromOne_cases (v : Json) :
    (∃ column, columnFromOne v = .ok column) ∧ v.isNoColumn = false ∨
      columnFromOne v = .error .typeError ∧ v.isNoColumn = true := by
  cases v with
  | str | array | object => exact .inr ⟨rfl, rfl⟩
  | _ => exact .inl ⟨⟨_, rfl⟩, rfl⟩

theorem raiseForDetail_error {detail : Json} {e : SubmitExc}
    (h : raiseForDetail detail = .error e) : e.isListed = !detail.hasBadColumn := by
  unfold raiseForDetail at h
  unfold Json.hasBadColumn
  cases detail with
  | object detail =>
    dsimp only at h ⊢
    cases hindex : detail.lookup "circuit_index" with
    | none =>
      rw [hindex] at h
      cases h
    | some index =>
      rw [hindex] at h
      dsimp only at h
      obtain ⟨⟨column, hcolumn⟩, hno⟩ | ⟨hcolumn, hno⟩ :=
        columnFromOne_cases ((detail.lookup "column").getD .null)
      · rw [hcolumn] at h
        cases h
        rw [hno]
        rfl
      · rw [hcolumn] at h
        cases h
        rw [hno]
        rfl
  | _ => cases h

theorem raiseForDetail_ok {detail : Json} (h : raiseForDetail detail = .ok ()) :
    detail.hasBadColumn = false := by
  unfold raiseForDetail at h
  unfold Json.hasBadColumn
  cases detail with
  | object detail =>
    dsimp only at h ⊢
    cases hindex : detail.lookup "circuit_index" with
    | none => rfl
    | some index =>
      rw [hindex] at h
      dsimp only at h
      obtain ⟨⟨column, hcolumn⟩, -⟩ | ⟨hcolumn, -⟩ :=
        columnFromOne_cases ((detail.lookup "column").getD .null)
      · rw [hcolumn] at h
        cases h
      · rw [hcolumn] at h
        cases h
  | _ => rfl

theorem raiseForBccError_error {response : Response} {e : SubmitExc}
    (h : raiseForBccError response = .error e) : response.isError = true ∧
      e.isListed = (extractErrorMessage response).isOk := by
  unfold raiseForBccError at h
  split_ifs at h with herror
  refine ⟨herror, ?_⟩
  cases hmessage : extractErrorMessage response with
  | ok message =>
    rw [hmessage] at h
    cases h
    rfl
  | error e' =>
    rw [hmessage] at h
    obtain rfl : e' = e := by cases h; rfl
    unfold extractErrorMessage at hmessage
    split at hmessage
    · cases hmessage
    · cases hmessage
      rfl
    · cases hmessage
    · cases hmessage
      rfl

theorem isOk_extractErrorMessage {response : Response} (hbody : ∀ entries,
    response.body = .json (.object entries) → response.statusCode = 422 →
      ((entries.lookup "detail").getD .null).hasBadColumn = false) :
    (extractErrorMessage response).isOk = !response.isUnreadable := by
  unfold extractErrorMessage Response.isUnreadable
  cases hresponse : response.body with
  | json v =>
    cases v with
    | object entries =>
      dsimp only
      by_cases hstatus : response.statusCode = 422
      · rw [hbody entries hresponse hstatus]
        simp [Except.isOk, Except.toBool]
      · simp [hstatus, Except.isOk, Except.toBool]
    | _ => rfl
  | text s => rfl
  | undecodable => rfl

theorem uploadJob_cases (exchange : Exchange) :
    (uploadJob exchange = .ok () ∧ ¬ exchange.Unforeseen) ∨
      ∃ e, uploadJob exchange = .error e ∧ (e.isListed = true ↔ ¬ exchange.Unforeseen) := by
  cases exchange with
  | raised e =>
    right
    cases havailable : e.isUnavailable with
    | true =>
      refine ⟨.serviceUnavailable "device is currently unavailable", ?_, ?_⟩
      · rw [uploadJob, send, havailable]
        rfl
      · simp [SubmitExc.isListed, Exchange.Unforeseen, havailable]
    | false =>
      refine ⟨.request e, ?_, ?_⟩
      · rw [uploadJob, send, havailable]
        rfl
      · simp [SubmitExc.isListed, Exchange.Unforeseen, havailable]
  | response r =>
    change (_ ∧ ¬ (r.isError = true ∧ r.isUnreadable = true)) ∨
      ∃ e : SubmitExc, _ ∧ (e.isListed = true ↔ ¬ (r.isError = true ∧ r.isUnreadable = true))
    have hupload : uploadJob (.response r) = raiseForInvalidCircuit r >>= fun _ =>
      raiseForBccError r := rfl
    rw [hupload]
    -- the body is read as an error's, once it names no circuit
    have hread (hbody : ∀ entries, r.body = .json (.object entries) → r.statusCode = 422 →
        ((entries.lookup "detail").getD .null).hasBadColumn = false) :
        (raiseForBccError r = .ok () ∧ ¬ (r.isError = true ∧ r.isUnreadable = true)) ∨
          ∃ e, raiseForBccError r = .error e ∧
            (e.isListed = true ↔ ¬ (r.isError = true ∧ r.isUnreadable = true)) := by
      cases hraise : raiseForBccError r with
      | error e =>
        obtain ⟨herror, hlisted⟩ := raiseForBccError_error hraise
        refine .inr ⟨e, rfl, ?_⟩
        rw [hlisted, isOk_extractErrorMessage hbody]
        simp [herror]
      | ok _ =>
        refine .inl ⟨rfl, fun hunforeseen => ?_⟩
        unfold raiseForBccError at hraise
        rw [if_pos hunforeseen.1] at hraise
        cases hmessage : extractErrorMessage r <;> rw [hmessage] at hraise <;> cases hraise
    by_cases hstatus : r.statusCode = 422
    · have herror : r.isError = true := by simp [Response.isError, hstatus]
      cases hbody : r.body with
      | undecodable =>
        have hinvalid : raiseForInvalidCircuit r = .error .unicodeDecode := by
          simp [raiseForInvalidCircuit, hstatus, Response.json, hbody]
        rw [hinvalid]
        refine .inr ⟨.unicodeDecode, rfl, ?_⟩
        simp [SubmitExc.isListed, herror, Response.isUnreadable, hbody]
      | text s =>
        have hinvalid : raiseForInvalidCircuit r = .ok () := by
          simp [raiseForInvalidCircuit, hstatus, Response.json, hbody]
        rw [hinvalid]
        exact hread fun entries hentries => by rw [hbody] at hentries; cases hentries
      | json v =>
        cases v with
        | object entries =>
          have hinvalid : raiseForInvalidCircuit r =
              raiseForDetail ((entries.lookup "detail").getD .null) := by
            simp [raiseForInvalidCircuit, hstatus, Response.json, hbody]
          have hunreadable : r.isUnreadable =
              ((entries.lookup "detail").getD .null).hasBadColumn := by
            simp [Response.isUnreadable, hbody, hstatus]
          rw [hinvalid]
          cases hdetail : raiseForDetail ((entries.lookup "detail").getD .null) with
          | error e =>
            refine .inr ⟨e, rfl, ?_⟩
            rw [raiseForDetail_error hdetail, hunreadable]
            simp [herror]
          | ok _ =>
            refine hread fun entries' hentries _ => ?_
            rw [hbody] at hentries
            cases hentries
            exact raiseForDetail_ok hdetail
        | _ =>
          have hinvalid : raiseForInvalidCircuit r = .error (.attributeError "get") := by
            simp [raiseForInvalidCircuit, hstatus, Response.json, hbody]
          rw [hinvalid]
          refine .inr ⟨.attributeError "get", rfl, ?_⟩
          simp [SubmitExc.isListed, herror, Response.isUnreadable, hbody]
    · unfold raiseForInvalidCircuit
      rw [if_pos hstatus]
      exact hread fun _ _ h422 => absurd h422 hstatus

/-! ## The submission up to its upload -/

section

variable (decrypt : String → Except SubmitExc String) (show_ : Project → String)
  (clients : List BccClient) (bcc : String → Bcc)

/-- The project is one that the user may submit a job for. -/
structure Admitted (w : World) (projectId : Id) (user : User) (project : Project) : Prop where
  stored : w.projects.get projectId = some project
  member : user.id ∈ project.userIds
  active : project.isActive = true ∧ user.isActive = true
  hasQpu : 0 < project.qpuSeconds

theorem run_getProjectWithQpu (w : World) (projectId : Id) (user : User) :
    (∃ project, Admitted w projectId user project ∧
      (getProjectWithQpu show_ projectId user).run (exec bcc) w = (.ok project, w)) ∨
    (∃ e, (getProjectWithQpu show_ projectId user).run (exec bcc) w = (.error e, w)) ∧
      ∀ project, ¬ Admitted w projectId user project := by
  have hrun : (getProjectWithQpu show_ projectId user).run (exec bcc) w =
      (ofExcept (checkProjectAccess show_ (((w.projects.get projectId).filter
        (user.id ∈ ·.userIds)).map fun project => ⟨project, user⟩) strict) >>= fun owner =>
          Prog.ret owner.project : Service Project).run (exec bcc) w := rfl
  rw [hrun]
  cases hget : w.projects.get projectId with
  | none =>
    refine .inr ⟨⟨_, rfl⟩, fun project hadmitted => ?_⟩
    exact Option.some_ne_none project (hadmitted.stored.symm.trans hget)
  | some project =>
    have honly : ∀ other, Admitted w projectId user other → other = project := fun other h =>
      Option.some.inj (h.stored.symm.trans hget)
    by_cases hmember : user.id ∈ project.userIds
    · rw [Option.filter_some, if_pos (decide_eq_true hmember), Option.map_some]
      unfold checkProjectAccess
      dsimp only
      split_ifs with hinactive hpoor hroles
      · refine .inr ⟨⟨_, rfl⟩, fun other hadmitted => ?_⟩
        obtain rfl := honly other hadmitted
        simp [hadmitted.active.1, hadmitted.active.2] at hinactive
      · refine .inr ⟨⟨_, rfl⟩, fun other hadmitted => ?_⟩
        obtain rfl := honly other hadmitted
        simp only [strict, Bool.true_and, decide_eq_true_eq] at hpoor
        exact Rat.not_le.mpr hadmitted.hasQpu hpoor
      · simp [strict] at hroles
      · refine .inl ⟨project, ⟨hget, hmember, ?_, ?_⟩, rfl⟩
        · simpa using hinactive
        · simpa [strict, Rat.not_le] using hpoor
    · rw [Option.filter_some, if_neg (by simpa using hmember)]
      refine .inr ⟨⟨_, rfl⟩, fun other hadmitted => ?_⟩
      obtain rfl := honly other hadmitted
      exact hmember hadmitted.member

variable {w : World} {jobId : String} {client : BccClient} {project : Project}

variable (client) in
theorem run_createJob (hfresh : w.jobs.get jobId = none)
    (hproject : w.projects.get project.id = some project) (job : Job) (hid : job.jobId = jobId)
    (hbilled : job.projectId = some project.id) :
    (∃ encrypted token jobs, getToken decrypt ((bcc client.name).token jobId job.userId
        project.isPulseAllowed) = .ok (encrypted, token) ∧
      jobs.get jobId = some { job with accessToken := some encrypted } ∧
      (createJob decrypt client job).run (exec bcc) w =
        (.ok ⟨jobId, client.publicBaseUrl ++ "/jobs", token⟩, { w with jobs })) ∨
    ∃ e, getToken decrypt ((bcc client.name).token jobId job.userId project.isPulseAllowed) =
        .error e ∧
      (createJob decrypt client job).run (exec bcc) w = (.error e, w) := by
  subst hid
  have hrun : (createJob decrypt client job).run (exec bcc) w =
      (ofExcept (getToken decrypt ((bcc client.name).token job.jobId job.userId
          project.isPulseAllowed)) >>= fun tokens =>
        call (.insertJob { job with accessToken := some tokens.1 }) >>= fun inserted =>
        ofExcept inserted >>= fun _ => Prog.ret (⟨job.jobId, client.publicBaseUrl ++ "/jobs",
          tokens.2⟩ : CreatedJobResponse) : Service CreatedJobResponse).run (exec bcc) w := by
    unfold createJob projectOfJob
    rw [hbilled]
    simp only [perform_bind, run_call, exec, hproject, Option.any_some]
    rfl
  rw [hrun]
  cases htoken : getToken decrypt ((bcc client.name).token job.jobId job.userId
      project.isPulseAllowed) with
  | error e => exact .inr ⟨e, rfl, rfl⟩
  | ok tokens =>
    obtain ⟨encrypted, token⟩ := tokens
    have hinsert : w.jobs.insert? (fun _ _ => False) { job with accessToken := some encrypted } =
        some (w.jobs.insert { job with accessToken := some encrypted } hfresh) := by
      unfold Table.insert?
      rw [dif_pos hfresh, if_neg (by simp)]
    refine .inl ⟨encrypted, token, _, rfl, (Table.get_insert? hinsert _).trans (if_pos rfl), ?_⟩
    simp only [ofExcept_ok, ret_bind, perform_bind, run_call, exec, hinsert]
    rfl

variable (client) in
/-- **Uploading a job that was created** leaves it where the upload is taken, or fails in an
unforeseen way, and deletes it where it fails as listed. -/
theorem run_uploadCreated (created : CreatedJobResponse) (file : JobFile) :
    ((uploadCreated client created file).run (exec bcc) w = (.ok (), w) ∧
      ¬ ((bcc client.name).upload file created.accessToken).Unforeseen) ∨
    (∃ e, (uploadCreated client created file).run (exec bcc) w =
        (.error e, { w with jobs := w.jobs.erase created.jobId }) ∧
      ¬ ((bcc client.name).upload file created.accessToken).Unforeseen) ∨
    ∃ e, (uploadCreated client created file).run (exec bcc) w = (.error e, w) ∧
      ((bcc client.name).upload file created.accessToken).Unforeseen := by
  unfold uploadCreated
  rw [run_tryCatch, perform_bind, run_call]
  have hanswer : exec bcc (.postJob client.name file created.accessToken) w =
      ((bcc client.name).upload file created.accessToken, w) := rfl
  rw [hanswer]
  dsimp only
  rcases uploadJob_cases ((bcc client.name).upload file created.accessToken) with
    ⟨hupload, hforeseen⟩ | ⟨e, hupload, hlisted⟩
  · rw [hupload]
    exact .inl ⟨rfl, hforeseen⟩
  · rw [hupload]
    cases he : e.isListed with
    | true =>
      refine .inr (.inl ⟨e, ?_, hlisted.mp he⟩)
      simp only [ofExcept_error, run_raise, he]
      rfl
    | false =>
      refine .inr (.inr ⟨e, ?_, ?_⟩)
      · simp only [ofExcept_error, run_raise, he]
        rfl
      · by_contra hforeseen
        rw [hlisted.mpr hforeseen] at he
        cases he

/-! ## When a submission is all or nothing -/

theorem AllOrNothing.of_error {source : JobSource} {outcome : Except SubmitExc Job × World}
    {e : SubmitExc} (he : outcome.1 = .error e) (hnone : outcome.2.jobs.get jobId = none) :
    AllOrNothing jobId source outcome where
  returned job hok := by
    rw [he] at hok
    cases hok
  raised _ _ := hnone

/-- **The submission reaches its upload**: its user may submit it for the project, its device is known,
and the backend issues a token. -/
def ReachesUpload (w : World) (jobId : String) (submission : JobSubmission) (user : User)
    (client : BccClient) (token : String) : Prop :=
  ∃ project encrypted, Admitted w submission.projectId user project ∧
    getClient clients submission.device = .ok client ∧
    getToken decrypt ((bcc client.name).token jobId (some user.id) project.isPulseAllowed) =
      .ok (encrypted, token)

/-- The job of a submission. -/
def newJob (jobId : String) (submission : JobSubmission) (user : User) (calibrationDate : String)
    (project : Project) : Job where
  jobId := jobId
  device := submission.device
  calibrationDate := calibrationDate
  projectId := some project.id
  userId := some user.id

/-- What is left of a submission once its job is created. -/
def finish (client : BccClient) (source : JobSource) (created : CreatedJobResponse) :
    Service Job := do
  uploadCreated client created (.fromSource created.jobId source)
  let _ ← call (.setSource created.jobId source)
  let job ← getJob created.jobId
  return { job with accessToken := none }

theorem allOrNothing_finish {source : JobSource} {created : CreatedJobResponse} {job : Job}
    (hjob : w.jobs.get created.jobId = some job) :
    AllOrNothing created.jobId source ((finish client source created).run (exec bcc) w) ↔
      ¬ ((bcc client.name).upload (.fromSource created.jobId source)
        created.accessToken).Unforeseen := by
  unfold finish
  rw [run_bind]
  rcases run_uploadCreated bcc client (w := w) created
    (.fromSource created.jobId source) with ⟨hrun, hforeseen⟩ | ⟨e, hrun, hforeseen⟩ |
      ⟨e, hrun, hunforeseen⟩
  · rw [hrun]
    refine iff_of_true ?_ hforeseen
    have hset : (setSource w.jobs created.jobId source).get created.jobId =
        some { job with source := some source } := by
      rw [setSource, Table.get_modify, if_pos rfl, hjob, Option.map_some]
    have hget : (getJob created.jobId).run (exec bcc)
        { w with jobs := setSource w.jobs created.jobId source } =
          (.ok { job with source := some source },
            { w with jobs := setSource w.jobs created.jobId source }) := by
      unfold getJob
      rw [perform_bind, run_call]
      have hanswer : exec bcc (.getJob created.jobId)
          { w with jobs := setSource w.jobs created.jobId source } =
            (some { job with source := some source },
              { w with jobs := setSource w.jobs created.jobId source }) := congrArg (·, _) hset
      rw [hanswer]
      rfl
    have hdone : ((call (.setSource created.jobId source) >>= fun _ =>
        getJob created.jobId >>= fun job => Prog.ret { job with accessToken := none } :
          Service Job)).run (exec bcc) w =
        (.ok { job with source := some source, accessToken := none },
          { w with jobs := setSource w.jobs created.jobId source }) := by
      rw [perform_bind, run_call]
      change (getJob created.jobId >>= fun job => Prog.ret { job with accessToken := none } :
        Service Job).run (exec bcc) { w with jobs := setSource w.jobs created.jobId source } = _
      rw [run_bind, hget]
      rfl
    refine ⟨fun returned hreturned => ⟨{ job with source := some source }, ?_, rfl, ?_⟩,
      fun e he => ?_⟩
    · exact (congrArg (fun outcome => outcome.2.jobs.get created.jobId) hdone).trans hset
    · exact (Except.ok.inj ((congrArg Prod.fst hdone).symm.trans hreturned)).symm
    · have := (congrArg Prod.fst hdone).symm.trans he
      cases this
  · rw [hrun]
    refine iff_of_true (.of_error rfl ?_) hforeseen
    exact (Table.get_erase _ _ _).trans (if_pos rfl)
  · rw [hrun]
    refine iff_of_false (fun hnothing => ?_) (not_not_intro hunforeseen)
    exact Option.some_ne_none job (hjob.symm.trans (hnothing.raised e rfl))

/-- **A submission is all or nothing** exactly if it does not reach an upload that fails in an
unforeseen way. -/
theorem allOrNothing_iff (submission : JobSubmission) (user : User) (calibrationDate : String)
    (hfresh : w.jobs.get jobId = none) :
    AllOrNothing jobId submission.toJobSource
        ((submitJob decrypt show_ clients jobId submission user calibrationDate).run (exec bcc) w) ↔
      ∀ client token, ReachesUpload decrypt clients bcc w jobId submission user client token →
        ¬ ((bcc client.name).upload (.fromSource jobId submission.toJobSource) token).Unforeseen := by
  have hsubmit : submitJob decrypt show_ clients jobId submission user calibrationDate =
      getProjectWithQpu show_ submission.projectId user >>= fun project =>
        ofExcept (getClient clients submission.device) >>= fun client =>
        createJob decrypt client (newJob jobId submission user calibrationDate project) >>=
        finish client submission.toJobSource := rfl
  rw [hsubmit, run_bind]
  obtain ⟨project, hadmitted, hproject⟩ | ⟨⟨e, hproject⟩, hnone⟩ :=
    run_getProjectWithQpu show_ bcc w submission.projectId user
  · rw [hproject]
    dsimp only
    -- the project that admits the user is the stored one
    have hid : w.projects.get project.id = some project := by
      rw [Table.key_of_get hadmitted.stored]
      exact hadmitted.stored
    cases hclient : getClient clients submission.device with
    | error e =>
      refine iff_of_true (.of_error rfl hfresh) fun client token hreaches => ?_
      obtain ⟨_, _, _, hknown, _⟩ := hreaches
      rw [hclient] at hknown
      cases hknown
    | ok client =>
      rw [ofExcept_ok, ret_bind, run_bind]
      obtain ⟨encrypted, token, jobs, htoken, hget, hcreate⟩ | ⟨e, htoken, hcreate⟩ :=
        run_createJob decrypt bcc client hfresh hid
          (newJob jobId submission user calibrationDate project) rfl rfl
      · rw [hcreate]
        dsimp only
        have hfinish := @allOrNothing_finish bcc { w with jobs } client submission.toJobSource
          ⟨jobId, client.publicBaseUrl ++ "/jobs", token⟩ _ hget
        refine hfinish.trans ?_
        constructor
        · rintro hforeseen client' token' ⟨project', _, hadmitted', hclient', htoken'⟩
          obtain rfl : project' = project :=
            Option.some.inj (hadmitted'.stored.symm.trans hadmitted.stored)
          obtain rfl : client' = client := Except.ok.inj (hclient'.symm.trans hclient)
          obtain rfl : token = token' :=
            (Prod.mk.inj (Except.ok.inj (htoken.symm.trans htoken'))).2
          exact hforeseen
        · exact fun hall => hall client token ⟨project, encrypted, hadmitted, hclient, htoken⟩
      · rw [hcreate]
        refine iff_of_true (.of_error rfl hfresh) ?_
        rintro client' token' ⟨project', _, hadmitted', hclient', htoken'⟩
        obtain rfl : project' = project :=
          Option.some.inj (hadmitted'.stored.symm.trans hadmitted.stored)
        obtain rfl : client' = client := Except.ok.inj (hclient'.symm.trans hclient)
        have hboth := htoken.symm.trans htoken'
        cases hboth
  · rw [hproject]
    -- a project that is not found admits no submission, and nothing is written
    refine iff_of_true (.of_error rfl hfresh) ?_
    rintro _ _ ⟨project, _, hadmitted, _, _⟩
    exact absurd hadmitted (hnone project)

end

/-! ## A connection that is reset -/

/-- A circuit that does nothing. -/
def idleCircuit : CircuitSource := ⟨"idle", "OPENQASM 3.0;", by decide, by decide⟩

/-- A submission to loke, for the lab's project. -/
def idleSubmission : JobSubmission where
  shots := 1000
  circuits := [idleCircuit]
  shots_range := by decide
  measLevel_range := .inr rfl
  circuits_length := by decide
  projectId := labProject.id
  device := "loke"

/-- The lab's project, and no job. -/
def labWorld : World where
  projects := labDocuments
  jobs := .empty

/-- Loke, which issues tokens, and what an upload to it comes to. -/
def lokeUploads (upload : Exchange) (_ : String) : Bcc where
  token _ _ _ := .response ⟨200, .json (.object [("access_token", .str "encrypted")])⟩
  upload _ _ := upload

/-- A submission to loke, whose upload comes to this. -/
def submitIdle (upload : Exchange) : Except SubmitExc Job × World :=
  (submitJob .ok (fun project => project.name) [⟨"loke", "https://loke.example"⟩] "job-1"
    idleSubmission labAdmin "2026-01-01").run (exec (lokeUploads upload)) labWorld

theorem allOrNothing_taken :
    AllOrNothing "job-1" idleSubmission.toJobSource (submitIdle (.response ⟨201, .json .null⟩)) := by
  refine (allOrNothing_iff .ok (fun project => project.name) [⟨"loke", "https://loke.example"⟩]
    (lokeUploads (.response ⟨201, .json .null⟩)) idleSubmission labAdmin "2026-01-01" rfl).mpr ?_
  rintro client token - ⟨herror, -⟩
  revert herror
  decide

/-- **An upload whose connection is reset** raises, and the job is still stored. -/
theorem reset_keeps_job :
    (submitIdle (.raised .read)).1.isOk = false ∧
      ((submitIdle (.raised .read)).2.jobs.get "job-1").isSome = true ∧
      ¬ AllOrNothing "job-1" idleSubmission.toJobSource (submitIdle (.raised .read)) := by
  have hraised : (submitIdle (.raised .read)).1.isOk = false := by decide +kernel
  have hkept : ((submitIdle (.raised .read)).2.jobs.get "job-1").isSome = true := by decide +kernel
  refine ⟨hraised, hkept, fun hnothing => ?_⟩
  cases hresult : (submitIdle (.raised .read)).1 with
  | ok job =>
    rw [hresult] at hraised
    cases hraised
  | error e =>
    rw [hnothing.raised e hresult] at hkept
    cases hkept

end Mss.Submission
