import Mss.QpuLedger
import Mss.Services.NewRequests

/-!
# Requests are pending or decided

Requests are created and updated, each call starting after the last ended. An update may leave the
status out, or send it as null or as pending; the approver is recorded all the same.

* `Request.IsDecided`, `IsPending`, `Settled`: what holds of the stored requests.
* `requests_update`: what an update leaves of the requests; `run_update_decision`: a decision of a
  pending request is recorded.
* `Decides`, **`settled_iff`**: each call of a run leaves the requests settled exactly if every
  update that finds its request decides it. `pending_with_approver`: two that do not.
-/

namespace Mss

open Atomic Storage Prog

variable {h : Host} {P : Type} [ProjectStore P]

/-! ## Pending or decided -/

/-- The request is decided, by an approver. -/
def Request.IsDecided (r : Request) : Prop :=
  (r.status = some .approved ∨ r.status = some .rejected) ∧ r.approverId ≠ none

variable (h) in
/-- **The request reads as pending**, has no approver, and each of its target users finds it and
can decide it: a decision is recorded, if what it asks for is done. -/
structure IsPending (db : Db P) (r : Request) : Prop where
  status : r.status.getD .pending = .pending
  approverId : r.approverId = none
  found : ∀ user : User, user.id ∈ r.targetUserIds →
    (findPendingForApprover r.id user).run (exec h) db = (.ok r, db)
  decided : ∀ (g : Generated) (payload : RequestUpdate) (user : User),
    user.id ∈ r.targetUserIds → payload.isDecision = true →
    ((actIfApproved h g payload r user).run (exec h) db).1.isOk = true →
    ∃ decided db', (update h g r.id payload user).run (exec h) db = (.ok decided, db') ∧
      db'.requests.get r.id = some decided ∧ decided.IsDecided

variable (h) in
/-- **Every stored request is pending or decided.** -/
def Settled (db : Db P) : Prop :=
  ∀ pk r, db.requests.get pk = some r → IsPending h db r ∨ r.IsDecided

/-! ## What an update leaves -/

section Update

variable {g : Generated} {pk : Id} {payload : RequestUpdate} {user : User} {db : Db P} {r : Request}

theorem requests_actIfApproved (request : Request) :
    ((actIfApproved h g payload request user).run (exec h) db).2.requests = db.requests := by
  refine run_invariant (I := fun db' : Db P => db'.requests = db.requests) ?_ rfl
  unfold actIfApproved
  split_ifs
  · exact calls_doManyActions (fun o ho db' hdb' => (exec_requests ho).trans hdb') _ _
  · trivial

theorem backend_actIfApproved (request : Request) :
    ((actIfApproved h g payload request user).run (exec h) db).2.backend = db.backend := by
  refine run_invariant (I := fun db' : Db P => db'.backend = db.backend) ?_ rfl
  unfold actIfApproved
  split_ifs
  · exact calls_doManyActions (fun o _ db' hdb' => exec_backend.trans hdb') _ _
  · trivial

theorem requests_tellDecision (decided : Request) :
    ((tellDecision payload decided).run (exec h) db).2.requests = db.requests := by
  refine run_invariant (I := fun db' : Db P => db'.requests = db.requests) ?_ rfl
  refine calls_tellDecision (fun _ db' hdb' => ?_) (fun _ _ db' hdb' => ?_) _ _
  · exact (exec_requests (by simp [Op.writes])).trans hdb'
  · exact (exec_requests (by simp [Op.writes])).trans hdb'

theorem run_tellDecision (hdecides : payload.isDecision = true)
    (hr : (r.apply (payload.changes user)).noticeType.isSome = true) :
    ((tellDecision payload (r.apply (payload.changes user))).run (exec h) db).1 = .ok () := by
  rcases Option.isSome_iff_exists.mp hr with ⟨noticeType, hnotice⟩
  rw [tellDecision, if_pos hdecides]
  simp only [clearApproverNotices, notifyRequester, hnotice, createSystemNotice, perform_bind,
    run_call]
  split_ifs <;> rfl

theorem findPendingRequest_eq_some :
    (exec h (.findPendingRequest pk user.id) db).1 = some r ↔
      db.requests.get pk = some r ∧ user.id ∈ r.targetUserIds ∧ r.status = some .pending := by
  simp [exec, Option.filter_eq_some_iff]

/-- The database once the update of a request is stored. -/
def Db.withRequest (db : Db P) (pk : Id) (u : RequestChanges) : Db P :=
  { db with requests := db.requests.modify pk (.apply u) (Request.apply_id u) }

theorem run_recordDecision (hr : db.requests.get r.id = some r) :
    (recordDecision r user payload).run (exec h) db =
      if (payload.changes user).isRefused db.backend = true then (.error .storage, db)
      else (.ok (r.apply (payload.changes user)), db.withRequest r.id (payload.changes user)) := by
  simp only [recordDecision, perform_bind, run_call, exec, hr]
  split_ifs <;> rfl

variable (g payload) in
/-- **What an update leaves of the requests**: all but the one it found, with the payload recorded
in that, unless what it asks for fails or the database refuses the payload. -/
theorem requests_update (hfound : (exec h (.findPendingRequest pk user.id) db).1 = some r) :
    ((update h g pk payload user).run (exec h) db).2.requests =
      if ((actIfApproved h g payload r user).run (exec h) db).1.isOk = true ∧
        (payload.changes user).isRefused db.backend = false
      then (db.withRequest pk (payload.changes user)).requests else db.requests := by
  have hr := (findPendingRequest_eq_some.mp hfound).1
  have hid : r.id = pk := Table.key_of_get hr
  have hfound' : exec h (.findPendingRequest pk user.id) db = (some r, db) :=
    Prod.ext hfound rfl
  rw [update_eq, perform_bind, run_call, hfound', run_bind]
  have hrequests : ((actIfApproved h g payload r user).run (exec h) db).2.requests = db.requests :=
    requests_actIfApproved r
  have hbackend : ((actIfApproved h g payload r user).run (exec h) db).2.backend = db.backend :=
    backend_actIfApproved r
  rcases hact : (actIfApproved h g payload r user).run (exec h) db with ⟨res, db₁⟩
  rw [hact] at hrequests hbackend
  change db₁.requests = db.requests at hrequests
  change db₁.backend = db.backend at hbackend
  cases res with
  | error err => simpa [Except.isOk, Except.toBool] using hrequests
  | ok _ =>
    have hget : db₁.requests.get r.id = some r := by rw [hrequests, hid, hr]
    simp only [run_bind, run_recordDecision hget, hbackend]
    cases hrefused : (payload.changes user).isRefused db.backend with
    | true => simpa using hrequests
    | false =>
      have htold : ((tellDecision payload (r.apply (payload.changes user))).run (exec h)
          (db₁.withRequest r.id (payload.changes user))).2.requests =
          (db₁.withRequest r.id (payload.changes user)).requests :=
        requests_tellDecision _
      rcases htell : (tellDecision payload (r.apply (payload.changes user))).run (exec h)
        (db₁.withRequest r.id (payload.changes user)) with ⟨res, db₂⟩
      rw [htell] at htold
      have hkept : db₂.requests = (db.withRequest pk (payload.changes user)).requests := by
        rw [Db.withRequest, ← hid, ← hrequests]
        exact htold
      cases res <;> simpa [Except.isOk, Except.toBool, htell] using hkept

theorem run_update_decision (hr : db.requests.get pk = some r) (huser : user.id ∈ r.targetUserIds)
    (hstatus : r.status = some .pending) (hdecides : payload.isDecision = true)
    (hacts : ((actIfApproved h g payload r user).run (exec h) db).1.isOk = true) :
    ∃ decided db', (update h g pk payload user).run (exec h) db = (.ok decided, db') ∧
      db'.requests.get pk = some decided ∧ decided.IsDecided := by
  have hfound := (findPendingRequest_eq_some (h := h)).mpr ⟨hr, huser, hstatus⟩
  have hid : r.id = pk := Table.key_of_get hr
  have hstatus' : (r.apply (payload.changes user)).status = some .approved ∨
      (r.apply (payload.changes user)).status = some .rejected := by
    simp only [RequestUpdate.isDecision, decide_eq_true_eq, RequestUpdate.newStatus,
      Option.join_eq_some_iff] at hdecides
    rcases hdecides with hstatus | hstatus
    · exact .inl (by simp [Request.apply, RequestUpdate.changes, hstatus])
    · exact .inr (by simp [Request.apply, RequestUpdate.changes, hstatus])
  have hrefused : ∀ b, (payload.changes user).isRefused b = false := by
    intro b
    simp only [RequestUpdate.isDecision, decide_eq_true_eq, RequestUpdate.newStatus,
      Option.join_eq_some_iff] at hdecides
    rcases hdecides with hstatus | hstatus <;>
      simp [RequestChanges.isRefused, RequestUpdate.changes, hstatus]
  have hstored := requests_update (h := h) g payload hfound
  rw [if_pos ⟨hacts, hrefused _⟩] at hstored
  have hrun : ((update h g pk payload user).run (exec h) db).1 =
      .ok (r.apply (payload.changes user)) := by
    have hfound' : exec h (.findPendingRequest pk user.id) db = (some r, db) :=
      Prod.ext hfound rfl
    have hrequests : ((actIfApproved h g payload r user).run (exec h) db).2.requests =
        db.requests := requests_actIfApproved r
    rw [update_eq, perform_bind, run_call, hfound', run_bind]
    rcases hact : (actIfApproved h g payload r user).run (exec h) db with ⟨res, db₁⟩
    rw [hact] at hacts hrequests
    cases res with
    | error err => cases hacts
    | ok _ =>
      have hget : db₁.requests.get r.id = some r := by rw [hrequests, hid, hr]
      have hnotice : (r.apply (payload.changes user)).noticeType.isSome = true := by
        rcases hstatus' with hstatus | hstatus <;> simp [Request.noticeType, hstatus]
      have htold : ((tellDecision payload (r.apply (payload.changes user))).run (exec h)
          (db₁.withRequest r.id (payload.changes user))).1 = .ok () :=
        run_tellDecision hdecides hnotice
      simp only [run_bind, run_recordDecision hget, hrefused, Bool.false_eq_true, if_false]
      rcases htell : (tellDecision payload (r.apply (payload.changes user))).run (exec h)
        (db₁.withRequest r.id (payload.changes user)) with ⟨res, db₂⟩
      rw [htell] at htold
      change res = .ok () at htold
      rw [htold]
      rfl
  refine ⟨r.apply (payload.changes user), _, Prod.ext hrun rfl, ?_, hstatus', ?_⟩
  · rw [hstored, Db.withRequest, Table.get_modify, if_pos rfl, hr, Option.map_some]
  · simp [Request.apply, RequestUpdate.changes]

end Update

variable {db db' : Db P} {r : Request}

theorem isPending_iff (hr : db.requests.get r.id = some r) :
    IsPending h db r ↔ r.approverId = none ∧
      (r.status = some .pending ∨ r.status = none ∧ r.targetUserIds = []) := by
  constructor
  · intro hp
    refine ⟨hp.approverId, ?_⟩
    cases hstatus : r.status with
    | some status =>
      have hpending := hp.status
      rw [hstatus, Option.getD_some] at hpending
      exact .inl (by rw [hpending])
    | none =>
      refine .inr ⟨rfl, List.eq_nil_iff_forall_not_mem.mpr fun userId huser => ?_⟩
      have hfound := hp.found { id := userId, email := "" } huser
      have hnone : (exec h (.findPendingRequest r.id userId) db).1 = none := by
        refine Option.eq_none_iff_forall_ne_some.mpr fun q hq => ?_
        have hq' : (exec h (.findPendingRequest r.id (⟨userId, "", true, false, []⟩ : User).id)
            db).1 = some q := hq
        rcases findPendingRequest_eq_some.mp hq' with
          ⟨hget, -, hpending⟩
        rw [hr, Option.some.injEq] at hget
        rw [← hget, hstatus] at hpending
        cases hpending
      have hnone' : exec h (.findPendingRequest r.id userId) db = (none, db) := Prod.ext hnone rfl
      rw [findPendingForApprover, perform_bind, run_call, hnone'] at hfound
      cases hfound
  · rintro ⟨happrover, hstatus | ⟨hnull, hnobody⟩⟩
    · refine ⟨by rw [hstatus]; rfl, happrover, fun user huser => ?_, ?_⟩
      · have hfound := (findPendingRequest_eq_some (h := h)).mpr ⟨hr, huser, hstatus⟩
        have hfound' : exec h (.findPendingRequest r.id user.id) db = (some r, db) :=
          Prod.ext hfound rfl
        rw [findPendingForApprover, perform_bind, run_call, hfound']
        rfl
      · exact fun g payload user huser => run_update_decision hr huser hstatus
    · refine ⟨by rw [hnull]; rfl, happrover, fun user huser => ?_, fun _ _ user huser => ?_⟩
      · rw [hnobody] at huser
        exact absurd huser List.not_mem_nil
      · rw [hnobody] at huser
        exact absurd huser List.not_mem_nil

theorem settled_iff_requests : Settled h db ↔ ∀ pk r, db.requests.get pk = some r →
    (r.approverId = none ∧ (r.status = some .pending ∨ r.status = none ∧ r.targetUserIds = [])) ∨
      r.IsDecided := by
  refine forall_congr' fun pk => forall_congr' fun r => forall_congr' fun hr => ?_
  have hid : r.id = pk := Table.key_of_get hr
  rw [isPending_iff (hid ▸ hr)]

theorem Settled.of_requests_eq (hdb : Settled h db) (hrequests : db'.requests = db.requests) :
    Settled h db' := by
  rw [settled_iff_requests, hrequests]
  exact settled_iff_requests.mp hdb

/-! ## The calls -/

/-- **The calls**: creating a request, and updating one. -/
inductive RequestCall
  | create (body : NewRequests.RequestPostBody) (requester : User) (g : Generated)
  | update (pk : Id) (payload : RequestUpdate) (user : User) (g : Generated)

variable (h) in
/-- The database a call leaves. -/
def RequestCall.after (db : Db P) : RequestCall → Db P
  | .create body requester g => ((NewRequests.create g body requester).run NewRequests.exec db).2
  | .update pk payload user g => ((Mss.update h g pk payload user).run (exec h) db).2

variable (h) in
/-- **The condition**: an update that finds a pending request approves or rejects it, or the
database refuses its status. -/
def Decides (db : Db P) : RequestCall → Prop
  | .create _ _ _ => True
  | .update pk payload user _ => (exec h (.findPendingRequest pk user.id) db).1 = none ∨
      payload.isDecision = true ∨ db.backend = .mongodb ∧ payload.status = some none

instance (db : Db P) : (call : RequestCall) → Decidable (Decides h db call)
  | .create _ _ _ => .isTrue trivial
  | .update pk payload user _ => inferInstanceAs (Decidable
      ((exec h (.findPendingRequest pk user.id) db).1 = none ∨ payload.isDecision = true ∨ _ ∧ _))

theorem settled_create (hdb : Settled h db) (body : NewRequests.RequestPostBody) (requester : User)
    (g : Generated) : Settled h (RequestCall.after h db (.create body requester g)) := by
  refine run_invariant (I := Settled h) (NewRequests.calls_create (fun o ho db hdb => ?_)
    fun targetUserIds db hdb => ?_) hdb
  · refine hdb.of_requests_eq ?_
    cases o with
    | insertRequest r => exact (ho r rfl).elim
    | _ => rfl
  · simp only [NewRequests.exec]
    split
    · next requests hinsert =>
      rw [settled_iff_requests] at hdb ⊢
      intro pk r hr
      change requests.get pk = some r at hr
      rw [Table.get_insert? hinsert] at hr
      split_ifs at hr
      · cases hr
        exact .inl ⟨rfl, .inl rfl⟩
      · exact hdb pk r hr
    · exact hdb

theorem settled_update_iff (hdb : Settled h db) (pk : Id) (payload : RequestUpdate) (user : User)
    (g : Generated) : Settled h (RequestCall.after h db (.update pk payload user g)) ↔
      Decides h db (.update pk payload user g) := by
  cases hfound : (exec h (.findPendingRequest pk user.id) db).1 with
  | none =>
    -- no pending request is found, and nothing is written
    refine iff_of_true (hdb.of_requests_eq ?_) (.inl hfound)
    have hfound' : exec h (.findPendingRequest pk user.id) db = (none, db) := Prod.ext hfound rfl
    rw [RequestCall.after, update_eq, perform_bind, run_call, hfound']
    rfl
  | some r =>
    rcases findPendingRequest_eq_some.mp hfound with ⟨hr, huser, hstatus⟩
    have hstored := requests_update (h := h) g payload hfound
    have hsome : (exec h (.findPendingRequest pk user.id) db).1 ≠ none := by rw [hfound]; simp
    -- a payload that is no decision may take the status away
    by_cases hdecides : payload.isDecision = true
    · refine iff_of_true ?_ (.inr (.inl hdecides))
      by_cases hacts : ((actIfApproved h g payload r user).run (exec h) db).1.isOk = true
      · rcases run_update_decision hr huser hstatus hdecides hacts with
          ⟨decided, db', hrun, hget, hdecided⟩
        rw [settled_iff_requests] at hdb ⊢
        rw [RequestCall.after, hrun]
        intro pk' r' hr'
        by_cases hpk : pk' = pk
        · subst hpk
          change db'.requests.get pk' = some r' at hr'
          rw [hget] at hr'
          cases hr'
          exact .inr hdecided
        · refine hdb pk' r' ?_
          rw [hrun] at hstored
          change db'.requests.get pk' = some r' at hr'
          change db'.requests = _ at hstored
          rw [hstored] at hr'
          split_ifs at hr'
          · rw [Db.withRequest, Table.get_modify, if_neg hpk] at hr'
            exact hr'
          · exact hr'
      · rw [if_neg fun hc => hacts hc.1] at hstored
        exact hdb.of_requests_eq hstored
    · have happroves : payload.newStatus ≠ some .approved := by
        intro happroves
        exact hdecides (by simp [RequestUpdate.isDecision, happroves])
      have hacts : ((actIfApproved h g payload r user).run (exec h) db).1.isOk = true := by
        rw [actIfApproved, if_neg happroves]
        rfl
      by_cases hrefused : (payload.changes user).isRefused db.backend = true
      · rw [if_neg fun hc => by rw [hrefused] at hc; exact Bool.noConfusion hc.2] at hstored
        refine iff_of_true (hdb.of_requests_eq hstored) (.inr (.inr ?_))
        exact of_decide_eq_true hrefused
      · rw [if_pos ⟨hacts, by simpa using hrefused⟩] at hstored
        refine iff_of_false (fun hsettled => ?_) ?_
        · -- the request has an approver, and is not decided
          have hget : (RequestCall.after h db (.update pk payload user g)).requests.get pk =
              some (r.apply (payload.changes user)) := by
            rw [RequestCall.after, hstored, Db.withRequest, Table.get_modify, if_pos rfl, hr,
              Option.map_some]
          rcases settled_iff_requests.mp hsettled pk _ hget with ⟨hnone, -⟩ | ⟨hdecided, -⟩
          · simp [Request.apply, RequestUpdate.changes] at hnone
          · refine hdecides ?_
            simp only [Request.apply, RequestUpdate.changes] at hdecided
            cases hsent : payload.status with
            | none => simp [hsent, hstatus] at hdecided
            | some status =>
              rw [hsent, Option.getD_some] at hdecided
              simpa [RequestUpdate.isDecision, RequestUpdate.newStatus, hsent] using hdecided
        · rintro (hnone | hdecides' | ⟨hbackend, hnull⟩)
          · exact hsome hnone
          · exact hdecides hdecides'
          · exact hrefused (by simp [RequestChanges.isRefused, RequestUpdate.changes, hbackend, hnull])

/-! ## Runs -/

variable (h) in
/-- Every call of the run leaves the requests settled. -/
def EachSettles (db : Db P) : List RequestCall → Prop
  | [] => True
  | call :: calls => Settled h (call.after h db) ∧ EachSettles (call.after h db) calls

variable (h) in
/-- Every update of the run decides what it finds. -/
def EachDecides (db : Db P) : List RequestCall → Prop
  | [] => True
  | call :: calls => Decides h db call ∧ EachDecides (call.after h db) calls

instance : (calls : List RequestCall) → (db : Db P) → Decidable (EachDecides h db calls)
  | [], _ => .isTrue trivial
  | call :: calls, db =>
    have := instDecidableEachDecides calls (call.after h db)
    inferInstanceAs (Decidable (Decides h db call ∧ EachDecides h (call.after h db) calls))

variable (h) in
/-- **Each call of a run leaves the requests pending or decided exactly if each update decides**
what it finds. -/
theorem settled_iff (calls : List RequestCall) {db : Db P} (hdb : Settled h db) :
    EachSettles h db calls ↔ EachDecides h db calls := by
  induction calls generalizing db with
  | nil => exact Iff.rfl
  | cons call calls ih =>
    have hcall : Settled h (call.after h db) ↔ Decides h db call := by
      cases call with
      | create body requester g => exact iff_of_true (settled_create hdb body requester g) trivial
      | update pk payload user g => exact settled_update_iff hdb pk payload user g
    rw [EachSettles, EachDecides, ← hcall]
    exact and_congr_right fun hsettled => ih hsettled

theorem settled_of_empty (hdb : db.requests.rows = []) : Settled h db := by
  intro pk r hr
  have hmem := (Table.get_eq_some.mp hr).1
  rw [hdb] at hmem
  exact absurd hmem List.not_mem_nil

/-! ## A request for seconds -/

/-- A member of the project. -/
def labMember : User := { id := "65f0000000000000000000a2", email := "ben@lab.org" }

/-- The project and its admin, with the projects in any store. -/
def quietDb {P : Type} (backend : Backend) (projects : P) : Db P :=
  { backend := backend, projects := projects, users := Table.empty.insert labAdmin rfl }

/-- The member asks for 30 more seconds. -/
def askSeconds : RequestCall :=
  .create { resourceId := labProject.id, reason := "a long experiment",
            metadata := labRequest.metadata } labMember labGenerated

/-- The admin sends an update with a status, or none. -/
def sendStatus (status : Option (Option RequestStatus)) : RequestCall :=
  .update labGenerated.id { status, updatedAt := none } labAdmin labGenerated

/-- The request's status and approver, as stored. -/
def standingOf {P : Type} (db : Db P) : Option (Option RequestStatus × Option Id) :=
  (db.requests.get labGenerated.id).map fun r => (r.status, r.approverId)

/-- The theorem where the admin approves, on rows, and on documents after a null is refused. -/
theorem settled_iff_lab :
    EachSettles labHost (quietDb .sql labTables) [askSeconds, sendStatus (some (some .approved))] ∧
    EachSettles labHost (quietDb .mongodb labDocuments)
      [askSeconds, sendStatus (some none), sendStatus (some (some .approved))] :=
  ⟨(settled_iff labHost _ (settled_of_empty rfl)).mpr (by decide +kernel),
    (settled_iff labHost _ (settled_of_empty rfl)).mpr (by decide +kernel)⟩

/-- **A request reads as pending and has an approver**, after an update without a status on either
store, and after one with a null status on SQL, where it is not found any more. -/
theorem pending_with_approver :
    (standingOf (RequestCall.after labHost (RequestCall.after labHost
        (quietDb .mongodb labDocuments) askSeconds) (sendStatus none)) =
      some (some .pending, some labAdmin.id)) ∧
    (standingOf (RequestCall.after labHost (RequestCall.after labHost
        (quietDb .sql labTables) askSeconds) (sendStatus (some none))) =
      some (none, some labAdmin.id)) ∧
    ¬ EachSettles labHost (quietDb .mongodb labDocuments) [askSeconds, sendStatus none] ∧
    ¬ EachSettles labHost (quietDb .sql labTables) [askSeconds, sendStatus (some none)] := by
  have hunsettled : ∀ {P : Type} [ProjectStore P] {db : Db P} {status : Option RequestStatus},
      standingOf db = some (status, some labAdmin.id) → status ≠ some .approved →
      status ≠ some .rejected → ¬ Settled labHost db := by
    intro P _ db status hstanding happroved hrejected hsettled
    rcases Option.map_eq_some_iff.mp hstanding with ⟨r, hr, hstands⟩
    rw [Prod.mk.injEq] at hstands
    rcases settled_iff_requests.mp hsettled _ r hr with ⟨hnone, -⟩ | ⟨hdecided | hdecided, -⟩
    · rw [hstands.2] at hnone
      cases hnone
    · exact happroved (hstands.1.symm.trans hdecided)
    · exact hrejected (hstands.1.symm.trans hdecided)
  have hdocuments : standingOf (RequestCall.after labHost (RequestCall.after labHost
      (quietDb .mongodb labDocuments) askSeconds) (sendStatus none)) =
      some (some .pending, some labAdmin.id) := by decide +kernel
  have htables : standingOf (RequestCall.after labHost (RequestCall.after labHost
      (quietDb .sql labTables) askSeconds) (sendStatus (some none))) =
      some (none, some labAdmin.id) := by decide +kernel
  exact ⟨hdocuments, htables,
    fun hsettles => hunsettled hdocuments (by decide) (by decide) hsettles.2.1,
    fun hsettles => hunsettled htables (by decide) (by decide) hsettles.2.1⟩

end Mss
