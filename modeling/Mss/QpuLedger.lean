import Mathlib.Tactic.Ring
import Mss.Services.Jobs
import Mss.Services.Requests
import Mss.SqlProjects

/-!
# QPU seconds are conserved

Charges of jobs, decisions of requests for QPU seconds, and the operations that leave a project's
balance alone run in any order, one operation of the database at a time.

* `LedgerTask`: the calls; `LedgerTask.granted`, `LedgerTask.charged`: the seconds of each.
* `takers`: the calls whose increment of the project took effect, in the order they did.
* `ledgerProtocol`: a call increments once at most, by its own seconds.
* **`qpuSeconds_conserved`**: the balance is what it was, plus the seconds granted and less those
  charged by the takers, each of which is counted once.
-/

namespace Mss

open Atomic Storage Prog

/-! ## The calls -/

/-- **The calls that run at once.** An update of the project sets no QPU seconds. -/
inductive LedgerTask
  | charge (threshold : ℚ) (jobId : String) (qpuUsage : ℚ)
  | decide (pk : Id) (payload : RequestUpdate) (approver : User) (g : Generated)
  | addMember (projectId userId : Id)
  | setAdmin (projectId userId : Id)
  | setPulseAllowed (projectId : Id)
  | removeMember (project : Project) (memberId : Id) (actor : User)
  | updateProject (project : Project) (payload : {u : ProjectUpdate // u.qpuSeconds = none})
      (actor : User) (g : Generated)
  | login (user : User) (qpuSeconds : ℚ) (g : Generated)

/-- The program of a call. -/
def LedgerTask.service (h : Host) : LedgerTask → Service Unit
  | .charge threshold jobId qpuUsage => do
    let _ ← updateQpuUsage h threshold jobId qpuUsage
  | .decide pk payload approver g => do
    let _ ← update h g pk payload approver
  | .addMember projectId userId => do
    let _ ← Mss.addMember projectId userId
  | .setAdmin projectId userId => do
    let _ ← Mss.setAdmin projectId userId
  | .setPulseAllowed projectId => do
    let _ ← Mss.setPulseAllowed projectId
  | .removeMember project memberId actor => do
    let _ ← Mss.removeMember project memberId actor
  | .updateProject project payload actor g => do
    let _ ← Mss.updateProject h g project payload.1 actor
  | .login user qpuSeconds g => do
    let _ ← ensurePersonalProject h g user qpuSeconds

/-- The seconds a request asks for. -/
def Request.seconds (r : Request) : ℚ :=
  match r.metadata with
  | .projectQpuSeconds s => s.1
  | _ => 0

/-- The seconds a call grants if it takes effect. -/
def LedgerTask.granted (requests : Table Request Request.id) : LedgerTask → ℚ
  | .decide pk _ _ _ => ((requests.get pk).map (·.seconds)).getD 0
  | _ => 0

/-- The seconds a call charges if it takes effect. -/
def LedgerTask.charged : LedgerTask → ℚ
  | .charge _ _ qpuUsage => qpuUsage
  | _ => 0

/-- Whether a call may increment a balance at all. -/
def LedgerTask.mayTake : LedgerTask → Bool
  | .charge _ _ _ | .decide _ _ _ _ => true
  | _ => false

/-! ## What an operation does to a balance -/

/-- What an operation may do to a stored project's balance. -/
inductive BalanceEffect
  | keeps
  | increments (v : ℚ)
  | other

/-- What the operation may do to the balance of the project it is about. -/
def Op.balanceEffect : Op → BalanceEffect
  | .deleteProject _ => .other
  | .updateProject _ u => match u.qpuSeconds with
    | none => .keeps
    | some (.inc v) => .increments v
    | some (.set _) => .other
  | _ => .keeps

/-- The operation leaves the balance of every stored project alone. -/
abbrev Op.KeepsBalance (o : Op) : Prop := o.balanceEffect = .keeps

/-- The event took effect on some project: it inserted, updated or deleted one. -/
def changesProject : Event Resp → Bool
  | ⟨.insertProject _, .ok _⟩ => true
  | ⟨.updateProject _ _, .ok (some _)⟩ => true
  | ⟨.deleteProject _, some _⟩ => true
  | _ => false

/-- The increment of the project that the event is, if it took effect. -/
def increment (pid : Id) : Event Resp → Option ℚ
  | ⟨.updateProject id u, .ok (some _)⟩ => match u.qpuSeconds with
    | some (.inc v) => if id = pid then some v else none
    | _ => none
  | _ => none

/-- **The calls whose increment of the project took effect**, in the order they did. -/
def takers {ι : Type} (pid : Id) (trace : List (ι × Event Resp)) : List ι :=
  trace.filterMap fun x => (increment pid x.2).map fun _ => x.1

theorem takers_append {ι : Type} (pid : Id) (trace : List (ι × Event Resp)) (i : ι)
    (e : Event Resp) : takers pid (trace ++ [(i, e)]) =
      takers pid trace ++ ((increment pid e).map fun _ => i).toList := by
  simp only [takers, List.filterMap_append, List.append_cancel_left_eq]
  cases he : increment pid e <;> simp [he]

theorem balanceEffect_of_increment {pid : Id} {e : Event Resp} {v : ℚ}
    (he : increment pid e = some v) : e.1.balanceEffect = .increments v := by
  obtain ⟨o, r⟩ := e
  cases o with
  | updateProject id u =>
    match r, hu : u.qpuSeconds with
    | .ok (some _), some (.inc w) =>
      simp only [increment, hu] at he
      split_ifs at he
      cases he
      simp [Op.balanceEffect, hu]
    | .ok (some _), some (.set _) => simp [increment, hu] at he
    | .ok (some _), none => simp [increment, hu] at he
    | .ok none, _ => cases he
    | .error _, _ => cases he
  | _ => cases he

/-- **An event that neither sets a balance nor deletes changes it by its increment.** -/
theorem balance_projectAfter {pid : Id} {e : Event Resp} {p : Project}
    (heffect : e.1.balanceEffect ≠ .other)
    (hinsert : ∀ q, e = ⟨.insertProject q, .ok ()⟩ → pid ≠ q.id) :
    ∃ p', projectAfter pid e (some p) = some p' ∧
      p'.qpuSeconds = p.qpuSeconds + (increment pid e).getD 0 := by
  obtain ⟨o, r⟩ := e
  cases o with
  | insertProject q =>
    cases r with
    | ok _ => exact ⟨p, by simp [projectAfter, hinsert q rfl], by simp [increment]⟩
    | error _ => exact ⟨p, rfl, by simp [increment]⟩
  | updateProject id u =>
    rcases r with _ | _ | q
    · exact ⟨p, rfl, by simp [increment]⟩
    · exact ⟨p, rfl, by simp [increment]⟩
    · by_cases hid : pid = id
      · subst hid
        refine ⟨p.apply u, by simp [projectAfter], ?_⟩
        cases hu : u.qpuSeconds with
        | none => simp [Project.apply, increment, hu]
        | some change =>
          cases change with
          | inc v => simp [Project.apply, NumberChange.apply, increment, hu]
          | set v => exact absurd (by simp [Op.balanceEffect, hu]) heffect
      · refine ⟨p, by simp [projectAfter, hid], ?_⟩
        have : increment pid ⟨.updateProject id u, .ok (some q)⟩ = none := by
          simp only [increment, Ne.symm hid, if_false]
          split <;> rfl
        rw [this]
        simp
  | deleteProject id => exact absurd rfl heffect
  | _ => exact ⟨p, rfl, by simp [increment]⟩

/-! ## The protocol of a call -/

variable (requests : Table Request Request.id)

/-- **What a call does to balances**: its phase is whether it has incremented one. It increments
once at most, by the seconds it grants or charges. A request it finds is one for QPU seconds, those
that were stored at the start. -/
def ledgerProtocol (task : LedgerTask) : Protocol Resp Exc Unit Bool where
  next m e := match e.1.balanceEffect with
    | .increments _ => true
    | _ => m
  assumes _ e := ∀ pk payload approver g, task = .decide pk payload approver g →
    ∀ r, e = ⟨.findPendingRequest pk approver.id, some r⟩ →
      r.type = .projectQpuSeconds ∧ r.seconds = task.granted requests
  allows m e := match e.1.balanceEffect with
    | .keeps => True
    | .increments v => m = false ∧ task.mayTake = true ∧ v = task.granted requests - task.charged
    | .other => False
  ends _ _ := True

variable {requests} {task : LedgerTask}

theorem silent_of_keeps {o : Op} (ho : o.KeepsBalance) :
    Silent (ledgerProtocol requests task) o := by
  intro m r
  simp [ledgerProtocol, ho]

theorem keeps_of_isMembership (o : Op) (ho : o.isMembership) : o.KeepsBalance := by
  cases o <;> first | rfl | cases ho

theorem follows_of_keeps {m : Bool} {p : Service Unit}
    (hp : p.Calls Op.KeepsBalance) :
    Follows (ledgerProtocol requests task) m p :=
  follows_silent (hp.mono fun _ => silent_of_keeps) fun _ => trivial

theorem follows_of_keeps_bind {α : Type} {m : Bool} {p : Service α} {f : α → Service Unit}
    (hp : p.Calls Op.KeepsBalance)
    (hf : ∀ a, Follows (ledgerProtocol requests task) m (f a)) :
    Follows (ledgerProtocol requests task) m (p >>= f) :=
  follows_silent_bind (hp.mono fun _ => silent_of_keeps) (fun _ => trivial) hf

theorem follows_increment {pid : Id} {v : ℚ} {f : Resp (.updateProject pid
      { qpuSeconds := some (.inc v) }) → Service Unit} (htake : task.mayTake = true)
    (hv : v = task.granted requests - task.charged)
    (hf : ∀ r, (f r).Calls Op.KeepsBalance) :
    Follows (ledgerProtocol requests task) false
      (call (.updateProject pid { qpuSeconds := some (.inc v) }) >>= f) :=
  follows_perform_bind.mpr fun r _ => ⟨⟨rfl, htake, hv⟩, follows_of_keeps (hf r)⟩

theorem follows_charge {h : Host} {threshold : ℚ} {jobId : String} {qpuUsage : ℚ} :
    Follows (ledgerProtocol requests (.charge threshold jobId qpuUsage)) false (do
      let _ ← updateQpuUsage h threshold jobId qpuUsage) := by
  unfold updateQpuUsage
  rw [bind_assoc]
  refine follows_of_keeps_bind (calls_getJob rfl) fun job => ?_
  cases job.projectId with
  | none => exact follows_of_keeps trivial
  | some pid =>
    unfold incrementQpuSeconds
    rw [bind_assoc, bind_assoc]
    refine follows_increment rfl (by simp [LedgerTask.granted, LedgerTask.charged]) fun r => ?_
    refine calls_bind (calls_ofExcept r) fun project => ?_
    cases project with
    | none => trivial
    | some project =>
      refine calls_bind ?_ fun _ => trivial
      dsimp only
      split
      · trivial
      · exact calls_bind (calls_notifyProject (fun _ => rfl) _ _) fun _ => trivial

theorem follows_grant {h : Host} {g : Generated} {request : Request} {approver : User}
    {f : Unit → Service Unit} (htype : request.type = .projectQpuSeconds)
    (htake : task.mayTake = true)
    (hseconds : request.seconds = task.granted requests - task.charged)
    (hf : (f ()).Calls Op.KeepsBalance) :
    Follows (ledgerProtocol requests task) false (doManyActions h g request approver >>= f) := by
  obtain ⟨seconds, hmetadata⟩ : ∃ s, request.metadata = .projectQpuSeconds s := by
    revert htype
    cases hm : request.metadata <;> simp [Request.type, RequestMetadata.type, hm]
  rw [doManyActions_qpuSeconds hmetadata, bind_assoc]
  refine follows_of_keeps_bind ((calls_perform _).mpr rfl) fun project => ?_
  cases project with
  | none => exact follows_of_keeps trivial
  | some project =>
    dsimp only
    rw [bind_assoc]
    refine follows_increment htake (by simpa [Request.seconds, hmetadata] using hseconds)
      fun r => ?_
    cases r with
    | ok project => exact hf
    | error e => trivial

theorem follows_decide {h : Host} {pk : Id} {payload : RequestUpdate} {approver : User}
    {g : Generated} :
    Follows (ledgerProtocol requests (.decide pk payload approver g)) false (do
      let _ ← update h g pk payload approver) := by
  rw [update_eq, bind_assoc]
  refine follows_perform_bind.mpr fun r hr => ⟨trivial, ?_⟩
  cases r with
  | none => trivial
  | some request =>
    obtain ⟨htype, hseconds⟩ := hr _ _ _ _ rfl request rfl
    have hrest : (do
        let decided ← recordDecision request approver payload
        tellDecision payload decided
        pure decided : Service Request).Calls Op.KeepsBalance := by
      refine calls_bind (calls_recordDecision rfl) fun decided => ?_
      exact calls_bind (calls_tellDecision (fun _ => rfl) (fun _ _ => rfl) _ _) fun _ => trivial
    dsimp only
    unfold actIfApproved
    split_ifs
    · rw [bind_assoc]
      refine follows_grant htype rfl (hseconds.trans (sub_zero _).symm) ?_
      exact calls_bind hrest fun _ => trivial
    · exact follows_of_keeps (calls_bind hrest fun _ => trivial)

/-- **Every call follows its protocol.** -/
theorem follows_service (h : Host) (requests : Table Request Request.id) (task : LedgerTask) :
    Follows (ledgerProtocol requests task) false (task.service h) := by
  cases task with
  | charge threshold jobId qpuUsage => exact follows_charge
  | decide pk payload approver g => exact follows_decide
  | addMember projectId userId =>
    exact follows_of_keeps (calls_bind (calls_updateOne rfl) fun _ => trivial)
  | setAdmin projectId userId =>
    exact follows_of_keeps (calls_bind (calls_updateOne rfl) fun _ => trivial)
  | setPulseAllowed projectId =>
    exact follows_of_keeps (calls_bind (calls_updateOne rfl) fun _ => trivial)
  | removeMember project memberId actor =>
    refine follows_of_keeps (calls_bind (calls_removeMember ?_ ?_ rfl) fun _ => trivial)
    · exact keeps_of_isMembership
    · exact fun _ => rfl
  | updateProject project payload actor g =>
    refine follows_of_keeps (calls_bind (calls_updateProject ?_ ?_ ?_) fun _ => trivial)
    · exact keeps_of_isMembership
    · exact fun _ => rfl
    · intro adminId userIds
      simp [Op.KeepsBalance, Op.balanceEffect, ProjectUpdate.changes, payload.2]
  | login user qpuSeconds g =>
    exact follows_of_keeps (calls_bind (calls_ensurePersonalProject rfl rfl) fun _ => trivial)

/-! ## The invariant -/

variable {P : Type} [ProjectStore P] {h : Host} {ι : Type} [DecidableEq ι]

/-- The programs of the calls. -/
abbrev ledgerPool (h : Host) (tasks : ι → LedgerTask) (i : ι) : Service Unit :=
  (tasks i).service h

/-- The protocols of the calls. -/
abbrev ledgerProtocols (requests : Table Request Request.id) (tasks : ι → LedgerTask) (i : ι) :
    Protocol Resp Exc Unit Bool := ledgerProtocol requests (tasks i)

/-- **The invariant**: the balance is accounted for, each taker has used its one increment, and
what requests ask for has not changed. -/
structure LedgerInv (tasks : ι → LedgerTask) (db : Db P) (pid : Id) (p₀ : Project)
    (c : Config (Db P) ι Resp Exc Unit) : Prop where
  balance : ∃ p, KeyedStore.get c.store.projects pid = some p ∧
    p.qpuSeconds = p₀.qpuSeconds + ((takers pid c.trace).map fun i =>
      (tasks i).granted db.requests - (tasks i).charged).sum
  once : (takers pid c.trace).Nodup
  used : ∀ i ∈ takers pid c.trace,
    c.phase (ledgerProtocols db.requests tasks) (fun _ => false) i = true
  taken : ∀ i ∈ takers pid c.trace, (tasks i).mayTake = true
  asked : ∀ pk, (c.store.requests.get pk).map (·.metadata) =
    (db.requests.get pk).map (·.metadata)

theorem metadata_requestAfter (pk : Id) (e : Event Resp) (r : Option Request) :
    (requestAfter pk e r).map (·.metadata) = r.map (·.metadata) := by
  unfold requestAfter
  split
  · split_ifs
    · cases r <;> rfl
    · rfl
  · rfl

section Step

variable {tasks : ι → LedgerTask} {db : Db P} {pid : Id} {p₀ : Project} {i : ι} {e : Event Resp}
  {c c' : Config (Db P) ι Resp Exc Unit}

theorem LedgerInv.assumes (hrequests : ∀ i pk payload approver g, tasks i =
      .decide pk payload approver g → ∀ r, db.requests.get pk = some r →
        r.type = .projectQpuSeconds)
    (hinv : LedgerInv tasks db pid p₀ c) (hs : StepBy (exec h) i e c c') (m : Bool) :
    (ledgerProtocols db.requests tasks i).assumes m e := by
  rintro pk payload approver g htask r rfl
  have hfound : c.store.requests.get pk = some r := by
    have := hs.resp
    simp only [exec, Option.filter_eq_some_iff] at this
    exact this.1
  obtain ⟨r₀, hr₀, hmetadata⟩ : ∃ r₀, db.requests.get pk = some r₀ ∧ r₀.metadata = r.metadata := by
    have := hinv.asked pk
    rw [hfound] at this
    simpa using this.symm
  have htype := hrequests i pk payload approver g htask r₀ hr₀
  refine ⟨by simpa [Request.type, hmetadata] using htype, ?_⟩
  simp [htask, LedgerTask.granted, hr₀, Request.seconds, hmetadata]

theorem phase_step (hs : StepBy (exec h) i e c c') {j : ι}
    (hj : c.phase (ledgerProtocols db.requests tasks) (fun _ => false) j = true) :
    c'.phase (ledgerProtocols db.requests tasks) (fun _ => false) j = true := by
  by_cases hij : j = i
  · subst hij
    rw [hs.phase_self]
    simp only [ledgerProtocol]
    split
    · rfl
    · exact hj
  · rwa [hs.phase_ne _ _ hij]

/-- **A step of a call that follows its protocol keeps the invariant.** -/
theorem LedgerInv.step (hinv : LedgerInv tasks db pid p₀ c) (hs : StepBy (exec h) i e c c')
    (hallow : (ledgerProtocols db.requests tasks i).allows
      (c.phase (ledgerProtocols db.requests tasks) (fun _ => false) i) e) :
    LedgerInv tasks db pid p₀ c' := by
  obtain ⟨p, hp, hbalance⟩ := hinv.balance
  have hother : e.1.balanceEffect ≠ .other := by
    intro ho
    simp [ledgerProtocol, ho] at hallow
  have hinsert : ∀ q, e = ⟨.insertProject q, .ok ()⟩ → pid ≠ q.id := by
    rintro q rfl rfl
    rw [free_of_answer hs.resp] at hp
    cases hp
  obtain ⟨p', hp', hbalance'⟩ := balance_projectAfter hother hinsert (p := p)
  have hstored : KeyedStore.get c'.store.projects pid = some p' := by
    rw [step_projects hs, hp, hp']
  have hasked : ∀ pk, (c'.store.requests.get pk).map (·.metadata) =
      (db.requests.get pk).map (·.metadata) := fun pk => by
    rw [step_requests hs, metadata_requestAfter, hinv.asked]
  cases hincrement : increment pid e with
  | none =>
    -- an event that changes no balance adds no taker
    have htakers : takers pid c'.trace = takers pid c.trace := by
      rw [hs.trace, takers_append, hincrement]
      exact List.append_nil _
    refine ⟨⟨p', hstored, ?_⟩, ?_, ?_, ?_, hasked⟩
    · rw [hbalance', hbalance, hincrement, htakers]
      simp
    · rw [htakers]; exact hinv.once
    · rw [htakers]; exact fun j hj => phase_step hs (hinv.used j hj)
    · rw [htakers]; exact hinv.taken
  | some v =>
    -- the protocol takes once, so that a caller that increments is a new taker
    have heffect := balanceEffect_of_increment hincrement
    simp only [ledgerProtocol, heffect] at hallow
    obtain ⟨hphase, htake, hv⟩ := hallow
    have htakers : takers pid c'.trace = takers pid c.trace ++ [i] := by
      rw [hs.trace, takers_append, hincrement]
      rfl
    have hnew : i ∉ takers pid c.trace := fun hi => by
      rw [hinv.used i hi] at hphase
      cases hphase
    have hused : c'.phase (ledgerProtocols db.requests tasks) (fun _ => false) i = true := by
      rw [hs.phase_self]
      simp [ledgerProtocol, heffect]
    refine ⟨⟨p', hstored, ?_⟩, ?_, ?_, ?_, hasked⟩
    · rw [hbalance', hbalance, hincrement, htakers, hv]
      simp [add_assoc]
    · rw [htakers, List.nodup_append]
      refine ⟨hinv.once, List.nodup_singleton i, ?_⟩
      rintro j hj k hk rfl
      exact hnew (List.mem_singleton.mp hk ▸ hj)
    · intro j hj
      rw [htakers, List.mem_append, List.mem_singleton] at hj
      obtain hj | rfl := hj
      · exact phase_step hs (hinv.used j hj)
      · exact hused
    · intro j hj
      rw [htakers, List.mem_append, List.mem_singleton] at hj
      obtain hj | rfl := hj
      · exact hinv.taken j hj
      · exact htake

end Step

theorem sum_map_sub {α : Type} (l : List α) (a b : α → ℚ) :
    (l.map fun x => a x - b x).sum = (l.map a).sum - (l.map b).sum := by
  induction l with
  | nil => simp
  | cons x l ih =>
    simp only [List.map_cons, List.sum_cons, ih]
    ring

/-- **QPU seconds are conserved.** In every interleaving the project stays stored, and its balance
is its starting one, plus the seconds granted and less those charged by the calls whose increment
took effect, each counted once. -/
theorem qpuSeconds_conserved (h : Host) (tasks : ι → LedgerTask) {db : Db P} {pid : Id}
    {p₀ : Project} (hstored : KeyedStore.get db.projects pid = some p₀)
    (hrequests : ∀ i pk payload approver g, tasks i = .decide pk payload approver g →
      ∀ r, db.requests.get pk = some r → r.type = .projectQpuSeconds)
    {c : Config (Db P) ι Resp Exc Unit}
    (hr : Reach (exec h) anyStep (Config.start db (ledgerPool h tasks)) c) :
    (∃ p, KeyedStore.get c.store.projects pid = some p ∧
      p.qpuSeconds = p₀.qpuSeconds
        + ((takers pid c.trace).map fun i => (tasks i).granted db.requests).sum
        - ((takers pid c.trace).map fun i => (tasks i).charged).sum) ∧
    (takers pid c.trace).Nodup ∧ ∀ i ∈ takers pid c.trace, (tasks i).mayTake = true := by
  have hstart : LedgerInv tasks db pid p₀ (Config.start db (ledgerPool h tasks)) :=
    ⟨⟨p₀, hstored, by simp [takers, Config.start]⟩, List.nodup_nil, by simp [takers, Config.start],
      by simp [takers, Config.start], fun _ => rfl⟩
  obtain ⟨-, hinv⟩ := hr.invariant (ledgerProtocols db.requests tasks) (fun _ => false)
    (LedgerInv tasks db pid p₀) (fun i => follows_service h db.requests (tasks i)) hstart
    (fun c i e c' _ hinv _ hs => hinv.assumes hrequests hs _)
    (fun c i e c' _ _ hinv _ hs hallow => hinv.step hs hallow)
  obtain ⟨p, hp, hbalance⟩ := hinv.balance
  refine ⟨⟨p, hp, ?_⟩, hinv.once, hinv.taken⟩
  rw [hbalance, sum_map_sub]
  ring

/-! ## A charge and a grant at once -/

/-- A host for texts already in lower case. -/
def labHost : Host where
  lower := id
  collate := id
  sha256 := id
  decrypt := .ok

/-- What a call generates, where it keeps none of it. -/
def labGenerated : Generated where
  id := "65f0000000000000000000e1"
  userId _ := "65f0000000000000000000e2"
  token := "token"
  now := "2026-01-01T00:00:00.000Z"
  nowMicros := 1767225600000000

/-- A superuser. -/
def labAdmin : User :=
  { id := "65f0000000000000000000a1", email := "admin@lab.org", roles := [.admin] }

/-- A project of two members. -/
def labProject : Project where
  id := "65f0000000000000000000b1"
  name := "lab"
  qpuSeconds := 100
  userIds := ["65f0000000000000000000a1", "65f0000000000000000000a2"]
  adminId := "65f0000000000000000000a1"
  createdAt := "2026-01-01T00:00:00.000Z"
  updatedAt := "2026-01-01T00:00:00.000Z"

/-- A job billed to the project. -/
def labJob : Job :=
  { jobId := "job-1", device := "loke", calibrationDate := "2026-01-01", projectId := labProject.id }

/-- A pending request for 30 more seconds. -/
def labRequest : Request where
  id := "65f0000000000000000000d1"
  resourceId := labProject.id
  reason := "a long experiment"
  metadata := .projectQpuSeconds ⟨30, by decide +kernel⟩
  requesterId := "65f0000000000000000000a2"
  targetUserIds := [labAdmin.id]
  createdAt := none
  updatedAt := none

/-- The job and the request, with the projects in any store. -/
def labDb {P : Type} (backend : Backend) (projects : P) : Db P where
  backend := backend
  projects := projects
  jobs := Table.empty.insert labJob rfl
  requests := Table.empty.insert labRequest rfl

/-- The project as a document. -/
def labDocuments : ProjectDocuments := Table.empty.insert labProject rfl

/-- The project as rows. -/
def labTables : ProjectTables := (ProjectTables.empty.insert labProject).getD .empty

/-- The job's 5 seconds are charged while the request is approved. -/
def labTasks : Bool → LedgerTask
  | false => .charge 10 labJob.jobId 5
  | true => .decide labRequest.id { status := some (some .approved), updatedAt := none } labAdmin
      labGenerated

/-- The turns of the two calls, each reading before either writes. -/
def labTurns : List Bool := [false, true, true, false, true, true, true, true]

/-- Where the turns lead. -/
def labEnd {P : Type} [ProjectStore P] (db : Db P) : Config (Db P) Bool Resp Exc Unit :=
  (Config.start db (ledgerPool labHost labTasks)).schedule (exec labHost) labTurns

theorem labRequests {P : Type} (backend : Backend) (projects : P) : ∀ i pk payload approver g,
    labTasks i = .decide pk payload approver g →
    ∀ r, (labDb backend projects).requests.get pk = some r → r.type = .projectQpuSeconds := by
  intro i pk payload approver g htask r hr
  have hmem := (Table.get_eq_some.mp hr).1
  have hrows : (labDb backend projects).requests.rows = [labRequest] := rfl
  rw [hrows, List.mem_singleton] at hmem
  rw [hmem]
  rfl

/-- The theorem at one interleaving, on documents and on rows: 100 seconds become 125. -/
theorem qpuSeconds_conserved_lab :
    (∃ p, KeyedStore.get (labEnd (labDb .mongodb labDocuments)).store.projects labProject.id =
      some p ∧ p.qpuSeconds = 125) ∧
    ∃ p, KeyedStore.get (labEnd (labDb .sql labTables)).store.projects labProject.id =
      some p ∧ p.qpuSeconds = 125 := by
  have hdocuments := qpuSeconds_conserved labHost labTasks
    (show KeyedStore.get (labDb .mongodb labDocuments).projects labProject.id = some labProject by
      decide +kernel) (labRequests _ _) (reach_schedule (exec labHost) labTurns _)
  have htables := qpuSeconds_conserved labHost labTasks
    (show KeyedStore.get (labDb .sql labTables).projects labProject.id = some labProject by
      decide +kernel) (labRequests _ _) (reach_schedule (exec labHost) labTurns _)
  obtain ⟨⟨p, hp, hpq⟩, -⟩ := hdocuments
  obtain ⟨⟨q, hq, hqq⟩, -⟩ := htables
  refine ⟨⟨p, hp, hpq.trans ?_⟩, ⟨q, hq, hqq.trans ?_⟩⟩ <;> decide +kernel

end Mss
