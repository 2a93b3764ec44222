import Mss.LastState

/-!
# Requests are decided once

Approvers decide one pending request at once: each finds it pending, does what it asks for if they
approve it, and records the decision, one operation of the database at a time. It is decided once
when no approver finds it pending while another who found it is yet to return.

* `DecisionCall`: a call of `update`, which approves or rejects.
* `DecidedOnce`: one decision and one effect at most, and an effect only of an approved request.
* `DecidesAlone`: the condition, as a guard on each step.
* **`decidedOnce_of_decidesAlone`**: in every interleaving whose steps meet the condition, and a
  decided request keeps its status.
* `request_decided_thrice`: three approvers who all find the request before one records.
-/

namespace Mss

open Atomic Storage Prog

/-! ## The calls -/

/-- **A call that decides the request.** -/
structure DecisionCall where
  payload : RequestUpdate
  decides : payload.isDecision = true
  approver : User
  generated : Generated

/-- The program of a call. -/
def DecisionCall.service (h : Host) (pk : Id) (call : DecisionCall) : Service Unit := do
  let _ ← update h call.generated pk call.payload call.approver

/-! ## What is to hold -/

/-- The event recorded a decision on the request. -/
def isRecord (pk : Id) : Event Resp → Bool
  | ⟨.updateRequest id _, .ok (some _)⟩ => id = pk
  | _ => false

variable {P : Type} [ProjectStore P] {ι : Type} [DecidableEq ι] {pk : Id}

/-- The calls of the events that a test picks, in the order they happened. -/
def callers (test : Event Resp → Bool) (trace : List (ι × Event Resp)) : List ι :=
  (trace.filter fun x => test x.2).map Prod.fst

omit [DecidableEq ι] in
theorem callers_append (test : Event Resp → Bool) (trace : List (ι × Event Resp)) (i : ι)
    (e : Event Resp) : callers test (trace ++ [(i, e)]) =
      callers test trace ++ if test e = true then [i] else [] := by
  simp only [callers, List.filter_append, List.map_append, List.append_cancel_left_eq]
  by_cases he : test e = true <;> simp [he]

/-- The status of the request as it is stored. -/
def statusOf (pk : Id) (db : Db P) : Option RequestStatus := (db.requests.get pk).bind (·.status)

/-- **The request is decided once**: one decision at most is recorded and one effect at most takes
place, and when all have returned an effect is that of an approved request. -/
structure DecidedOnce (pk : Id) (c : Config (Db P) ι Resp Exc Unit) : Prop where
  records : (callers (isRecord pk) c.trace).length ≤ 1
  effects : (callers changesProject c.trace).length ≤ 1
  approved : c.AllDone → callers changesProject c.trace ≠ [] → statusOf pk c.store = some .approved

/-! ## The condition -/

/-- The event found the request pending. -/
def isFound (pk : Id) : Event Resp → Bool
  | ⟨.findPendingRequest id _, some _⟩ => id = pk
  | _ => false

/-- The id of the copy the event tried to insert. -/
def copyId : Event Resp → Option Id
  | ⟨.insertDeletedProject q, _⟩ => some q.id
  | _ => none

/-- **The condition**: a step that finds the request pending finds every other call that has found
it at its end, and one that inserts the copy of a project finds none of its id. -/
def DecidesAlone (pk : Id) (c : Config (Db P) ι Resp Exc Unit) (i : ι) (e : Event Resp) : Prop :=
  (isFound pk e = true → ∀ j, j ≠ i → (c.mine j).any (isFound pk) = true → (c.pool j).Done) ∧
  ∀ id ∈ copyId e, c.store.deletedProjects.get id = none

instance [Fintype ι] (c : Config (Db P) ι Resp Exc Unit) (i : ι) (e : Event Resp) :
    Decidable (DecidesAlone pk c i e) :=
  inferInstanceAs (Decidable ((_ → ∀ j, j ≠ i → _ → (c.pool j).Done) ∧ ∀ id ∈ copyId e, _))

/-! ## The protocol of a call -/

/-- Where a call is: whether it has found the request, taken effect, and recorded its decision. -/
structure DecisionPhase where
  found : Bool := false
  acted : Bool := false
  recorded : Bool := false

/-- **What a call does**: it takes effect once at most, if it approves, and records its status
once, both after it has found the request; and it does not end between the two. -/
def decisionProtocol (pk : Id) (call : DecisionCall) : Protocol Resp Exc Unit DecisionPhase where
  next m e :=
    { found := m.found || isFound pk e
      acted := m.acted || changesProject e
      recorded := m.recorded || isRecord pk e }
  assumes _ e := match e with
    | ⟨.findPendingRequest id _, some r⟩ => r.id = id
    | ⟨.insertDeletedProject _, r⟩ => r = .ok ()
    | ⟨.updateRequest id u, r⟩ => id = pk → u.status = call.payload.status →
        ∃ q, r = .ok (some q)
    | _ => True
  allows m e := match e.1 with
    | .findPendingRequest _ _ => m.found = false
    | .updateRequest id u => id = pk ∧ m.found = true ∧ m.recorded = false ∧
        u.status = call.payload.status
    | .insertProject _ | .updateProject _ _ | .deleteProject _ => m.found = true ∧
        m.acted = false ∧ m.recorded = false ∧ call.payload.newStatus = some .approved
    | _ => True
  ends m _ := m.acted = true → m.recorded = true

/-- The protocol of the action alone, which leaves the decision to be recorded if it returns, and
nothing done if it raises. -/
def actionProtocol (pk : Id) (call : DecisionCall) : Protocol Resp Exc Unit DecisionPhase :=
  { decisionProtocol pk call with
    ends := fun m res => match res with
      | .ok _ => m.found = true ∧ m.recorded = false
      | .error _ => m.acted = false }

/-- Operations that find no request, record no decision and write no project. -/
def Op.isAround : Op → Bool
  | .findPendingRequest _ _ | .updateRequest _ _ => false
  | .insertProject _ | .updateProject _ _ | .deleteProject _ => false
  | _ => true

variable {call : DecisionCall}

theorem next_of_isAround {o : Op} (ho : o.isAround) (m : DecisionPhase) (r : Resp o) :
    (decisionProtocol pk call).next m ⟨o, r⟩ = m := by
  cases o <;> first | simp [decisionProtocol, isFound, changesProject, isRecord]; done | cases ho

theorem silent_decision {o : Op} (ho : o.isAround) : Silent (decisionProtocol pk call) o := by
  refine fun m r => ⟨?_, next_of_isAround ho m r⟩
  cases o <;> trivial

theorem silent_action {o : Op} (ho : o.isAround) : Silent (actionProtocol pk call) o :=
  (silent_decision ho : Silent (decisionProtocol pk call) o)

theorem isAround_of_isMembership (o : Op) (ho : o.isMembership) : o.isAround := by
  cases o <;> first | rfl | cases ho

/-! ## The six actions -/

/-- The phase in which the action starts. -/
abbrev foundPhase : DecisionPhase := { found := true }

theorem follows_around_bind {α : Type} {p : Service α} {f : α → Service Unit}
    (hp : p.Calls (Op.isAround ·)) (hf : ∀ a, Follows (actionProtocol pk call) foundPhase (f a)) :
    Follows (actionProtocol pk call) foundPhase (p >>= f) :=
  follows_silent_bind (hp.mono fun _ => silent_action) (fun _ => rfl) hf

theorem follows_oneUpdate {id : Id} {u : ProjectChanges}
    (happroves : call.payload.newStatus = some .approved) :
    Follows (actionProtocol pk call) foundPhase (do
      let _ ← (do ofExcept (← Mss.call (.updateProject id u)) : Service (Option Project))) := by
  rw [bind_assoc]
  refine follows_perform_bind.mpr fun r _ => ⟨⟨rfl, rfl, rfl, happroves⟩, ?_⟩
  match r with
  | .ok none => exact ⟨rfl, rfl⟩
  | .ok (some _) => exact ⟨rfl, rfl⟩
  | .error _ => rfl

theorem follows_actedProject {id : Id} {f : Project → Service Unit}
    (hf : ∀ p, Follows (actionProtocol pk call) foundPhase (f p)) :
    Follows (actionProtocol pk call) foundPhase (getActedProject id >>= f) :=
  follows_around_bind (calls_getActedProject rfl) hf

theorem follows_closeProject {g : Generated} {request : Request}
    (happroves : call.payload.newStatus = some .approved) :
    Follows (actionProtocol pk call) foundPhase (closeProject g request) := by
  refine follows_actedProject fun project => ?_
  unfold deleteProject
  split_ifs
  · rfl
  · refine follows_around_bind ((calls_perform _).mpr rfl) fun _ => ?_
    refine follows_perform_bind.mpr fun r _ => ⟨⟨rfl, rfl, rfl, happroves⟩, ?_⟩
    refine follows_perform_bind.mpr fun r' hr' => ⟨trivial, ?_⟩
    change r' = .ok () at hr'
    subst hr'
    cases r <;> exact ⟨rfl, rfl⟩

theorem follows_createProject {h : Host} {g : Generated} {payload : ProjectCreate} {actor : User}
    (happroves : call.payload.newStatus = some .approved) :
    Follows (actionProtocol pk call) foundPhase (do
      let _ ← createProject h g payload actor) := by
  unfold createProject
  rw [bind_assoc]
  refine follows_around_bind (calls_getUserEmailIdMap isAround_of_isMembership _) fun d => ?_
  rw [bind_assoc]
  refine follows_around_bind (calls_ofExcept _) fun adminId => ?_
  rw [bind_assoc]
  refine follows_around_bind (calls_ofExcept _) fun userIds => ?_
  dsimp only
  unfold insertProject
  rw [bind_assoc, bind_assoc]
  refine follows_perform_bind.mpr fun r _ => ⟨⟨rfl, rfl, rfl, happroves⟩, ?_⟩
  match r with
  | .error e => cases e <;> rfl
  | .ok () =>
    refine follows_silent_of_returns ?_ ?_ fun _ => ⟨rfl, rfl⟩
    · refine Calls.mono (fun _ => silent_action) ?_
      refine calls_bind (calls_ret ()) fun _ => calls_bind ?_ fun _ => trivial
      exact calls_bind (calls_notifyMembershipChange isAround_of_isMembership _ _ _)
        fun _ => trivial
    · refine returns_bind trivial fun _ => returns_bind ?_ fun _ => trivial
      exact returns_bind (returns_notifyMembershipChange _ _ _) fun _ => trivial

/-- **Each action takes effect once at most, and not at all if it raises.** -/
theorem follows_doAction {h : Host} {g : Generated} {request : Request} {approver : User}
    (happroves : call.payload.newStatus = some .approved) :
    Follows (actionProtocol pk call) foundPhase (doAction h g request approver) := by
  unfold doAction
  split
  · refine follows_tryCatch_of_raises (follows_createProject happroves) (fun e => ?_)
      fun _ _ _ => id
    cases e <;> exact ⟨_, rfl⟩
  · exact follows_closeProject happroves
  · refine follows_actedProject fun project => ?_
    refine follows_around_bind (calls_getKnownEmailIdMap isAround_of_isMembership _) fun d => ?_
    exact follows_around_bind (calls_ofExcept _) fun adminId => follows_oneUpdate happroves
  · exact follows_actedProject fun project => follows_oneUpdate happroves
  · exact follows_actedProject fun project => follows_oneUpdate happroves
  · exact follows_actedProject fun project => follows_oneUpdate happroves

/-! ## The whole call -/

/-- Recording the decision and telling of it. -/
def DecisionCall.record (call : DecisionCall) (request : Request) : Service Request := do
  let decided ← recordDecision request call.approver call.payload
  tellDecision call.payload decided
  return decided

theorem follows_recordDecision {m : DecisionPhase} {request : Request} (hid : request.id = pk)
    (hfound : m.found = true) (hrecorded : m.recorded = false) :
    Follows (decisionProtocol pk call) m (do let _ ← call.record request) := by
  unfold DecisionCall.record recordDecision
  rw [bind_assoc, bind_assoc]
  refine follows_perform_bind.mpr fun r hr => ⟨⟨hid, hfound, hrecorded, rfl⟩, ?_⟩
  obtain ⟨q, rfl⟩ := hr hid rfl
  refine follows_silent (Calls.mono (fun _ => silent_decision) ?_) fun _ _ => ?_
  · refine calls_bind (calls_ret _) fun decided => calls_bind ?_ fun _ => trivial
    exact calls_bind (calls_tellDecision (fun _ => rfl) (fun _ _ => rfl) _ _) fun _ => trivial
  · simp [decisionProtocol, isRecord, hid]

theorem follows_decision (h : Host) (pk : Id) (call : DecisionCall) :
    Follows (decisionProtocol pk call) {} (call.service h pk) := by
  unfold DecisionCall.service
  rw [update_eq, bind_assoc]
  refine follows_perform_bind.mpr fun r hr => ⟨rfl, ?_⟩
  cases r with
  | none => exact fun hacted => by cases hacted
  | some request =>
    have hphase : (decisionProtocol pk call).next {} ⟨.findPendingRequest pk call.approver.id,
        some request⟩ = foundPhase := by simp [decisionProtocol, isFound, changesProject, isRecord]
    rw [hphase]
    dsimp only
    rw [bind_assoc]
    have hrest : ∀ m : DecisionPhase, m.found = true → m.recorded = false →
        Follows (decisionProtocol pk call) m (do let _ ← call.record request) :=
      fun m => follows_recordDecision hr
    unfold actIfApproved
    split_ifs with happroves
    · refine follows_bind (follows_tryCatch_of_raises ?_ (fun e => ⟨_, rfl⟩) fun _ _ _ => id)
      refine (follows_doAction happroves).imp_ends fun m res hends => ?_
      cases res with
      | ok _ => exact hrest m hends.1 hends.2
      | error _ => exact fun hacted => by rw [hends] at hacted; cases hacted
    · exact hrest foundPhase rfl rfl

/-! ## The invariant -/

/-- The programs of the calls. -/
abbrev decisionPool (h : Host) (pk : Id) (calls : ι → DecisionCall) (i : ι) : Service Unit :=
  (calls i).service h pk

/-- The protocols of the calls. -/
abbrev decisionProtocols (pk : Id) (calls : ι → DecisionCall) (i : ι) :
    Protocol Resp Exc Unit DecisionPhase := decisionProtocol pk (calls i)

/-- The phase of a call. -/
abbrev decisionPhase (pk : Id) (calls : ι → DecisionCall) (c : Config (Db P) ι Resp Exc Unit)
    (i : ι) : DecisionPhase :=
  c.phase (decisionProtocols pk calls) (fun _ => {}) i

/-- The call has found the request, and is yet to record its decision. -/
structure Active (pk : Id) (calls : ι → DecisionCall) (c : Config (Db P) ι Resp Exc Unit) (i : ι) :
    Prop where
  found : (decisionPhase pk calls c i).found = true
  unrecorded : (decisionPhase pk calls c i).recorded = false
  running : ¬ (c.pool i).Done

/-- The request is pending, one call at most is active, and only it may have taken effect. -/
structure Undecided (pk : Id) (calls : ι → DecisionCall) (c : Config (Db P) ι Resp Exc Unit) :
    Prop where
  pending : ∃ r, c.store.requests.get pk = some r ∧ r.status = some .pending
  records : callers (isRecord pk) c.trace = []
  recorded : ∀ j, (decisionPhase pk calls c j).recorded = false
  alone : ∀ j k, Active pk calls c j → Active pk calls c k → j = k
  effects : callers changesProject c.trace = [] ∨ ∃ j, callers changesProject c.trace = [j] ∧
    (decisionPhase pk calls c j).acted = true ∧ Active pk calls c j ∧
    (calls j).payload.newStatus = some .approved

/-- The request is decided with a status, by one call, and none is active. -/
structure Decided (pk : Id) (calls : ι → DecisionCall) (s : RequestStatus)
    (c : Config (Db P) ι Resp Exc Unit) : Prop where
  status : ∃ r, c.store.requests.get pk = some r ∧ r.status = some s
  decided : s ≠ .pending
  records : ∃ j, callers (isRecord pk) c.trace = [j]
  inactive : ∀ j, ¬ Active pk calls c j
  effects : callers changesProject c.trace = [] ∨
    (∃ j, callers changesProject c.trace = [j]) ∧ s = .approved

theorem requestAfter_eq_self {e : Event Resp} {r : Option Request} (he : isRecord pk e = false) :
    requestAfter pk e r = r := by
  obtain ⟨o, a⟩ := e
  cases o with
  | updateRequest id u =>
    match a with
    | .ok none => rfl
    | .error _ => rfl
    | .ok (some q) =>
      have hid : pk ≠ id := fun hid => by simp [isRecord, hid] at he
      simp [requestAfter, hid]
  | _ => rfl

section Step

variable {h : Host} {calls : ι → DecisionCall} {i : ι} {e : Event Resp}
  {c c' : Config (Db P) ι Resp Exc Unit}

theorem Active.before {j : ι} (hj : Active pk calls c' j) (hs : StepBy (exec h) i e c c') :
    (j = i ∧ isFound pk e = true) ∨ (Active pk calls c j ∧ (j = i → isRecord pk e = false)) := by
  obtain ⟨hfound, hrecorded, hrunning⟩ := hj
  by_cases hij : j = i
  · subst hij
    rw [decisionPhase, hs.phase_self] at hfound hrecorded
    obtain ⟨hrecorded, hrecord⟩ := Bool.or_eq_false_iff.mp hrecorded
    obtain hfound | hfound := Bool.or_eq_true_iff.mp hfound
    · exact .inr ⟨⟨hfound, hrecorded, hs.not_done⟩, fun _ => hrecord⟩
    · exact .inl ⟨rfl, hfound⟩
  · rw [decisionPhase, hs.phase_ne _ _ hij] at hfound hrecorded
    rw [hs.pool_ne hij] at hrunning
    exact .inr ⟨⟨hfound, hrecorded, hrunning⟩, fun h => (hij h).elim⟩

omit [ProjectStore P] in
theorem Active.of_acted {j : ι} (hf : Following (decisionProtocols pk calls) (fun _ => {}) c)
    (hfound : (decisionPhase pk calls c j).found = true)
    (hacted : (decisionPhase pk calls c j).acted = true)
    (hrecorded : (decisionPhase pk calls c j).recorded = false) : Active pk calls c j := by
  refine ⟨hfound, hrecorded, fun hdone => ?_⟩
  obtain ⟨_, hends, -⟩ := hf.ends hdone
  rw [hends hacted] at hrecorded
  cases hrecorded

theorem active_of_allows (hs : StepBy (exec h) i e c c')
    (hallow : (decisionProtocol pk (calls i)).allows (decisionPhase pk calls c i) e)
    (he : isRecord pk e = true ∨ changesProject e = true) : Active pk calls c i := by
  obtain ⟨o, r⟩ := e
  cases o with
  | updateRequest id u => exact ⟨hallow.2.1, hallow.2.2.1, hs.not_done⟩
  | insertProject p => exact ⟨hallow.1, hallow.2.2.1, hs.not_done⟩
  | updateProject id u => exact ⟨hallow.1, hallow.2.2.1, hs.not_done⟩
  | deleteProject id => exact ⟨hallow.1, hallow.2.2.1, hs.not_done⟩
  | _ => simp [isRecord, changesProject] at he

omit [ProjectStore P] in
theorem any_isFound_of_found {j : ι} (hj : (decisionPhase pk calls c j).found = true) :
    (c.mine j).any (isFound pk) = true := by
  rwa [decisionPhase, @Config.phase_flag _ _ _ _ _ _ _ _ (decisionProtocols pk calls) (fun _ => {}) j
    (·.found) (isFound pk) (fun _ _ => rfl) c, Bool.false_or] at hj

theorem Undecided.find (hinv : Undecided pk calls c) (hs : StepBy (exec h) i e c c')
    (hguard : DecidesAlone pk c i e)
    (hallow : (decisionProtocol pk (calls i)).allows (decisionPhase pk calls c i) e)
    (he : isFound pk e = true) : Undecided pk calls c' := by
  have hrecord : isRecord pk e = false := by
    obtain ⟨o, r⟩ := e
    cases o <;> first | rfl | simp [isFound] at he
  have heffect : changesProject e = false := by
    obtain ⟨o, r⟩ := e
    cases o <;> first | rfl | simp [isFound] at he
  have hnew : (decisionPhase pk calls c i).found = false := by
    obtain ⟨o, r⟩ := e
    cases o <;> first | exact hallow | simp [isFound] at he
  have hothers : ∀ j, j ≠ i → ¬ Active pk calls c j := fun j hj hactive =>
    hactive.running (hguard.1 he j hj (any_isFound_of_found hactive.found))
  have hnone : ∀ j, ¬ Active pk calls c j := fun j hactive => by
    by_cases hj : j = i
    · subst hj
      rw [hactive.found] at hnew
      cases hnew
    · exact hothers j hj hactive
  have hactive : ∀ j, Active pk calls c' j → j = i := fun j hj =>
    (hj.before hs).elim And.left fun hj => (hnone j hj.1).elim
  refine ⟨?_, ?_, fun j => ?_, fun j k hj hk => (hactive j hj).trans (hactive k hk).symm, .inl ?_⟩
  · rw [step_requests hs, requestAfter_eq_self hrecord]
    exact hinv.pending
  · rw [hs.trace, callers_append, hinv.records, hrecord]
    rfl
  · by_cases hj : j = i
    · subst hj
      rw [decisionPhase, hs.phase_self]
      exact Bool.or_eq_false_iff.mpr ⟨hinv.recorded j, hrecord⟩
    · rw [decisionPhase, hs.phase_ne _ _ hj]
      exact hinv.recorded j
  · obtain hnil | ⟨j, -, -, hj, -⟩ := hinv.effects
    · rw [hs.trace, callers_append, hnil, heffect]
      rfl
    · exact (hnone j hj).elim

/-- **Recording the decision** decides the request as the one active call says. -/
theorem Undecided.record (hinv : Undecided pk calls c) (hs : StepBy (exec h) i e c c')
    (hallow : (decisionProtocol pk (calls i)).allows (decisionPhase pk calls c i) e)
    (he : isRecord pk e = true) : ∃ s, Decided pk calls s c' := by
  have hactive := active_of_allows hs hallow (.inl he)
  obtain ⟨r, hr, -⟩ := hinv.pending
  have hdecides := (calls i).decides
  simp only [RequestUpdate.isDecision, Bool.decide_or, Bool.or_eq_true, decide_eq_true_eq]
    at hdecides
  obtain ⟨s, hs', hdecided⟩ : ∃ s, (calls i).payload.newStatus = some s ∧ s ≠ .pending := by
    obtain hd | hd := hdecides
    · exact ⟨_, hd, by simp⟩
    · exact ⟨_, hd, by simp⟩
  have hstatus : ∃ r, c'.store.requests.get pk = some r ∧ r.status = some s := by
    obtain ⟨o, a⟩ := e
    cases o with
    | updateRequest id u =>
      obtain ⟨rfl, -, -, hu⟩ := hallow
      match a with
      | .ok (some q) =>
        refine ⟨r.apply u, ?_, ?_⟩
        · rw [step_requests hs, hr]
          simp [requestAfter]
        · rw [RequestUpdate.newStatus, ← hu] at hs'
          obtain ⟨status, hsome, rfl⟩ : ∃ status, u.status = some status ∧ status = some s := by
            cases hu' : u.status with
            | none => simp [hu'] at hs'
            | some status => exact ⟨status, rfl, by simpa [hu'] using hs'⟩
          simp [Request.apply, hsome]
      | .ok none => simp [isRecord] at he
      | .error _ => simp [isRecord] at he
    | _ => simp [isRecord] at he
  have heffect : changesProject e = false := by
    obtain ⟨o, a⟩ := e
    cases o <;> first | rfl | simp [isRecord] at he
  refine ⟨s, hstatus, hdecided, ⟨i, ?_⟩, fun j hj => ?_, ?_⟩
  · rw [hs.trace, callers_append, hinv.records, he]
    rfl
  · obtain ⟨-, hfound⟩ | ⟨hj, hrecord⟩ := hj.before hs
    · obtain ⟨o, a⟩ := e
      cases o <;> simp [isRecord, isFound] at he hfound
    · have hji := hinv.alone j i hj hactive
      rw [hrecord hji] at he
      cases he
  · rw [hs.trace, callers_append, heffect]
    obtain hnil | ⟨j, hj, -, hjactive, happroves⟩ := hinv.effects
    · exact .inl (by rw [hnil]; rfl)
    · refine .inr ⟨⟨j, by rw [hj]; rfl⟩, ?_⟩
      rw [hinv.alone j i hjactive hactive, hs', Option.some.injEq] at happroves
      exact happroves

/-- **Any other step** leaves the request undecided, with an effect of the active call at most. -/
theorem Undecided.other (hinv : Undecided pk calls c) (hs : StepBy (exec h) i e c c')
    (hf' : Following (decisionProtocols pk calls) (fun _ => {}) c')
    (hallow : (decisionProtocol pk (calls i)).allows (decisionPhase pk calls c i) e)
    (hfound : isFound pk e = false) (hrecord : isRecord pk e = false) :
    Undecided pk calls c' := by
  have hself : decisionPhase pk calls c' i =
      (decisionProtocol pk (calls i)).next (decisionPhase pk calls c i) e := hs.phase_self _ _
  have hrecorded : ∀ j, (decisionPhase pk calls c' j).recorded = false := fun j => by
    by_cases hj : j = i
    · subst hj
      rw [hself]
      exact Bool.or_eq_false_iff.mpr ⟨hinv.recorded j, hrecord⟩
    · rw [decisionPhase, hs.phase_ne _ _ hj]
      exact hinv.recorded j
  -- who is active after the event was before, as it found nothing
  have hactive : ∀ j, Active pk calls c' j → Active pk calls c j := fun j hj =>
    (hj.before hs).elim (fun ⟨_, he⟩ => by rw [hfound] at he; cases he) And.left
  have hstill : ∀ j, Active pk calls c j → (decisionPhase pk calls c' j).acted = true →
      Active pk calls c' j := fun j hj hacted => by
    refine Active.of_acted hf' ?_ hacted (hrecorded j)
    by_cases hji : j = i
    · subst hji
      rw [hself]
      exact Bool.or_eq_true_iff.mpr (.inl hj.found)
    · rw [decisionPhase, hs.phase_ne _ _ hji]
      exact hj.found
  refine ⟨?_, ?_, hrecorded, fun j k hj hk => hinv.alone j k (hactive j hj) (hactive k hk), ?_⟩
  · rw [step_requests hs, requestAfter_eq_self hrecord]
    exact hinv.pending
  · rw [hs.trace, callers_append, hinv.records, hrecord]
    rfl
  · rw [hs.trace, callers_append]
    cases heffect : changesProject e with
    | false =>
      obtain hnil | ⟨j, hj, hacted, hjactive, happroves⟩ := hinv.effects
      · exact .inl (by rw [hnil]; rfl)
      · have hacted' : (decisionPhase pk calls c' j).acted = true := by
          by_cases hji : j = i
          · subst hji
            rw [hself]
            exact Bool.or_eq_true_iff.mpr (.inl hacted)
          · rwa [decisionPhase, hs.phase_ne _ _ hji]
        exact .inr ⟨j, by rw [hj]; rfl, hacted', hstill j hjactive hacted', happroves⟩
    | true =>
      have hi := active_of_allows hs hallow (.inr heffect)
      have hacted : (decisionPhase pk calls c' i).acted = true := by
        rw [hself]
        exact Bool.or_eq_true_iff.mpr (.inr heffect)
      have hfirst : (decisionPhase pk calls c i).acted = false ∧
          (calls i).payload.newStatus = some .approved := by
        obtain ⟨o, r⟩ := e
        cases o with
        | insertProject p => exact ⟨hallow.2.1, hallow.2.2.2⟩
        | updateProject id u => exact ⟨hallow.2.1, hallow.2.2.2⟩
        | deleteProject id => exact ⟨hallow.2.1, hallow.2.2.2⟩
        | _ => simp [changesProject] at heffect
      -- an earlier effect would be that of another active caller
      obtain hnil | ⟨j, -, hjacted, hjactive, -⟩ := hinv.effects
      · exact .inr ⟨i, by rw [hnil]; rfl, hacted, hstill i hi hacted, hfirst.2⟩
      · rw [hinv.alone j i hjactive hi, hfirst.1] at hjacted
        cases hjacted

/-- **A decided request stays so**: no call finds it, acts on it or records a decision. -/
theorem Decided.step {s : RequestStatus} (hinv : Decided pk calls s c)
    (hs : StepBy (exec h) i e c c')
    (hallow : (decisionProtocol pk (calls i)).allows (decisionPhase pk calls c i) e) :
    Decided pk calls s c' := by
  have hfound : isFound pk e = false := by
    obtain ⟨r, hr, hstatus⟩ := hinv.status
    have hresp := hs.resp
    obtain ⟨o, a⟩ := e
    cases o with
    | findPendingRequest id user =>
      cases a with
      | none => rfl
      | some q =>
        simp only [isFound, decide_eq_false_iff_not]
        rintro rfl
        simp only [exec, hr, Option.filter_eq_some_iff, Option.some.injEq, decide_eq_true_eq]
          at hresp
        obtain ⟨rfl, -, hpending⟩ := hresp
        rw [hstatus, Option.some.injEq] at hpending
        exact hinv.decided hpending
    | _ => rfl
  have hrecord : isRecord pk e = false := Bool.eq_false_iff.mpr fun he =>
    hinv.inactive i (active_of_allows hs hallow (.inl he))
  have heffect : changesProject e = false := Bool.eq_false_iff.mpr fun he =>
    hinv.inactive i (active_of_allows hs hallow (.inr he))
  refine ⟨?_, hinv.decided, ?_, fun j hj => ?_, ?_⟩
  · rw [step_requests hs, requestAfter_eq_self hrecord]
    exact hinv.status
  · rw [hs.trace, callers_append, hrecord]
    simpa using hinv.records
  · obtain ⟨-, he⟩ | ⟨hj, -⟩ := hj.before hs
    · rw [hfound] at he
      cases he
    · exact hinv.inactive j hj
  · rw [hs.trace, callers_append, heffect]
    simpa using hinv.effects

end Step

/-- **The invariant**: the request is undecided, or decided with some status. -/
def DecisionInv (pk : Id) (calls : ι → DecisionCall) (c : Config (Db P) ι Resp Exc Unit) : Prop :=
  Undecided pk calls c ∨ ∃ s, Decided pk calls s c

section Step

variable {h : Host} {calls : ι → DecisionCall} {i : ι} {e : Event Resp}
  {c c' : Config (Db P) ι Resp Exc Unit}

theorem DecisionInv.step (hinv : DecisionInv pk calls c) (hs : StepBy (exec h) i e c c')
    (hf' : Following (decisionProtocols pk calls) (fun _ => {}) c')
    (hguard : DecidesAlone pk c i e)
    (hallow : (decisionProtocol pk (calls i)).allows (decisionPhase pk calls c i) e) :
    DecisionInv pk calls c' := by
  obtain hundecided | ⟨s, hdecided⟩ := hinv
  · cases hfound : isFound pk e with
    | true => exact .inl (hundecided.find hs hguard hallow hfound)
    | false =>
      cases hrecord : isRecord pk e with
      | true => exact .inr (hundecided.record hs hallow hrecord)
      | false => exact .inl (hundecided.other hs hf' hallow hfound hrecord)
  · exact .inr ⟨s, hdecided.step hs hallow⟩

omit [ProjectStore P] in
theorem DecisionInv.stored (hinv : DecisionInv pk calls c) :
    ∃ r, c.store.requests.get pk = some r := by
  obtain hundecided | ⟨s, hdecided⟩ := hinv
  · exact hundecided.pending.imp fun _ => And.left
  · exact hdecided.status.imp fun _ => And.left

theorem DecisionInv.assumes (hinv : DecisionInv pk calls c) (hs : StepBy (exec h) i e c c')
    (hguard : DecidesAlone pk c i e) (m : DecisionPhase) :
    (decisionProtocol pk (calls i)).assumes m e := by
  have hresp := hs.resp
  obtain ⟨o, a⟩ := e
  cases o with
  | findPendingRequest id user =>
    cases a with
    | none => trivial
    | some r =>
      simp only [exec, Option.filter_eq_some_iff] at hresp
      exact (Table.get_eq_some.mp hresp.1).2
  | insertDeletedProject q =>
    obtain ⟨_, he⟩ | ⟨hne, _⟩ := exec_insertDeletedProject (h := h) q c.store
    · exact (hresp.symm.trans (by rw [he]))
    · exact (hne (hguard.2 q.id rfl)).elim
  | updateRequest id u =>
    rintro rfl hu
    obtain ⟨r, hr⟩ := hinv.stored
    have hsent : u.isRefused c.store.backend = false := by
      have hdecides := (calls i).decides
      simp only [RequestUpdate.isDecision, RequestUpdate.newStatus, ← hu, Bool.decide_or,
        Bool.or_eq_true, decide_eq_true_eq] at hdecides
      simp only [RequestChanges.isRefused, decide_eq_false_iff_not, not_and]
      rintro - hnull
      simp [hnull] at hdecides
    refine ⟨r.apply u, hresp.symm.trans ?_⟩
    simp [exec, hr, hsent]
  | _ => trivial

omit [ProjectStore P] in
theorem DecisionInv.decidedOnce (hinv : DecisionInv pk calls c) : DecidedOnce pk c := by
  obtain hundecided | ⟨s, hdecided⟩ := hinv
  · refine ⟨by simp [hundecided.records], ?_, fun hdone heffects => ?_⟩
    · obtain hnil | ⟨j, hj, -⟩ := hundecided.effects
      · simp [hnil]
      · simp [hj]
    · obtain hnil | ⟨j, -, -, hj, -⟩ := hundecided.effects
      · exact (heffects hnil).elim
      · exact (hj.running (hdone j)).elim
  · obtain ⟨r, hr, hstatus⟩ := hdecided.status
    obtain ⟨j, hj⟩ := hdecided.records
    refine ⟨by simp [hj], ?_, fun _ heffects => ?_⟩
    · obtain hnil | ⟨⟨j, hj⟩, -⟩ := hdecided.effects
      · simp [hnil]
      · simp [hj]
    · obtain hnil | ⟨-, rfl⟩ := hdecided.effects
      · exact (heffects hnil).elim
      · simp [statusOf, hr, hstatus]

end Step

/-- **A request is decided once**, in every interleaving in which no call finds it pending while
another that found it runs, and it keeps the status it is decided with. -/
theorem decidedOnce_of_decidesAlone (h : Host) (calls : ι → DecisionCall) {db : Db P}
    {request : Request} (hstored : db.requests.get pk = some request)
    (hpending : request.status = some .pending) {c c' : Config (Db P) ι Resp Exc Unit}
    (hr : Reach (exec h) (DecidesAlone pk) (Config.start db (decisionPool h pk calls)) c)
    (hr' : Reach (exec h) (DecidesAlone pk) c c') :
    DecidedOnce pk c ∧
      (statusOf pk c.store ≠ some .pending → statusOf pk c'.store = statusOf pk c.store) := by
  have hstart : DecisionInv pk calls (Config.start db (decisionPool h pk calls)) := by
    refine .inl ⟨⟨request, hstored, hpending⟩, rfl, fun _ => rfl, fun j k hj _ => ?_, .inl rfl⟩
    cases hj.found
  obtain ⟨hf, hinv⟩ := hr.invariant (decisionProtocols pk calls) (fun _ => {})
    (DecisionInv pk calls) (fun i => follows_decision h pk (calls i)) hstart
    (fun c i e c' _ hinv hguard hs => hinv.assumes hs hguard _)
    (fun c i e c' _ hf' hinv hguard hs hallow => hinv.step hs hf' hguard hallow)
  refine ⟨hinv.decidedOnce, fun hne => ?_⟩
  obtain hundecided | ⟨s, hdecided⟩ := hinv
  · obtain ⟨r, hr, hstatus⟩ := hundecided.pending
    exact (hne (by simp [statusOf, hr, hstatus])).elim
  · obtain ⟨-, hlast⟩ := hr'.invariant (decisionProtocols pk calls) (fun _ => {})
      (Decided pk calls s) hf hdecided
      (fun c i e c' _ hinv hguard hs => DecisionInv.assumes (.inr ⟨s, hinv⟩) hs hguard _)
      (fun c i e c' _ _ hinv _ hs hallow => hinv.step hs hallow)
    obtain ⟨r, hr, hstatus⟩ := hdecided.status
    obtain ⟨r', hr', hstatus'⟩ := hlast.status
    simp [statusOf, hr, hr', hstatus, hstatus']

/-! ## Approvers at once -/

/-- Another approver. -/
def labPartner : User := { id := "65f0000000000000000000a9", email := "partner@lab.org" }

/-- The request for 30 more seconds, which either approver may decide. -/
def sharedRequest : Request := { labRequest with targetUserIds := [labAdmin.id, labPartner.id] }

/-- The project, and the request for its seconds. -/
def sharedDb : Db ProjectDocuments :=
  { labDb .mongodb labDocuments with requests := Table.empty.insert sharedRequest rfl }

/-- An approval. -/
def approval (approver : User) : DecisionCall where
  payload := { status := some (some .approved), updatedAt := none }
  decides := rfl
  approver := approver
  generated := labGenerated

/-- Both approve, and the first rejects as well. -/
def decisionCalls : Option Bool → DecisionCall
  | none => approval labAdmin
  | some false => approval labPartner
  | some true => { approval labAdmin with
      payload := { status := some (some .rejected), updatedAt := none }, decides := rfl }

/-- The calls at their start. -/
def decisionStart : Config (Db ProjectDocuments) (Option Bool) Resp Exc Unit :=
  Config.start sharedDb (decisionPool labHost sharedRequest.id decisionCalls)

/-- The first call up to its decision. -/
def firstDecides : List (Option Bool) := [none, none, none, none]

/-- The rest of the first call, then the others. -/
def othersFollow : List (Option Bool) := [none, none, some false, some true]

/-- All find the request, then each goes on to its end. -/
def allFindFirst : List (Option Bool) :=
  [none, some false, some true] ++ List.replicate 5 none ++ List.replicate 5 (some false) ++
    List.replicate 3 (some true)

/-- The theorem at an interleaving in which the first call decides: it is approved to the end. -/
theorem decidedOnce_of_decidesAlone_lab :
    DecidedOnce sharedRequest.id (decisionStart.schedule (exec labHost) firstDecides) ∧
    (statusOf sharedRequest.id (decisionStart.schedule (exec labHost) firstDecides).store ≠
        some .pending →
      statusOf sharedRequest.id ((decisionStart.schedule (exec labHost) firstDecides).schedule
        (exec labHost) othersFollow).store =
      statusOf sharedRequest.id (decisionStart.schedule (exec labHost) firstDecides).store) :=
  decidedOnce_of_decidesAlone labHost decisionCalls
    (show sharedDb.requests.get sharedRequest.id = some sharedRequest by decide +kernel) rfl
    (reach_schedule_of_obeys (by decide +kernel)) (reach_schedule_of_obeys (by decide +kernel))

/-- **A request found by three before one records is decided thrice**, its 30 seconds are granted
twice, and it ends as rejected. -/
theorem request_decided_thrice :
    ∃ c, Reach (exec labHost) anyStep decisionStart c ∧ c.AllDone ∧
      callers (isRecord sharedRequest.id) c.trace = [none, some false, some true] ∧
      (KeyedStore.get c.store.projects labProject.id).map (·.qpuSeconds) = some 160 ∧
      statusOf sharedRequest.id c.store = some .rejected ∧ ¬ DecidedOnce sharedRequest.id c := by
  have hrecords : callers (isRecord sharedRequest.id)
      (decisionStart.schedule (exec labHost) allFindFirst).trace = [none, some false, some true] := by
    decide +kernel
  refine ⟨decisionStart.schedule (exec labHost) allFindFirst, reach_schedule _ _ _,
    by decide +kernel, hrecords, by decide +kernel, by decide +kernel, fun honce => ?_⟩
  have hone := honce.records
  rw [hrecords] at hone
  exact absurd hone (by decide)

end Mss
