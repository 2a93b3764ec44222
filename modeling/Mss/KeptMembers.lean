import Mss.LastState

/-!
# No member is lost

Some operations add a member with one update, others rewrite the whole list from the project they
read operations earlier. Run at once, one operation of the database at a time, they lose no member
when no change of the members or the admin falls between an operation's read and its own write.

* `MemberTask`: the calls, those that rewrite with the routes that read the project for them.
* `KeepsMembers`: every user added is a member at the end unless a later write left them out after
  its call had seen them as a member, and the admin is a member.
* `MembersUnread`: the condition, as a guard on each step.
* **`keepsMembers_of_membersUnread`**: in every interleaving whose steps meet the condition.
* `added_member_lost`: a member added between the read and the write of a removal of another.
-/

namespace Mss

open Atomic Storage Prog

/-! ## The calls -/

/-- **The calls that run at once.** -/
inductive MemberTask
  | removeMember (projectId memberId : Id) (user : User)
  | updateProject (projectId : Id) (payload : ProjectUpdate) (actor : User) (g : Generated)
  | addMember (projectId userId : Id)
  | setAdmin (projectId userId : Id)

/-- The program of a call. -/
def MemberTask.service (h : Host) : MemberTask → Service Unit
  | .removeMember projectId memberId user => removeMemberRoute projectId memberId user
  | .updateProject projectId payload actor g => do
    let _ ← putProjectRoute h g projectId payload actor
  | .addMember projectId userId => do
    let _ ← Mss.addMember projectId userId
  | .setAdmin projectId userId => do
    let _ ← Mss.setAdmin projectId userId

/-! ## What is to be kept -/

variable {P : Type} [ProjectStore P] {ι : Type} [DecidableEq ι] {pid : Id}

/-- The event added the user to the project's members. -/
def adds (pid userId : Id) : Event Resp → Bool
  | ⟨.updateProject id u, .ok (some _)⟩ => id = pid ∧ u.userIds = some (.addToSet userId)
  | _ => false

/-- The event read the user as a member of the project. -/
def sees (pid userId : Id) : Event Resp → Bool
  | ⟨.getProject id, some p⟩ => id = pid ∧ userId ∈ p.userIds
  | _ => false

/-- The event wrote a list of members that leaves the user out. -/
def leavesOut (pid userId : Id) : Event Resp → Bool
  | ⟨.updateProject id u, .ok (some _)⟩ => match u.userIds with
    | some (.set userIds) => id = pid ∧ userId ∉ userIds
    | _ => false
  | _ => false

/-- Some write of `later` left the user out, of a call that had seen them as a member. -/
def LeftOut (pid userId : Id) (before later : List (ι × Event Resp)) : Prop :=
  ∃ between j e rest, later = between ++ (j, e) :: rest ∧ leavesOut pid userId e = true ∧
    ∃ seen, (j, seen) ∈ before ++ between ∧ sees pid userId seen = true

/-- Every user added along the trace is among the members, or was left out since. -/
def KeepsAdded (pid : Id) (userIds : List Id) (trace : List (ι × Event Resp)) : Prop :=
  ∀ before i e later userId, trace = before ++ (i, e) :: later → adds pid userId e = true →
    userId ∈ userIds ∨ LeftOut pid userId (before ++ [(i, e)]) later

/-- **No member is lost**: the users added are kept, and so is the admin's membership. -/
def KeepsMembers (pid : Id) (p₀ : Project) (c : Config (Db P) ι Resp Exc Unit) : Prop :=
  ∃ p, KeyedStore.get c.store.projects pid = some p ∧ KeepsAdded pid p.userIds c.trace ∧
    (p₀.adminId ∈ p₀.userIds → p.adminId ∈ p.userIds)

/-! ## The condition -/

/-- The event writes the project. -/
def isWrite (pid : Id) : Event Resp → Bool
  | ⟨.updateProject id _, _⟩ => id = pid
  | _ => false

/-- The project's members and admin. -/
def Project.standing (p : Project) : List Id × Id := (p.userIds, p.adminId)

/-- Whether the event changed the stored project's members or admin. -/
def changesMembers (pid : Id) (before : Option Project) : Event Resp → Bool
  | ⟨.updateProject id _, .ok (some after)⟩ =>
    id = pid ∧ before.map (·.standing) ≠ some after.standing
  | _ => false

/-- **The condition**: a step that changes the project's members or admin finds every other call
that has read the project past its own write, or at its end. -/
def MembersUnread (pid : Id) (c : Config (Db P) ι Resp Exc Unit) (i : ι) (e : Event Resp) : Prop :=
  changesMembers pid (KeyedStore.get c.store.projects pid) e = true →
    ∀ j, j ≠ i → (c.mine j).any (isRead pid) = true →
      (c.mine j).any (isWrite pid) = true ∨ (c.pool j).Done

instance [Fintype ι] (c : Config (Db P) ι Resp Exc Unit) (i : ι) (e : Event Resp) :
    Decidable (MembersUnread pid c i e) :=
  inferInstanceAs (Decidable (_ → ∀ j, j ≠ i → _ → _ ∨ (c.pool j).Done))

/-! ## The protocol of a call -/

/-- Where a call is: the project it read, and whether it has written. -/
structure MemberPhase where
  read : Option Project := none
  written : Bool := false

/-- The update adds one user, who may become the admin. -/
def ProjectChanges.AddsOne (u : ProjectChanges) : Prop :=
  ∃ userId, u.userIds = some (.addToSet userId) ∧ (u.adminId = none ∨ u.adminId = some userId)

/-- The update rewrites the members and the admin of a project, keeping the admin a member. -/
structure ProjectChanges.Rewrites (u : ProjectChanges) (p : Project) : Prop where
  sets : u.userIds = none ∨ ∃ userIds, u.userIds = some (.set userIds)
  admin : p.adminId ∈ p.userIds → (p.apply u).adminId ∈ (p.apply u).userIds

/-- **What a call does to the members**: it adds one user, or rewrites once the project it read. -/
def memberProtocol (pid : Id) : Protocol Resp Exc Unit MemberPhase where
  next m e := match e with
    | ⟨.getProject id, some p⟩ => if id = pid then { m with read := some p } else m
    | ⟨.updateProject id _, _⟩ => if id = pid then { m with written := true } else m
    | _ => m
  assumes _ e := ∀ id p, e = ⟨.getProject id, some p⟩ → p.id = id
  allows m e := match e.1 with
    | .insertProject _ | .deleteProject _ => False
    | .updateProject id u => id = pid → u.AddsOne ∨
        ∃ p, m.read = some p ∧ m.written = false ∧ u.Rewrites p
    | _ => True
  ends _ _ := True

/-- Operations that neither read nor write a project. -/
def Op.isApart : Op → Bool
  | .getProject _ | .insertProject _ | .deleteProject _ | .updateProject _ _ => false
  | _ => true

theorem silent_of_isApart {o : Op} (ho : o.isApart) : Silent (memberProtocol pid) o := by
  intro m r
  cases o <;> first | exact ⟨trivial, rfl⟩ | cases ho

theorem isApart_of_isMembership (o : Op) (ho : o.isMembership) : o.isApart := by
  cases o <;> first | rfl | cases ho

variable {m : MemberPhase}

theorem follows_of_isApart {p : Service Unit} (hp : p.Calls (Op.isApart ·)) :
    Follows (memberProtocol pid) m p :=
  follows_silent (hp.mono fun _ => silent_of_isApart) fun _ => trivial

theorem follows_of_isApart_bind {α : Type} {p : Service α} {f : α → Service Unit}
    (hp : p.Calls (Op.isApart ·)) (hf : ∀ a, Follows (memberProtocol pid) m (f a)) :
    Follows (memberProtocol pid) m (p >>= f) :=
  follows_silent_bind (hp.mono fun _ => silent_of_isApart) (fun _ => trivial) hf

theorem follows_addsOne {id : Id} {u : ProjectChanges} (hu : u.AddsOne) :
    Follows (memberProtocol pid) m (do
      let _ ← (do ofExcept (← call (.updateProject id u)) : Service (Option Project))) := by
  rw [bind_assoc]
  refine follows_perform_bind.mpr fun r _ => ⟨fun _ => .inl hu, ?_⟩
  exact follows_of_isApart (calls_bind (calls_ofExcept r) fun _ => trivial)

theorem follows_read {id : Id} {f : Option Project → Service Unit}
    (hnone : (f none).Calls (Op.isApart ·))
    (hsome : ∀ p m, p.id = id → (id = pid → m.read = some p ∧ m.written = false) →
      Follows (memberProtocol pid) m (f (some p))) :
    Follows (memberProtocol pid) {} (call (.getProject id) >>= f) := by
  refine follows_perform_bind.mpr fun r hr => ⟨trivial, ?_⟩
  cases r with
  | none => exact follows_of_isApart hnone
  | some p => exact hsome p _ (hr id p rfl) fun hid => by simp [memberProtocol, hid]

theorem follows_rewrites {p : Project} {u : ProjectChanges}
    {f : Resp (.updateProject p.id u) → Service Unit}
    (hm : p.id = pid → m.read = some p ∧ m.written = false) (hu : u.Rewrites p)
    (hf : ∀ r, (f r).Calls (Op.isApart ·)) :
    Follows (memberProtocol pid) m (call (.updateProject p.id u) >>= f) :=
  follows_perform_bind.mpr fun r _ =>
    ⟨fun hid => .inr ⟨p, (hm hid).1, (hm hid).2, hu⟩, follows_of_isApart (hf r)⟩

theorem userIds_apply_changes (payload : ProjectUpdate) (p : Project) (adminId : Id)
    (userIds : List Id) : (p.apply (payload.changes p adminId userIds)).userIds = userIds := by
  by_cases hsame : userIds ≠ p.userIds
  · simp [Project.apply, ProjectUpdate.changes, hsame, ListChange.apply]
  · simp only [Project.apply, ProjectUpdate.changes, if_neg hsame]
    exact (not_not.mp hsame).symm

theorem rewrites_changes (payload : ProjectUpdate) (p : Project) (adminId : Id)
    (userIds : List Id) :
    (payload.changes p adminId (withAdmin userIds adminId)).Rewrites p where
  sets := by
    simp only [ProjectUpdate.changes]
    split_ifs
    · exact .inr ⟨_, rfl⟩
    · exact .inl rfl
  admin _ := by
    rw [userIds_apply_changes]
    exact mem_withAdmin userIds adminId

theorem rewrites_remove {p : Project} {memberId : Id} (hadmin : memberId ≠ p.adminId) :
    ({ userIds := some (.set (p.userIds.filter (· ≠ memberId))) } : ProjectChanges).Rewrites p where
  sets := .inr ⟨_, rfl⟩
  admin hmem := by
    simp only [Project.apply, Option.getD_none, Option.map_some, Option.getD_some,
      ListChange.apply, List.mem_filter]
    exact ⟨hmem, by simpa using hadmin.symm⟩

theorem follows_removeMember {projectId memberId : Id} {user : User} :
    Follows (memberProtocol pid) {} (removeMemberRoute projectId memberId user) := by
  unfold removeMemberRoute
  rw [getProjectOrMissing_eq, bind_assoc]
  refine follows_read trivial fun p m hid hm => ?_
  dsimp only [ret_bind]
  split_ifs with _ hadmin
  · trivial
  · trivial
  · unfold removeMember
    rw [bind_assoc]
    refine follows_of_isApart_bind ((calls_perform _).mpr rfl) fun _ => ?_
    rw [bind_assoc]
    refine follows_rewrites (by rwa [hid]) (rewrites_remove hadmin) fun r => ?_
    rw [bind_assoc]
    refine calls_bind (calls_ofExcept r) fun updated => ?_
    rw [bind_assoc]
    exact calls_bind (calls_notifyMembershipRevoked isApart_of_isMembership _ _ _) fun _ => trivial
  · trivial

theorem follows_updateProject {h : Host} {g : Generated} {projectId : Id}
    {payload : ProjectUpdate} {actor : User} :
    Follows (memberProtocol pid) {} (do
      let _ ← putProjectRoute h g projectId payload actor) := by
  unfold putProjectRoute getProjectOr404
  split_ifs
  swap
  · trivial
  rw [getProjectOrMissing_eq, bind_assoc, bind_assoc]
  refine follows_read trivial fun p m hid hm => ?_
  dsimp only [ret_bind]
  rw [bind_assoc]
  unfold updateProject
  rw [bind_assoc]
  refine follows_of_isApart_bind (calls_getUserEmailIdMap isApart_of_isMembership _) fun d => ?_
  rw [bind_assoc]
  refine follows_of_isApart_bind (calls_ofExcept _) fun adminId => ?_
  rw [bind_assoc]
  refine follows_of_isApart_bind (calls_ofExcept _) fun namedIds => ?_
  dsimp only
  rw [bind_assoc]
  refine follows_of_isApart_bind (calls_revokeLeaving rfl) fun _ => ?_
  rw [bind_assoc]
  refine follows_rewrites (by rwa [hid]) (rewrites_changes _ _ _ _) fun r => ?_
  rw [bind_assoc]
  refine calls_bind (calls_ofExcept r) fun updated => ?_
  rw [bind_assoc]
  refine calls_bind (calls_notifyMembershipChange isApart_of_isMembership _ _ _) fun _ => ?_
  refine calls_bind (calls_ret updated) fun updated => ?_
  cases updated with
  | none => trivial
  | some updated => exact calls_bind (calls_getAdminView isApart_of_isMembership updated) fun _ => trivial

theorem follows_memberTask (h : Host) (pid : Id) (task : MemberTask) :
    Follows (memberProtocol pid) {} (task.service h) := by
  cases task with
  | removeMember projectId memberId user => exact follows_removeMember
  | updateProject projectId payload actor g => exact follows_updateProject
  | addMember projectId userId => exact follows_addsOne ⟨userId, rfl, .inl rfl⟩
  | setAdmin projectId userId => exact follows_addsOne ⟨userId, rfl, .inr rfl⟩

/-! ## The invariant -/

section Phase

variable {e : Event Resp} {q : Project}

theorem memberRead_next (hq : ((memberProtocol pid).next m e).read = some q) :
    e = ⟨.getProject pid, some q⟩ ∨ m.read = some q := by
  obtain ⟨o, r⟩ := e
  cases o with
  | getProject id =>
    cases r with
    | none => exact .inr hq
    | some p =>
      by_cases hid : id = pid
      · subst hid
        simp only [memberProtocol, if_true, Option.some.injEq] at hq
        exact .inl (by rw [hq])
      · exact .inr (by simpa [memberProtocol, hid] using hq)
  | updateProject id u =>
    by_cases hid : id = pid <;> exact .inr (by simpa [memberProtocol, hid] using hq)
  | _ => exact .inr hq

theorem unwritten_of_next (hm : ((memberProtocol pid).next m e).written = false) :
    isWrite pid e = false ∧ m.written = false := by
  obtain ⟨o, r⟩ := e
  cases o with
  | getProject id =>
    cases r with
    | none => exact ⟨rfl, hm⟩
    | some p => by_cases hid : id = pid <;> exact ⟨rfl, by simpa [memberProtocol, hid] using hm⟩
  | updateProject id u =>
    by_cases hid : id = pid
    · simp [memberProtocol, hid] at hm
    · exact ⟨by simp [isWrite, hid], by simpa [memberProtocol, hid] using hm⟩
  | _ => exact ⟨rfl, hm⟩

theorem any_isWrite_of_unwritten (l : List (Event Resp)) (m : MemberPhase)
    (hm : (l.foldl (memberProtocol pid).next m).written = false) :
    m.written = false ∧ l.any (isWrite pid) = false := by
  induction l generalizing m with
  | nil => exact ⟨hm, rfl⟩
  | cons e l ih =>
    obtain ⟨hnext, hl⟩ := ih _ hm
    obtain ⟨he, hm⟩ := unwritten_of_next hnext
    exact ⟨hm, by rw [List.any_cons, he, hl, Bool.false_or]⟩

end Phase

/-- The programs of the calls. -/
abbrev memberPool (h : Host) (tasks : ι → MemberTask) (i : ι) : Service Unit :=
  (tasks i).service h

/-- The phase of a call. -/
abbrev memberPhase (pid : Id) (c : Config (Db P) ι Resp Exc Unit) (i : ι) : MemberPhase :=
  c.phase (fun _ => memberProtocol pid) (fun _ => {}) i

omit [ProjectStore P] in
theorem mem_of_memberRead {c : Config (Db P) ι Resp Exc Unit} {j : ι} {q : Project}
    (hq : (memberPhase pid c j).read = some q) : ⟨.getProject pid, some q⟩ ∈ c.mine j := by
  have htold := Config.exists_of_phase (fun m : MemberPhase => m.read = some q)
    (fun e => e = ⟨.getProject pid, some q⟩) hq fun _ _ => memberRead_next
  obtain ⟨_, hmem, rfl⟩ | hnone := htold
  · exact hmem
  · cases hnone

/-- **The invariant**: the project is stored as `p`, it keeps its members, and whoever has read it
and is yet to write read its members as they are. -/
structure MembersInv (pid : Id) (p₀ p : Project) (c : Config (Db P) ι Resp Exc Unit) : Prop where
  stored : KeyedStore.get c.store.projects pid = some p
  kept : KeepsAdded pid p.userIds c.trace
  admin : p₀.adminId ∈ p₀.userIds → p.adminId ∈ p.userIds
  read : ∀ j q, (memberPhase pid c j).read = some q → (memberPhase pid c j).written = false →
    ¬ (c.pool j).Done → q.standing = p.standing

omit [DecidableEq ι] in
/-- **What one more event keeps**: it adds whom it says, and leaves out only users its call saw. -/
theorem KeepsAdded.append {userIds userIds' : List Id} {trace : List (ι × Event Resp)} {i : ι}
    {e : Event Resp} (hkept : KeepsAdded pid userIds trace)
    (hadds : ∀ u, adds pid u e = true → u ∈ userIds')
    (hleaves : ∀ u ∈ userIds, u ∉ userIds' → leavesOut pid u e = true ∧
      ∃ seen, (i, seen) ∈ trace ∧ sees pid u seen = true) :
    KeepsAdded pid userIds' (trace ++ [(i, e)]) := by
  intro before j e' later u htrace hadd
  obtain ⟨rfl, hlast⟩ | ⟨later, rfl, rfl⟩ := last_or_before htrace
  · obtain ⟨rfl, rfl⟩ := Prod.mk.inj hlast
    exact .inl (hadds u hadd)
  · obtain hmem | ⟨between, k, e'', rest, rfl, hleft, seen⟩ := hkept before j e' later u rfl hadd
    · by_cases hmem' : u ∈ userIds'
      · exact .inl hmem'
      · obtain ⟨hleft, seen, hseen, hsees⟩ := hleaves u hmem hmem'
        refine .inr ⟨later, i, e, [], by simp, hleft, seen, ?_, hsees⟩
        simpa using hseen
    · exact .inr ⟨between, k, e'', rest ++ [(i, e)], by simp, hleft, seen⟩

theorem standing_apply {p q : Project} (u : ProjectChanges) (hpq : p.standing = q.standing) :
    (p.apply u).standing = (q.apply u).standing := by
  obtain ⟨huserIds, hadminId⟩ := Prod.mk.inj hpq
  simp [Project.standing, Project.apply, huserIds, hadminId]

section Step

variable {h : Host} {i : ι} {e : Event Resp} {c c' : Config (Db P) ι Resp Exc Unit}
  {p₀ p : Project}

theorem unwritten_before (hs : StepBy (exec h) i e c c') {j : ι} {q : Project}
    (hq : (memberPhase pid c' j).read = some q) (hw : (memberPhase pid c' j).written = false)
    (hj : ¬ (c'.pool j).Done) :
    KeyedStore.get c.store.projects pid = some q ∧ e = ⟨.getProject pid, some q⟩ ∨
      ((memberPhase pid c j).read = some q ∧ (memberPhase pid c j).written = false ∧
        ¬ (c.pool j).Done ∧ (j = i → isWrite pid e = false)) := by
  by_cases hij : j = i
  · subst hij
    rw [memberPhase, hs.phase_self] at hq hw
    obtain ⟨he, hw⟩ := unwritten_of_next hw
    obtain rfl | hq := memberRead_next hq
    · exact .inl ⟨hs.resp, rfl⟩
    · exact .inr ⟨hq, hw, hs.not_done, fun _ => he⟩
  · rw [memberPhase, hs.phase_ne _ _ hij] at hq hw
    rw [hs.pool_ne hij] at hj
    exact .inr ⟨hq, hw, hj, fun h => (hij h).elim⟩

/-- **An update of the project that its call's protocol allows keeps the invariant.** -/
theorem MembersInv.update {u : ProjectChanges} {r : Resp (.updateProject pid u)}
    (hinv : MembersInv pid p₀ p c) (hguard : MembersUnread pid c i ⟨.updateProject pid u, r⟩)
    (hs : StepBy (exec h) i ⟨.updateProject pid u, r⟩ c c') (hr : r = .ok (some (p.apply u)))
    (hallow : (memberProtocol pid).allows (memberPhase pid c i) ⟨.updateProject pid u, r⟩) :
    MembersInv pid p₀ (p.apply u) c' := by
  subst hr
  have hread : ∀ j q, (memberPhase pid c' j).read = some q →
      (memberPhase pid c' j).written = false → ¬ (c'.pool j).Done →
      q.standing = (p.apply u).standing := by
    intro j q hq hw hj
    obtain ⟨-, he⟩ | ⟨hq, hw, hj, hne⟩ := unwritten_before hs hq hw hj
    · cases he
    have hji : j ≠ i := fun hji => by simpa [isWrite] using hne hji
    have hbefore := hinv.read j q hq hw hj
    by_cases hsame : p.standing = (p.apply u).standing
    · exact hbefore.trans hsame
    · have hreads : (c.mine j).any (isRead pid) = true := by
        exact List.any_eq_true.mpr ⟨_, mem_of_memberRead hq, by simp [isRead]⟩
      have hchanges : changesMembers pid (KeyedStore.get c.store.projects pid)
          ⟨.updateProject pid u, .ok (some (p.apply u))⟩ = true := by
        simp [changesMembers, hinv.stored, hsame]
      obtain hwrote | hdone := hguard hchanges j hji hreads
      · rw [(any_isWrite_of_unwritten _ _ hw).2] at hwrote
        cases hwrote
      · exact (hj hdone).elim
  have hstored : KeyedStore.get c'.store.projects pid = some (p.apply u) := by
    rw [step_projects hs, hinv.stored]
    simp [projectAfter]
  obtain ⟨userId, hadds, hadmin⟩ | ⟨q, hq, hw, hrewrites⟩ := hallow rfl
  · -- one user is added, and no one is left out
    have hmem : ∀ v, v ∈ p.userIds ∨ v = userId → v ∈ (p.apply u).userIds := by
      intro v hv
      simp only [Project.apply, hadds, Option.map_some, Option.getD_some, ListChange.apply]
      split_ifs with hin
      · obtain hv | rfl := hv
        · exact hv
        · exact hin
      · simpa using hv
    refine ⟨hstored, ?_, fun hstart => ?_, hread⟩
    · rw [hs.trace]
      refine hinv.kept.append (fun v hv => hmem v (.inr ?_)) fun v hv hv' => ?_
      · have : userId = v := by simpa [adds, hadds] using hv
        exact this.symm
      · exact absurd (hmem v (.inl hv)) hv'
    · have hadminId : (p.apply u).adminId = u.adminId.getD p.adminId := rfl
      rw [hadminId]
      obtain hnone | hsome := hadmin
      · rw [hnone]
        exact hmem _ (.inl (hinv.admin hstart))
      · rw [hsome]
        exact hmem _ (.inr rfl)
  · -- the list is rewritten from a reading that agrees with what is stored
    have hstanding := hinv.read i q hq hw hs.not_done
    obtain ⟨huserIds, hadminId⟩ := Prod.mk.inj hstanding
    obtain ⟨huserIds', hadminId'⟩ := Prod.mk.inj (standing_apply u hstanding)
    refine ⟨hstored, ?_, fun hstart => ?_, hread⟩
    · rw [hs.trace]
      refine hinv.kept.append (fun v hv => ?_) fun v hv hv' => ?_
      · obtain hnone | ⟨l, hset⟩ := hrewrites.sets
        · simp [adds, hnone] at hv
        · simp [adds, hset] at hv
      · obtain hnone | ⟨l, hset⟩ := hrewrites.sets
        · simp [Project.apply, hnone, hv] at hv'
        · refine ⟨?_, ⟨_, Config.mem_mine.mp (mem_of_memberRead hq), ?_⟩⟩
          · simpa [Project.apply, ListChange.apply, leavesOut, hset] using hv'
          · simp [sees, huserIds, hv]
    · rw [← huserIds', ← hadminId']
      refine hrewrites.admin ?_
      rw [huserIds, hadminId]
      exact hinv.admin hstart

theorem MembersInv.stay (hinv : MembersInv pid p₀ p c) (hs : StepBy (exec h) i e c c')
    (hproject : projectAfter pid e (some p) = some p)
    (hupdate : ∀ u q, e ≠ ⟨.updateProject pid u, .ok (some q)⟩) : MembersInv pid p₀ p c' := by
  refine ⟨by rw [step_projects hs, hinv.stored, hproject], ?_, hinv.admin, fun j q hq hw hj => ?_⟩
  · rw [hs.trace]
    refine hinv.kept.append (fun v hv => ?_) fun v hv hv' => (hv' hv).elim
    obtain ⟨o, r⟩ := e
    cases o with
    | updateProject id u =>
      match r with
      | .ok none => cases hv
      | .error _ => cases hv
      | .ok (some q) =>
        simp only [adds, decide_eq_true_eq] at hv
        obtain ⟨rfl, _⟩ := hv
        exact (hupdate u q rfl).elim
    | _ => cases hv
  · obtain ⟨hstored, -⟩ | ⟨hq, hw, hj, -⟩ := unwritten_before hs hq hw hj
    · rw [hinv.stored] at hstored
      cases hstored
      rfl
    · exact hinv.read j q hq hw hj

/-- **A step that meets the condition keeps the invariant.** -/
theorem MembersInv.step (hinv : MembersInv pid p₀ p c) (hguard : MembersUnread pid c i e)
    (hs : StepBy (exec h) i e c c')
    (hallow : (memberProtocol pid).allows (memberPhase pid c i) e) :
    ∃ p', MembersInv pid p₀ p' c' := by
  by_cases hupdate : ∃ u q, e = ⟨.updateProject pid u, .ok (some q)⟩
  · obtain ⟨u, q, rfl⟩ := hupdate
    obtain ⟨p₁, hp₁, rfl⟩ := updated_of_answer hs.resp
    rw [hinv.stored] at hp₁
    cases hp₁
    exact ⟨_, hinv.update hguard hs rfl hallow⟩
  · have hupdate : ∀ u q, e ≠ ⟨.updateProject pid u, .ok (some q)⟩ :=
      fun u q he => hupdate ⟨u, q, he⟩
    refine ⟨p, hinv.stay hs (projectAfter_eq_self ?_ hupdate ?_) hupdate⟩
    · intro q he
      simp [memberProtocol, he] at hallow
    · rintro r rfl
      exact hallow

end Step

/-- **No member is lost**, in every interleaving in which no change of the members or the admin
falls between another operation's read of the project and its own write. -/
theorem keepsMembers_of_membersUnread (h : Host) (tasks : ι → MemberTask) {db : Db P}
    {p₀ : Project} (hstored : KeyedStore.get db.projects pid = some p₀)
    {c : Config (Db P) ι Resp Exc Unit}
    (hr : Reach (exec h) (MembersUnread pid) (Config.start db (memberPool h tasks)) c) :
    KeepsMembers pid p₀ c := by
  have hstart : MembersInv pid p₀ p₀ (Config.start db (memberPool h tasks)) := by
    refine ⟨hstored, ?_, id, fun _ _ hq => by simp at hq⟩
    intro before i e later u htrace
    simp [Config.start] at htrace
  obtain ⟨-, p, hinv⟩ := hr.invariant (fun _ => memberProtocol pid) (fun _ => {})
    (fun c => ∃ p, MembersInv pid p₀ p c) (fun i => follows_memberTask h pid (tasks i))
    ⟨p₀, hstart⟩
    (fun c i e c' _ _ _ hs => by
      rintro id p rfl
      exact KeyedStore.key_of_get hs.resp)
    (fun c i e c' _ _ hinv hguard hs hallow =>
      hinv.elim fun p hinv => hinv.step hguard hs hallow)
  exact ⟨p, hinv.stored, hinv.kept, hinv.admin⟩

/-! ## A removal and an addition at once -/

omit [DecidableEq ι] in
theorem KeepsAdded.mem_of_unseen {userIds : List Id} {trace : List (ι × Event Resp)} {userId : Id}
    (hkept : KeepsAdded pid userIds trace)
    (hadded : trace.any (fun x => adds pid userId x.2) = true)
    (hunseen : trace.all (fun x => !sees pid userId x.2) = true) : userId ∈ userIds := by
  obtain ⟨⟨i, e⟩, hmem, hadd⟩ := List.any_eq_true.mp hadded
  obtain ⟨before, later, rfl⟩ := List.append_of_mem hmem
  obtain hin | ⟨between, j, _, rest, rfl, -, seen, hseen, hsees⟩ :=
    hkept before i e later userId rfl hadd
  · exact hin
  · have hnot := List.all_eq_true.mp hunseen (j, seen) (by
      simp only [List.mem_append, List.mem_cons, List.not_mem_nil, or_false] at hseen ⊢
      tauto)
    simp [hsees] at hnot

/-- Someone new to the project. -/
def newcomerId : Id := "65f0000000000000000000a3"

/-- The admin removes the other member, and the newcomer is added. -/
def memberTasks : Bool → MemberTask
  | false => .removeMember labProject.id "65f0000000000000000000a2" labAdmin
  | true => .addMember labProject.id newcomerId

/-- The calls at their start. -/
def memberStart : Config (Db ProjectDocuments) Bool Resp Exc Unit :=
  Config.start (labDb .mongodb labDocuments) (memberPool labHost memberTasks)

/-- The newcomer is added before the removal reads the project. -/
def addedFirst : List Bool := [true, false, false, false, false]

/-- The newcomer is added after the removal has read the project. -/
def addedMeanwhile : List Bool := [false, true, false, false, false]

/-- The theorem at an interleaving that adds the newcomer first: they are a member at the end. -/
theorem keepsMembers_of_membersUnread_lab :
    KeepsMembers labProject.id labProject (memberStart.schedule (exec labHost) addedFirst) ∧
    (KeyedStore.get (memberStart.schedule (exec labHost) addedFirst).store.projects
      labProject.id).map (·.userIds) = some [labAdmin.id, newcomerId] :=
  ⟨keepsMembers_of_membersUnread labHost memberTasks (by decide +kernel)
    (reach_schedule_of_obeys (by decide +kernel)), by decide +kernel⟩

/-- **A member added between a removal's read and its write is lost**, though the removal is of
another and no call saw them as a member. -/
theorem added_member_lost :
    ∃ c, Reach (exec labHost) anyStep memberStart c ∧ c.AllDone ∧
      (KeyedStore.get c.store.projects labProject.id).map (·.userIds) = some [labAdmin.id] ∧
      ¬ KeepsMembers labProject.id labProject c := by
  refine ⟨memberStart.schedule (exec labHost) addedMeanwhile, reach_schedule _ _ _,
    by decide +kernel, by decide +kernel, ?_⟩
  have huserIds : (KeyedStore.get (memberStart.schedule (exec labHost) addedMeanwhile).store.projects
      labProject.id).map (·.userIds) = some [labAdmin.id] := by decide +kernel
  rintro ⟨p, hp, hkept, -⟩
  rw [hp, Option.map_some, Option.some.injEq] at huserIds
  have hmem : newcomerId ∈ p.userIds :=
    hkept.mem_of_unseen (by decide +kernel) (by decide +kernel)
  rw [huserIds] at hmem
  exact absurd hmem (by decide +kernel)

end Mss
