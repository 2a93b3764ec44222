import Mathlib.Data.Fintype.Option
import Mss.KeptMembers
import Mss.Services.AppTokens

/-!
# App tokens of members who leave

Creating an app token looks the membership up and inserts the token later; dropping a member, or
the project, deletes the tokens and writes the project later. Run at once, one operation of the
database at a time, no token is left to a user who is not a member when none is inserted that the
deletion of tokens, already made, would have taken.

* `DropTask`, `TokenCall`: the one call that drops, and the calls that create tokens.
* `Covered`: every token of the project is of a member of the project as it is stored.
* `InsertedUncut`: the condition, as a guard on each step.
* **`covered_of_insertedUncut`**: in every interleaving whose steps meet the condition, tokens
  covered at the start stay covered.
* `token_outlives_membership`: a token inserted between the deletion of tokens and the write.
-/

namespace Mss

open Atomic Storage Prog

/-! ## The calls -/

/-- **The call that drops members or the project.** -/
inductive DropTask
  | removeMember (projectId memberId : Id) (user : User)
  | updateProject (projectId : Id) (payload : ProjectUpdate) (actor : User) (g : Generated)
  | destroy (projectId userId : Id) (g : Generated)
  | adminDelete (projectId : Id) (g : Generated)
  | close (request : Request) (g : Generated)

/-- The program of the call that drops. -/
def DropTask.service (h : Host) : DropTask → Service Unit
  | .removeMember projectId memberId user => removeMemberRoute projectId memberId user
  | .updateProject projectId payload actor g => do
    let _ ← putProjectRoute h g projectId payload actor
  | .destroy projectId userId g => destroyRoute g projectId userId
  | .adminDelete projectId g => deleteProjectRoute g projectId
  | .close request g => closeProject g request

/-- A call that creates an app token. -/
structure TokenCall where
  payload : AppTokenCreate
  userId : Id
  generated : Generated

/-- The app token a call inserts. -/
def TokenCall.token (k : TokenCall) : AppToken :=
  { k.payload with
    id := k.generated.id, token := k.generated.token, userId := k.userId,
    createdAt := k.generated.nowMicros }

/-- The program of a call that creates an app token. -/
def TokenCall.service (k : TokenCall) : Service Unit := do
  let _ ← createAppToken k.generated k.payload k.userId

/-! ## What is to hold -/

variable {P : Type} [ProjectStore P] {κ : Type} [DecidableEq κ] {pid : Id}

/-- The user is a member of the project as it is stored. -/
def IsMember (db : Db P) (pid userId : Id) : Prop :=
  ∃ p, KeyedStore.get db.projects pid = some p ∧ userId ∈ p.userIds

/-- **Every app token of the project is of a member**, so that none is of a user who left, or of a
project no longer stored. -/
def Covered (pid : Id) (db : Db P) : Prop :=
  ∀ t ∈ db.appTokens.rows, t.projectId = pid → IsMember db pid t.userId

instance (db : Db P) (userId : Id) : Decidable (IsMember db pid userId) :=
  decidable_of_iff (∃ p ∈ KeyedStore.get db.projects pid, userId ∈ p.userIds) Iff.rfl

instance (db : Db P) : Decidable (Covered pid db) :=
  inferInstanceAs (Decidable (∀ t ∈ db.appTokens.rows, t.projectId = pid → IsMember db pid t.userId))

/-! ## The condition -/

/-- The event deletes app tokens, by a filter that matches the token. -/
def cuts (t : AppToken) : Event Resp → Bool
  | ⟨.deleteAppTokens f, _⟩ => f.matches t
  | _ => false

/-- The token the event inserted. -/
def inserted : Event Resp → Option AppToken
  | ⟨.insertAppToken t, .ok _⟩ => some t
  | _ => none

/-- **The condition**: no step inserts an app token that the dropping call's deletion of tokens,
already made, matches. -/
def InsertedUncut (c : Config (Db P) (Option κ) Resp Exc Unit) (_ : Option κ) (e : Event Resp) :
    Prop :=
  ∀ t ∈ inserted e, (c.mine none).any (cuts t) = false

instance (c : Config (Db P) (Option κ) Resp Exc Unit) (i : Option κ) (e : Event Resp) :
    Decidable (InsertedUncut c i e) :=
  inferInstanceAs (Decidable (∀ t ∈ inserted e, _))

/-! ## The protocols of the calls -/

/-- Where a call is: the project it read, the filters it has deleted tokens by, whether it has
written the project, and whether it has found its user to be a member. -/
structure TokenPhase where
  read : Option Project := none
  cut : List AppTokenFilter := []
  written : Bool := false
  found : Bool := false

/-- A filter that matches every token of the user for the project. -/
def AppTokenFilter.Takes (f : AppTokenFilter) (pid userId : Id) : Prop :=
  f.projectId = pid ∧ ∀ ids ∈ f.notUserIds, userId ∉ ids

/-- The members that an update of the project leaves out have had their tokens deleted. -/
def Revoked (pid : Id) (cut : List AppTokenFilter) (p : Project) (u : ProjectChanges) : Prop :=
  ∀ v ∈ p.userIds, v ∉ (p.apply u).userIds → ∃ f ∈ cut, f.Takes pid v

/-- **What the dropping call does**: it writes once, a project it has read, after it has deleted
the tokens of those it drops. -/
def dropProtocol (pid : Id) : Protocol Resp Exc Unit TokenPhase where
  next m e := match e with
    | ⟨.getProject id, some p⟩ => if id = pid then { m with read := some p } else m
    | ⟨.deleteAppTokens f, _⟩ => { m with cut := m.cut ++ [f] }
    | ⟨.updateProject id _, _⟩ => if id = pid then { m with written := true } else m
    | ⟨.deleteProject id, _⟩ => if id = pid then { m with written := true } else m
    | _ => m
  assumes _ e := ∀ id p, e = ⟨.getProject id, some p⟩ → p.id = id
  allows m e := match e.1 with
    | .insertProject _ | .insertAppToken _ => False
    | .updateProject id u => id = pid → m.written = false ∧
        ∃ p, m.read = some p ∧ Revoked pid m.cut p u
    | .deleteProject id => id = pid → ∃ f ∈ m.cut, ∀ v, f.Takes pid v
    | _ => True
  ends _ _ := True

/-- **What a creating call does**: it inserts its token after it has found its user a member. -/
def createProtocol (k : TokenCall) : Protocol Resp Exc Unit TokenPhase where
  next m e := match e with
    | ⟨.findProjectOfMember id userId, some _⟩ =>
      if id = k.payload.projectId ∧ userId = k.userId then { m with found := true } else m
    | _ => m
  assumes _ _ := True
  allows m e := match e.1 with
    | .findProjectOfMember _ _ => True
    | .insertAppToken t => t = k.token ∧ m.found = true
    | _ => False
  ends _ _ := True

theorem follows_createAppToken (k : TokenCall) : Follows (createProtocol k) {} k.service := by
  unfold TokenCall.service createAppToken
  rw [bind_assoc]
  refine follows_perform_bind.mpr fun r _ => ⟨trivial, ?_⟩
  cases r with
  | none => trivial
  | some project =>
    dsimp only
    split_ifs
    · trivial
    · rw [bind_assoc]
      refine follows_perform_bind.mpr fun r _ => ⟨⟨rfl, by simp [createProtocol]⟩, ?_⟩
      cases r <;> trivial

/-- Operations that neither read nor write a project or an app token. -/
def Op.isBeside : Op → Bool
  | .getProject _ | .insertProject _ | .deleteProject _ | .updateProject _ _ => false
  | .insertAppToken _ | .deleteAppTokens _ => false
  | _ => true

theorem silent_of_isBeside {o : Op} (ho : o.isBeside) : Silent (dropProtocol pid) o := by
  intro m r
  cases o <;> first | exact ⟨trivial, rfl⟩ | cases ho

theorem isBeside_of_isMembership (o : Op) (ho : o.isMembership) : o.isBeside := by
  cases o <;> first | rfl | cases ho

variable {m : TokenPhase}

theorem follows_of_isBeside {p : Service Unit} (hp : p.Calls (Op.isBeside ·)) :
    Follows (dropProtocol pid) m p :=
  follows_silent (hp.mono fun _ => silent_of_isBeside) fun _ => trivial

theorem follows_of_isBeside_bind {α : Type} {p : Service α} {f : α → Service Unit}
    (hp : p.Calls (Op.isBeside ·)) (hf : ∀ a, Follows (dropProtocol pid) m (f a)) :
    Follows (dropProtocol pid) m (p >>= f) :=
  follows_silent_bind (hp.mono fun _ => silent_of_isBeside) (fun _ => trivial) hf

/-- The phase of a call that has read a project, if it is the one, and done nothing else. -/
def HasRead (pid : Id) (p : Project) (m : TokenPhase) : Prop :=
  p.id = pid → m.read = some p ∧ m.written = false

theorem follows_dropRead {id : Id} {f : Option Project → Service Unit}
    (hnone : (f none).Calls (Op.isBeside ·))
    (hsome : ∀ p m, HasRead pid p m → Follows (dropProtocol pid) m (f (some p))) :
    Follows (dropProtocol pid) {} (call (.getProject id) >>= f) := by
  refine follows_perform_bind.mpr fun r hr => ⟨trivial, ?_⟩
  cases r with
  | none => exact follows_of_isBeside hnone
  | some p =>
    refine hsome p _ fun hid => ?_
    rw [hr id p rfl] at hid
    simp [dropProtocol, hid]

theorem follows_deleteAppTokens {filter : AppTokenFilter} {f : ℕ → Service Unit}
    (hf : ∀ n, Follows (dropProtocol pid) { m with cut := m.cut ++ [filter] } (f n)) :
    Follows (dropProtocol pid) m (call (.deleteAppTokens filter) >>= f) :=
  follows_perform_bind.mpr fun n _ => ⟨trivial, hf n⟩

theorem follows_update {p : Project} {u : ProjectChanges}
    {f : Resp (.updateProject p.id u) → Service Unit} (hm : HasRead pid p m)
    (hu : p.id = pid → Revoked pid m.cut p u) (hf : ∀ r, (f r).Calls (Op.isBeside ·)) :
    Follows (dropProtocol pid) m (call (.updateProject p.id u) >>= f) :=
  follows_perform_bind.mpr fun r _ =>
    ⟨fun hid => ⟨(hm hid).2, p, (hm hid).1, hu hid⟩, follows_of_isBeside (hf r)⟩

theorem follows_dropProject {g : Generated} {p : Project} {isSuperuser : Bool} :
    Follows (dropProtocol pid) m (deleteProject g p isSuperuser) := by
  unfold deleteProject
  split_ifs
  · trivial
  · refine follows_deleteAppTokens fun _ => ?_
    refine follows_perform_bind.mpr fun _ _ => ⟨fun hid => ?_, ?_⟩
    · exact ⟨{ projectId := p.id }, by simp, fun v => ⟨hid, by simp⟩⟩
    · exact follows_of_isBeside (calls_bind ((calls_perform _).mpr rfl) fun r => calls_ofExcept r)

theorem follows_dropMember {projectId memberId : Id} {user : User} :
    Follows (dropProtocol pid) {} (removeMemberRoute projectId memberId user) := by
  unfold removeMemberRoute
  rw [getProjectOrMissing_eq, bind_assoc]
  refine follows_dropRead trivial fun p m hm => ?_
  dsimp only [ret_bind]
  split_ifs
  · trivial
  · trivial
  · unfold removeMember
    rw [bind_assoc]
    refine follows_deleteAppTokens fun _ => ?_
    rw [bind_assoc]
    refine follows_update (fun hid => hm hid) (fun hid v _ hv => ?_) fun r => ?_
    · refine ⟨_, List.mem_append_right _ (List.mem_singleton_self _), hid, ?_⟩
      simpa [Project.apply, ListChange.apply] using hv
    · rw [bind_assoc]
      refine calls_bind (calls_ofExcept r) fun updated => ?_
      rw [bind_assoc]
      exact calls_bind (calls_notifyMembershipRevoked isBeside_of_isMembership _ _ _)
        fun _ => trivial
  · trivial

theorem follows_revokeLeaving {p : Project} {payload : ProjectUpdate} {adminId : Id}
    {userIds : List Id} {f : Resp (.updateProject p.id (payload.changes p adminId userIds)) →
      Service Unit} (hm : HasRead pid p m) (hf : ∀ r, (f r).Calls (Op.isBeside ·)) :
    Follows (dropProtocol pid) m (revokeLeaving p userIds >>= fun _ =>
      call (.updateProject p.id (payload.changes p adminId userIds)) >>= f) := by
  unfold revokeLeaving
  split_ifs with hsame
  · rw [bind_assoc]
    refine follows_deleteAppTokens fun _ => ?_
    refine follows_update (fun hid => hm hid) (fun hid v _ hv => ?_) hf
    rw [userIds_apply_changes] at hv
    exact ⟨_, List.mem_append_right _ (List.mem_singleton_self _), hid, by simpa using hv⟩
  · refine follows_update hm (fun hid v hv hv' => ?_) hf
    rw [userIds_apply_changes, not_not.mp hsame] at hv'
    exact (hv' hv).elim

theorem follows_dropByUpdate {h : Host} {g : Generated} {projectId : Id}
    {payload : ProjectUpdate} {actor : User} :
    Follows (dropProtocol pid) {} (do
      let _ ← putProjectRoute h g projectId payload actor) := by
  unfold putProjectRoute getProjectOr404
  split_ifs
  swap
  · trivial
  rw [getProjectOrMissing_eq, bind_assoc, bind_assoc]
  refine follows_dropRead trivial fun p m hm => ?_
  dsimp only [ret_bind]
  rw [bind_assoc]
  unfold updateProject
  rw [bind_assoc]
  refine follows_of_isBeside_bind (calls_getUserEmailIdMap isBeside_of_isMembership _) fun d => ?_
  rw [bind_assoc]
  refine follows_of_isBeside_bind (calls_ofExcept _) fun adminId => ?_
  rw [bind_assoc]
  refine follows_of_isBeside_bind (calls_ofExcept _) fun namedIds => ?_
  dsimp only
  simp only [bind_assoc]
  refine follows_revokeLeaving hm fun r => ?_
  refine calls_bind (calls_ofExcept r) fun updated => ?_
  refine calls_bind (calls_notifyMembershipChange isBeside_of_isMembership _ _ _) fun _ => ?_
  refine calls_bind (calls_ret updated) fun updated => ?_
  cases updated with
  | none => trivial
  | some updated =>
    exact calls_bind (calls_getAdminView isBeside_of_isMembership updated) fun _ => trivial

theorem follows_dropTask (h : Host) (pid : Id) (drop : DropTask) :
    Follows (dropProtocol pid) {} (drop.service h) := by
  cases drop with
  | removeMember projectId memberId user => exact follows_dropMember
  | updateProject projectId payload actor g => exact follows_dropByUpdate
  | destroy projectId userId g =>
    change Follows _ _ (getProjectOrMissing projectId >>= _)
    rw [getProjectOrMissing_eq, bind_assoc]
    refine follows_dropRead trivial fun p m _ => ?_
    dsimp only [ret_bind]
    split_ifs
    · trivial
    · exact follows_dropProject
  | adminDelete projectId g =>
    change Follows _ _ (getProjectOr404 projectId >>= _)
    unfold getProjectOr404
    split_ifs
    · rw [getProjectOrMissing_eq, bind_assoc]
      exact follows_dropRead trivial fun p m _ => follows_dropProject
    · trivial
  | close request g =>
    change Follows _ _ (getActedProject request.resourceId >>= _)
    rw [getActedProject_eq, bind_assoc]
    exact follows_dropRead trivial fun p m _ => follows_dropProject

/-! ## The invariant -/

/-- The programs of the calls: the one that drops, and those that create tokens. -/
abbrev tokenPool (h : Host) (drop : DropTask) (calls : κ → TokenCall) : Option κ → Service Unit
  | none => drop.service h
  | some k => (calls k).service

/-- The protocols of the calls. -/
abbrev tokenProtocol (pid : Id) (calls : κ → TokenCall) :
    Option κ → Protocol Resp Exc Unit TokenPhase
  | none => dropProtocol pid
  | some k => createProtocol (calls k)

/-- The phase of a call. -/
abbrev tokenPhase (pid : Id) (calls : κ → TokenCall) (c : Config (Db P) (Option κ) Resp Exc Unit)
    (i : Option κ) : TokenPhase :=
  c.phase (tokenProtocol pid calls) (fun _ => {}) i

/-- **The invariant**: tokens are covered, none is left that was to be deleted, the project is as
the dropping call read it, and a user found to be a member is one or had their tokens deleted. -/
structure TokenInv (pid : Id) (calls : κ → TokenCall)
    (c : Config (Db P) (Option κ) Resp Exc Unit) : Prop where
  covered : Covered pid c.store
  cut : ∀ f ∈ (tokenPhase pid calls c none).cut, ∀ t ∈ c.store.appTokens.rows,
    f.matches t = false
  read : ∀ q, (tokenPhase pid calls c none).read = some q →
    (tokenPhase pid calls c none).written = false → KeyedStore.get c.store.projects pid = some q
  found : ∀ k, (tokenPhase pid calls c (some k)).found = true →
    (calls k).payload.projectId = pid → IsMember c.store pid (calls k).userId ∨
      ∃ f ∈ (tokenPhase pid calls c none).cut, f.Takes pid (calls k).userId

theorem matches_of_takes {f : AppTokenFilter} {t : AppToken}
    (hf : f.Takes t.projectId t.userId) : f.matches t = true := by
  simpa [AppTokenFilter.matches] using ⟨hf.1.symm, hf.2⟩

section Phase

variable {e : Event Resp}

theorem cut_next {f : AppTokenFilter} (hf : f ∈ ((dropProtocol pid).next m e).cut) :
    (∃ n, e = ⟨.deleteAppTokens f, n⟩) ∨ f ∈ m.cut := by
  obtain ⟨o, r⟩ := e
  cases o with
  | getProject id =>
    cases r with
    | none => exact .inr hf
    | some p => by_cases hid : id = pid <;> exact .inr (by simpa [dropProtocol, hid] using hf)
  | updateProject id u =>
    by_cases hid : id = pid <;> exact .inr (by simpa [dropProtocol, hid] using hf)
  | deleteProject id =>
    by_cases hid : id = pid <;> exact .inr (by simpa [dropProtocol, hid] using hf)
  | deleteAppTokens f' =>
    simp only [dropProtocol, List.mem_append, List.mem_singleton] at hf
    obtain hf | rfl := hf
    · exact .inr hf
    · exact .inl ⟨r, rfl⟩
  | _ => exact .inr hf

theorem mem_cut_next {f : AppTokenFilter} (hf : f ∈ m.cut) :
    f ∈ ((dropProtocol pid).next m e).cut := by
  simp only [dropProtocol]
  split <;> (try split_ifs) <;> first | exact hf | exact List.mem_append_left _ hf

theorem unwritten_next {q : Project} (hq : ((dropProtocol pid).next m e).read = some q)
    (hw : ((dropProtocol pid).next m e).written = false) :
    e = ⟨.getProject pid, some q⟩ ∨ (m.read = some q ∧ m.written = false ∧
      (∀ u r, e ≠ ⟨.updateProject pid u, r⟩) ∧ ∀ r, e ≠ ⟨.deleteProject pid, r⟩) := by
  obtain ⟨o, r⟩ := e
  cases o with
  | getProject id =>
    cases r with
    | none => exact .inr ⟨hq, hw, by simp, by simp⟩
    | some p =>
      by_cases hid : id = pid
      · subst hid
        simp only [dropProtocol, if_true, Option.some.injEq] at hq
        exact .inl (by rw [hq])
      · refine .inr ⟨?_, ?_, by simp, by simp⟩
        · simpa [dropProtocol, hid] using hq
        · simpa [dropProtocol, hid] using hw
  | updateProject id u =>
    by_cases hid : id = pid
    · simp [dropProtocol, hid] at hw
    · refine .inr ⟨by simpa [dropProtocol, hid] using hq, by simpa [dropProtocol, hid] using hw,
        fun u r he => ?_, by simp⟩
      cases he
      exact hid rfl
  | deleteProject id =>
    by_cases hid : id = pid
    · simp [dropProtocol, hid] at hw
    · refine .inr ⟨by simpa [dropProtocol, hid] using hq, by simpa [dropProtocol, hid] using hw,
        by simp, fun r he => ?_⟩
      cases he
      exact hid rfl
  | _ => exact .inr ⟨hq, hw, by simp, by simp⟩

end Phase

section Step

variable {h : Host} {calls : κ → TokenCall} {i : Option κ} {e : Event Resp}
  {c c' : Config (Db P) (Option κ) Resp Exc Unit}

/-- **A step of the dropping call keeps the invariant** if it leaves out only members whose tokens
it has deleted. -/
theorem TokenInv.drop (hinv : TokenInv pid calls c) (hs : StepBy (exec h) none e c c')
    (htokens : ∀ t, e.1 ≠ .insertAppToken t)
    (hmember : ∀ v, IsMember c.store pid v → IsMember c'.store pid v ∨
      ∃ f ∈ (tokenPhase pid calls c none).cut, f.Takes pid v)
    (hread : ∀ q, (tokenPhase pid calls c' none).read = some q →
      (tokenPhase pid calls c' none).written = false →
      KeyedStore.get c'.store.projects pid = some q) : TokenInv pid calls c' := by
  have hsub : ∀ t ∈ c'.store.appTokens.rows, t ∈ c.store.appTokens.rows := by
    intro t ht
    rw [step_tokens hs] at ht
    obtain ⟨o, r⟩ := e
    cases o with
    | insertAppToken t => exact (htokens t rfl).elim
    | deleteAppTokens f => exact (List.mem_filter.mp ht).1
    | _ => exact ht
  have hphase : tokenPhase pid calls c' none =
      (dropProtocol pid).next (tokenPhase pid calls c none) e := hs.phase_self _ _
  have hmono : ∀ f ∈ (tokenPhase pid calls c none).cut, f ∈ (tokenPhase pid calls c' none).cut :=
    fun f hf => hphase ▸ mem_cut_next hf
  refine ⟨?_, ?_, hread, ?_⟩
  · intro t ht hpid
    obtain hmem | ⟨f, hf, htakes⟩ := hmember _ (hinv.covered t (hsub t ht) hpid)
    · exact hmem
    · have hkept := hinv.cut f hf t (hsub t ht)
      rw [matches_of_takes (hpid ▸ htakes)] at hkept
      cases hkept
  · intro f hf t ht
    rw [hphase] at hf
    obtain ⟨n, rfl⟩ | hf := cut_next hf
    · rw [step_tokens hs] at ht
      simpa using (List.mem_filter.mp ht).2
    · exact hinv.cut f hf t (hsub t ht)
  · intro k hfound hpid
    rw [tokenPhase, hs.phase_ne _ _ (by simp)] at hfound
    obtain hmem | ⟨f, hf, htakes⟩ := hinv.found k hfound hpid
    · obtain hmem | ⟨f, hf, htakes⟩ := hmember _ hmem
      · exact .inl hmem
      · exact .inr ⟨f, hmono f hf, htakes⟩
    · exact .inr ⟨f, hmono f hf, htakes⟩

/-- **What a step of the dropping call leaves out of the members**: none whose tokens are left. -/
theorem TokenInv.isMember_drop (hinv : TokenInv pid calls c) (hs : StepBy (exec h) none e c c')
    (hallow : (dropProtocol pid).allows (tokenPhase pid calls c none) e) {v : Id}
    (hv : IsMember c.store pid v) : IsMember c'.store pid v ∨
      ∃ f ∈ (tokenPhase pid calls c none).cut, f.Takes pid v := by
  obtain ⟨p, hp, hmem⟩ := hv
  by_cases hdelete : ∃ r, e = ⟨.deleteProject pid, r⟩
  · obtain ⟨r, rfl⟩ := hdelete
    obtain ⟨f, hf, htakes⟩ := hallow rfl
    exact .inr ⟨f, hf, htakes v⟩
  by_cases hupdate : ∃ u q, e = ⟨.updateProject pid u, .ok (some q)⟩
  · obtain ⟨u, q, rfl⟩ := hupdate
    obtain ⟨hw, p', hread, hrevoked⟩ := hallow rfl
    obtain rfl : p = p' := by
      have := hinv.read p' hread hw
      rw [hp] at this
      exact Option.some.inj this
    by_cases hmem' : v ∈ (p.apply u).userIds
    · refine .inl ⟨p.apply u, ?_, hmem'⟩
      rw [step_projects hs, hp]
      simp [projectAfter]
    · exact .inr (hrevoked v hmem hmem')
  · refine .inl ⟨p, ?_, hmem⟩
    rw [step_projects hs, projectAfter_eq_self _ (fun u q he => hupdate ⟨u, q, he⟩)
      fun r he => hdelete ⟨r, he⟩, hp]
    intro q he
    simp [dropProtocol, he] at hallow

theorem TokenInv.step_drop (hinv : TokenInv pid calls c) (hs : StepBy (exec h) none e c c')
    (hallow : (dropProtocol pid).allows (tokenPhase pid calls c none) e) :
    TokenInv pid calls c' := by
  refine hinv.drop hs (fun t he => ?_) (fun v hv => hinv.isMember_drop hs hallow hv)
    fun q hq hw => ?_
  · simp [dropProtocol, he] at hallow
  · rw [tokenPhase, hs.phase_self] at hq hw
    obtain rfl | ⟨hq, hw, hupdate, hdelete⟩ := unwritten_next hq hw
    · rw [step_projects hs]
      exact hs.resp
    · rw [step_projects hs, hinv.read q hq hw,
        projectAfter_eq_self _ (fun u q => hupdate u _) hdelete]
      intro q he
      simp [dropProtocol, he] at hallow

theorem isMember_of_answer {db : Db P} {id userId : Id} {p : Project}
    (he : (exec h (.findProjectOfMember id userId) db).1 = some p) : IsMember db id userId := by
  simp only [exec, Option.filter_eq_some_iff, decide_eq_true_eq] at he
  exact ⟨p, he⟩

/-- **A step a creating call's protocol allows keeps the invariant** if it meets the condition. -/
theorem TokenInv.step_create {k : κ} (hinv : TokenInv pid calls c)
    (hguard : InsertedUncut c (some k) e) (hs : StepBy (exec h) (some k) e c c')
    (hallow : (createProtocol (calls k)).allows (tokenPhase pid calls c (some k)) e) :
    TokenInv pid calls c' := by
  -- the deletion's own part is as it was
  have hdrop : tokenPhase pid calls c' none = tokenPhase pid calls c none :=
    hs.phase_ne _ _ (by simp)
  have hproject : KeyedStore.get c'.store.projects pid = KeyedStore.get c.store.projects pid := by
    rw [step_projects hs]
    refine projectAfter_eq_self (fun q he => ?_) (fun u q he => ?_) fun r he => ?_ <;>
      simp [createProtocol, he] at hallow
  have hmember : ∀ v, IsMember c'.store pid v ↔ IsMember c.store pid v := fun v => by
    simp only [IsMember, hproject]
  have hcut : ∀ t ∈ inserted e, ∀ f ∈ (tokenPhase pid calls c none).cut, f.matches t = false := by
    intro t ht f hf
    have htold := Config.exists_of_phase (fun m : TokenPhase => f ∈ m.cut)
      (fun e => ∃ n, e = ⟨.deleteAppTokens f, n⟩) hf fun _ _ => cut_next
    obtain ⟨_, hmem, n, rfl⟩ | hf := htold
    · exact Bool.not_eq_true _ ▸ List.any_eq_false.mp (hguard t ht) _ hmem
    · cases hf
  have hread : ∀ q, (tokenPhase pid calls c' none).read = some q →
      (tokenPhase pid calls c' none).written = false →
      KeyedStore.get c'.store.projects pid = some q := by
    rw [hdrop, hproject]
    exact hinv.read
  have hother : ∀ k', k' ≠ k → tokenPhase pid calls c' (some k') = tokenPhase pid calls c (some k') :=
    fun k' hk => hs.phase_ne _ _ (by simpa using hk)
  have hself : tokenPhase pid calls c' (some k) =
      (createProtocol (calls k)).next (tokenPhase pid calls c (some k)) e := hs.phase_self _ _
  have htokens := step_tokens hs
  have hresp := hs.resp
  obtain ⟨o, r⟩ := e
  cases o with
  -- the call has read the project, and the tokens are as they were
  | findProjectOfMember id userId =>
    change c'.store.appTokens.rows = c.store.appTokens.rows at htokens
    refine ⟨fun t ht hpid => ?_, fun f hf t ht => ?_, hread, fun k' hfound hpid => ?_⟩
    · exact (hmember _).mpr (hinv.covered t (htokens ▸ ht) hpid)
    · exact hinv.cut f (hdrop ▸ hf) t (htokens ▸ ht)
    · rw [hdrop, hmember]
      by_cases hk : k' = k
      · subst hk
        by_cases hbefore : (tokenPhase pid calls c (some k')).found = true
        · exact hinv.found k' hbefore hpid
        · rw [hself] at hfound
          cases r with
          | none => exact (hbefore hfound).elim
          | some p =>
            simp only [createProtocol] at hfound
            split_ifs at hfound with heq
            · obtain ⟨rfl, rfl⟩ := heq
              exact .inl (hpid ▸ isMember_of_answer hresp)
            · exact (hbefore hfound).elim
      · rw [hother k' hk] at hfound
        exact hinv.found k' hfound hpid
  | insertAppToken t =>
    -- a token is inserted for the member that the call has read
    obtain ⟨rfl, hfound⟩ := hallow
    have hmem : ∀ t ∈ c'.store.appTokens.rows, t ∈ c.store.appTokens.rows ∨
        (t = (calls k).token ∧ ∀ f ∈ (tokenPhase pid calls c none).cut, f.matches t = false) := by
      intro t ht
      rw [htokens] at ht
      match r with
      | .error _ => exact .inl ht
      | .ok () =>
        simp only [tokensAfter, List.mem_append, List.mem_singleton] at ht
        obtain ht | rfl := ht
        · exact .inl ht
        · exact .inr ⟨rfl, hcut _ rfl⟩
    refine ⟨fun t ht hpid => ?_, fun f hf t ht => ?_, hread, fun k' hfound' hpid => ?_⟩
    · rw [hmember]
      obtain ht | ⟨rfl, huncut⟩ := hmem t ht
      · exact hinv.covered t ht hpid
      · obtain hin | ⟨f, hf, htakes⟩ := hinv.found k hfound hpid
        · exact hin
        · have hkept := huncut f hf
          rw [matches_of_takes (hpid ▸ htakes)] at hkept
          cases hkept
    · rw [hdrop] at hf
      obtain ht | ⟨rfl, huncut⟩ := hmem t ht
      · exact hinv.cut f hf t ht
      · exact huncut f hf
    · rw [hdrop, hmember]
      by_cases hk : k' = k
      · subst hk
        exact hinv.found k' hfound hpid
      · rw [hother k' hk] at hfound'
        exact hinv.found k' hfound' hpid
  | _ => exact hallow.elim

end Step

/-- **Leaving a project revokes its app tokens for good**, in every interleaving in which no token
is inserted that the dropping call's deletion, already made, matches. -/
theorem covered_of_insertedUncut (h : Host) (drop : DropTask) (calls : κ → TokenCall) {db : Db P}
    (hcovered : Covered pid db) {c : Config (Db P) (Option κ) Resp Exc Unit}
    (hr : Reach (exec h) InsertedUncut (Config.start db (tokenPool h drop calls)) c) :
    Covered pid c.store := by
  have hstart : TokenInv pid calls (Config.start db (tokenPool h drop calls)) :=
    ⟨hcovered, fun f hf => by simp at hf, fun q hq => by simp at hq, fun k hk => by simp at hk⟩
  refine (hr.invariant (tokenProtocol pid calls) (fun _ => {}) (TokenInv pid calls) (fun i => ?_)
    hstart (fun c i e c' _ _ _ hs => ?_) fun c i e c' _ _ hinv hguard hs hallow => ?_).2.covered
  · cases i with
    | none => exact follows_dropTask h pid drop
    | some k => exact follows_createAppToken (calls k)
  · cases i with
    | none =>
      rintro id p rfl
      exact KeyedStore.key_of_get hs.resp
    | some k => trivial
  · cases i with
    | none => exact hinv.step_drop hs hallow
    | some k => exact hinv.step_create hguard hs hallow

/-! ## A removal and two tokens at once -/

/-- The other member of the project. -/
def leaverId : Id := "65f0000000000000000000a2"

/-- The admin and the other member each create an app token. -/
def tokenCalls : Bool → TokenCall
  | false => ⟨⟨"mine", labProject.id, .finite 3600⟩, labAdmin.id, labGenerated⟩
  | true => ⟨⟨"mine", labProject.id, .finite 3600⟩, leaverId,
      { labGenerated with id := "65f0000000000000000000e3", token := "other" }⟩

/-- The calls at their start, with the removal of the other member. -/
def tokenStart : Config (Db ProjectDocuments) (Option Bool) Resp Exc Unit :=
  Config.start (labDb .mongodb labDocuments)
    (tokenPool labHost (.removeMember labProject.id leaverId labAdmin) tokenCalls)

/-- The other member's token is inserted before the removal deletes tokens, the admin's after. -/
def insertedBefore : List (Option Bool) :=
  [some true, some true, some false, none, none, some false, none, none]

/-- The other member's token is inserted after the removal has deleted tokens. -/
def insertedBetween : List (Option Bool) :=
  [some true, none, none, some true, none, none, some false, some false]

/-- The theorem at an interleaving with two tokens: the admin's is left. -/
theorem covered_of_insertedUncut_lab :
    Covered labProject.id (tokenStart.schedule (exec labHost) insertedBefore).store ∧
    (tokenStart.schedule (exec labHost) insertedBefore).store.appTokens.rows.map (·.userId) =
      [labAdmin.id] :=
  ⟨covered_of_insertedUncut labHost (.removeMember labProject.id leaverId labAdmin) tokenCalls
    (by decide +kernel) (reach_schedule_of_obeys (by decide +kernel)), by decide +kernel⟩

/-- **A token inserted between the deletion of tokens and the write outlives the membership**, and
acts for its user again once they are added back. -/
theorem token_outlives_membership :
    Covered labProject.id tokenStart.store ∧
    ∃ c, Reach (exec labHost) anyStep tokenStart c ∧ c.AllDone ∧ ¬ Covered labProject.id c.store ∧
      (∃ t ∈ c.store.appTokens.rows, t.projectId = labProject.id ∧ t.userId = leaverId) ∧
      IsMember ((addMember labProject.id leaverId).run (exec labHost) c.store).2
        labProject.id leaverId :=
  ⟨by decide +kernel, tokenStart.schedule (exec labHost) insertedBetween, reach_schedule _ _ _,
    by decide +kernel, by decide +kernel, by decide +kernel, by decide +kernel⟩

end Mss
