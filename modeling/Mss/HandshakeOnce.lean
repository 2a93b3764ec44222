import Mathlib.Algebra.Order.Floor.Ring
import Mathlib.Data.Fintype.Prod
import Mathlib.Data.Rat.Floor
import Mathlib.Tactic.Linarith
import Mss.Services.Handshakes

/-!
# No handshake is accepted twice

Handshakes, sweeps and the clock of all processes go on in any order, one operation at a time. A
nonce may be swept `ttl` after it was claimed; its timestamp is fresh up to and with the instant
`ttl` after it. The two may have an instant in common, and the age is checked before the nonce is
claimed. A handshake is accepted once when every later attempt to claim its nonce comes before the
claim expires.

* `Task`, `Accepted`: the calls, and the handshakes that were accepted.
* `ReclaimsInTime`: the condition, as a guard on each step.
* **`accepted_once_of_reclaimsInTime`**: in every interleaving whose steps meet the condition.
* `reclaimsInTime_of_fresh`: what the check of the age ensures of it.
* `accepted_twice`: at an instant in common; `accepted_after_check`: long after the check.
-/

namespace Mss.Handshake

open Atomic Storage Prog

/-! ## The calls -/

/-- **The calls that run at once**: handshakes, sweeps, and time passing. -/
inductive Task
  | handshake (ws : WebSocket)
  | sweep
  | passTime (micros : ℕ)

variable (h : Host) (settings : Settings)

/-- The program of a call. -/
def Task.service : Task → Service Unit
  | .handshake ws => do
    let _ ← getVerifiedDeviceName h settings ws
  | .sweep => deleteExpiredRecords
  | .passTime micros => call (.passTime micros)

/-- The headers of a handshake. -/
def Task.headers : Task → Option SignedHeaders
  | .handshake ws => (readSignedHeaders ws).toOption
  | _ => none

/-- The name, nonce and timestamp that a handshake's signature is of. -/
def SignedHeaders.signed (headers : SignedHeaders) : String × String × String :=
  (headers.name, headers.nonce, headers.timestamp)

/-- What a call presents as signed. -/
def Task.signed (task : Task) : Option (String × String × String) :=
  task.headers.map SignedHeaders.signed

/-- Whether a program has returned. -/
def hasReturned : Service Unit → Bool
  | .ret _ => true
  | _ => false

variable {ι : Type} [DecidableEq ι]

/-- **The handshake of the call was accepted**, with what is signed. -/
def Accepted (tasks : ι → Task) (signed : String × String × String)
    (c : Config World ι Resp Exc Unit) (i : ι) : Prop :=
  (tasks i).signed = some signed ∧ hasReturned (c.pool i) = true

instance (tasks : ι → Task) (signed : String × String × String)
    (c : Config World ι Resp Exc Unit) (i : ι) : Decidable (Accepted tasks signed c i) :=
  inferInstanceAs (Decidable (_ ∧ _))

/-! ## The condition -/

/-- The nonce that an event claimed. -/
def claimOf : Event Resp → Option BccNonce
  | ⟨.insertNonce r, .ok _⟩ => some r
  | _ => none

/-- Whether an event tried to claim a nonce. -/
def isAttempt : Event Resp → Bool
  | ⟨.insertNonce _, _⟩ => true
  | _ => false

/-- The nonces that a call has claimed. -/
def claims (c : Config World ι Resp Exc Unit) (i : ι) : List BccNonce :=
  (c.mine i).filterMap claimOf

/-- The instant at which the nonce may be swept: its expiry, as the database keeps it. -/
def expiry (b : Backend) (r : BccNonce) : ℤ := (r.stored b).expiresAt.utcMicros

/-- **The condition**: a step that tries to claim a nonce comes before the expiry of every claim of
it by another call with the same headers signed. -/
def ReclaimsInTime (tasks : ι → Task) (c : Config World ι Resp Exc Unit) (i : ι)
    (e : Event Resp) : Prop :=
  isAttempt e = true → ∀ j, j ≠ i → (tasks j).signed = (tasks i).signed →
    ∀ r ∈ claims c j, c.store.now < expiry c.store.backend r

instance [Fintype ι] (tasks : ι → Task) (c : Config World ι Resp Exc Unit) (i : ι)
    (e : Event Resp) : Decidable (ReclaimsInTime tasks c i e) :=
  inferInstanceAs (Decidable (_ → ∀ j, j ≠ i → _ → ∀ r ∈ claims c j, _))

/-! ## The protocol of a call -/

/-- Where a call is: the clock it read first and second, and whether it has claimed a nonce. -/
structure Phase where
  readAt : Option ℤ := none
  claimAt : Option ℤ := none
  claimed : Bool := false

/-- The record is the claim of a handshake that was fresh when the clock was first read. -/
structure ClaimOf (headers : SignedHeaders) (m : Phase) (r : BccNonce) : Prop where
  nonce : r.nonce = headers.nonce
  fresh : ∃ c timestamp, m.readAt = some c ∧ h.float headers.timestamp = .ok timestamp ∧
    checkNonceAge h timestamp ((c : ℚ) / 1000000) settings.bccNonceTtl = .ok () ∧
    ∃ k, m.claimAt = some k ∧ c ≤ k ∧
      r.expiresAt = ⟨k + microsOf settings.bccNonceTtl, some 0⟩

/-- **What a call does**: a handshake claims its nonce once, after it was found fresh, and is
accepted only then; a sweep deletes what has expired by the clock it read. -/
def protocol (task : Task) : Protocol Resp Exc Unit Phase where
  next m e := match e with
    | ⟨.readClock, now⟩ =>
      if m.readAt = none then { m with readAt := some now } else { m with claimAt := some now }
    | ⟨.insertNonce _, .ok _⟩ => { m with claimed := true }
    | _ => m
  assumes m e := match e with
    | ⟨.readClock, now⟩ => ∀ c ∈ m.readAt, c ≤ now
    | _ => True
  allows m e := match e.1 with
    | .insertNonce r => ∃ headers ∈ task.headers, ClaimOf h settings headers m r
    | .deleteExpired now => m.readAt = some now
    | _ => True
  ends m res := match res with
    | .ok _ => task.headers ≠ none → m.claimed = true
    | .error _ => True

variable {h settings}

theorem follows_handshake (ws : WebSocket) :
    Follows (protocol h settings (.handshake ws)) {} (do
      let _ ← getVerifiedDeviceName h settings ws) := by
  refine follows_bind ?_
  unfold getVerifiedDeviceName
  refine follows_tryCatch_of_raises ?_ (fun e => ?_) fun _ _ _ _ => trivial
  · refine follows_ofExcept_bind (fun _ => trivial) fun headers hheaders => ?_
    refine follows_ofExcept_bind (fun _ => trivial) fun conf _ => ?_
    refine follows_ofExcept_bind (fun _ => trivial) fun _ _ => ?_
    refine follows_ofExcept_bind (fun _ => trivial) fun _ _ => ?_
    refine follows_ofExcept_bind (fun _ => trivial) fun timestamp hfloat => ?_
    refine follows_perform_bind.mpr fun now _ => ⟨trivial, ?_⟩
    refine follows_ofExcept_bind (fun _ => trivial) fun _ hage => ?_
    unfold checkNonceUnused claimBccNonce
    simp only [bind_assoc]
    refine follows_perform_bind.mpr fun claimNow hclaim => ⟨trivial, ?_⟩
    refine follows_perform_bind.mpr fun r _ => ⟨?_, ?_⟩
    · have htask : (Task.handshake ws).headers = some headers := by
        simp [Task.headers, hheaders, Except.toOption]
      exact ⟨headers, htask, rfl, now, timestamp, rfl, hfloat, hage, claimNow, rfl,
        hclaim now rfl, rfl⟩
    · cases r with
      | ok _ => exact fun _ => rfl
      | error e => cases e <;> trivial
  · by_cases hrefused : e.isRefused = true
    · exact ⟨_, if_pos hrefused⟩
    · exact ⟨_, if_neg hrefused⟩

theorem follows_task (task : Task) :
    Follows (protocol h settings task) {} (task.service h settings) := by
  cases task with
  | handshake ws => exact follows_handshake ws
  | sweep =>
    refine follows_perform_bind.mpr fun now _ => ⟨trivial, fun _ _ => ⟨rfl, fun hne => ?_⟩⟩
    exact (hne rfl).elim
  | passTime micros => exact fun _ _ => ⟨trivial, fun hne => (hne rfl).elim⟩

/-! ## The operations -/

section Ops

variable {o : Op} {w : World}

@[simp] theorem exec_backend : (exec o w).2.backend = w.backend := by
  cases o with
  | insertNonce r =>
    unfold exec
    dsimp only
    split <;> rfl
  | _ => rfl

theorem le_exec_now : w.now ≤ (exec o w).2.now := by
  cases o with
  | insertNonce r =>
    unfold exec
    dsimp only
    split <;> exact le_rfl
  | passTime micros =>
    change w.now ≤ w.now + micros
    omega
  | _ => exact le_rfl

theorem exec_claim {r : BccNonce} {e : Event Resp} (hresp : (exec e.1 w).1 = e.2)
    (hclaim : claimOf e = some r) : w.nonces.get r.nonce = none ∧
      (exec e.1 w).2.nonces.get r.nonce = some (r.stored w.backend) := by
  rcases e with ⟨o, res⟩
  cases o with
  | insertNonce q =>
    cases res with
    | error _ => cases hclaim
    | ok _ =>
      cases hclaim
      cases hinsert : w.nonces.insert? (fun _ _ => False) (r.stored w.backend) with
      | none => simp [exec, hinsert] at hresp
      | some nonces =>
        have hfree : w.nonces.get (r.stored w.backend).nonce = none :=
          Table.get_of_insert? hinsert
        refine ⟨hfree, ?_⟩
        simp only [exec, hinsert]
        exact (Table.get_insert? hinsert _).trans (if_pos rfl)
  | _ => cases hclaim

theorem exec_kept {nonce : String} {r : BccNonce} (hkept : w.nonces.get nonce = some r) :
    (exec o w).2.nonces.get nonce = some r ∨
      ∃ now, o = .deleteExpired now ∧ r.expiresAt.utcMicros ≤ now := by
  cases o with
  | readClock => exact .inl hkept
  | passTime micros => exact .inl hkept
  | insertNonce q =>
    left
    unfold exec
    dsimp only
    split
    · next nonces hinsert =>
      rw [Table.get_insert? hinsert]
      split_ifs with hnonce
      · rw [hnonce, Table.get_of_insert? hinsert] at hkept
        cases hkept
      · exact hkept
    · exact hkept
  | deleteExpired now =>
    by_cases hexpired : r.expiresAt.utcMicros ≤ now
    · exact .inr ⟨now, rfl, hexpired⟩
    · left
      change (w.nonces.eraseWhere _).get nonce = _
      rw [Table.get_eraseWhere, hkept]
      simp [Option.filter, hexpired]

end Ops

/-! ## Claims in an interleaving -/

variable {c c' : Config World ι Resp Exc Unit} {i : ι} {e : Event Resp}

theorem claims_self (hs : StepBy exec i e c c') :
    claims c' i = claims c i ++ (claimOf e).toList := by
  rw [claims, claims, hs.mine_self, List.filterMap_append]
  cases hclaim : claimOf e <;> simp [hclaim]

theorem claims_ne (hs : StepBy exec i e c c') {j : ι} (hj : j ≠ i) :
    claims c' j = claims c j := by
  rw [claims, claims, hs.mine_ne hj]

theorem mem_claims_step (hs : StepBy exec i e c c') {j : ι} {r : BccNonce}
    (hr : r ∈ claims c' j) : r ∈ claims c j ∨ (j = i ∧ claimOf e = some r) := by
  by_cases hj : j = i
  · subst hj
    rw [claims_self hs, List.mem_append] at hr
    rcases hr with hr | hr
    · exact .inl hr
    · exact .inr ⟨rfl, by simpa using hr⟩
  · rw [claims_ne hs hj] at hr
    exact .inl hr

variable (h settings) in
/-- **What holds of the claims in every interleaving**: no clock read is ahead, a claimed nonce is
kept until the clock reaches its expiry, it is a handshake's that was fresh, and its call knows. -/
structure ClaimsKept (tasks : ι → Task) (c : Config World ι Resp Exc Unit) : Prop where
  clock : ∀ i, ∀ now ∈ (c.phase (fun i => protocol h settings (tasks i)) (fun _ => {}) i).readAt,
    now ≤ c.store.now
  kept : ∀ i, ∀ r ∈ claims c i,
    c.store.nonces.get r.nonce = some (r.stored c.store.backend) ∨
      expiry c.store.backend r ≤ c.store.now
  ofTask : ∀ i, ∀ r ∈ claims c i, ∃ headers ∈ (tasks i).headers, ∃ m,
    ClaimOf h settings headers m r
  recorded : ∀ i, (c.phase (fun i => protocol h settings (tasks i)) (fun _ => {}) i).claimed = true →
    claims c i ≠ []

variable {tasks : ι → Task}

theorem protocol_readAt_le {task : Task} {m : Phase} {w : World}
    (hresp : (exec e.1 w).1 = e.2) (hm : ∀ now ∈ m.readAt, now ≤ w.now) :
    ∀ now ∈ ((protocol h settings task).next m e).readAt, now ≤ (exec e.1 w).2.now := by
  have hkeep : ∀ now ∈ m.readAt, now ≤ (exec e.1 w).2.now := by
    intro now hnow
    exact (hm now hnow).trans le_exec_now
  rcases e with ⟨o, res⟩
  cases o with
  | readClock =>
    intro now hnow
    cases hresp
    by_cases hread : m.readAt = none
    · simp only [protocol, if_pos hread, Option.mem_some_iff] at hnow
      exact hnow ▸ le_rfl
    · simp only [protocol, if_neg hread] at hnow
      exact hkeep now hnow
  | insertNonce r => cases res <;> exact hkeep
  | deleteExpired now => exact hkeep
  | passTime micros => exact hkeep

theorem protocol_claimed {task : Task} {m : Phase} :
    ((protocol h settings task).next m e).claimed = (m.claimed || (claimOf e).isSome) := by
  rcases e with ⟨o, res⟩
  cases o with
  | readClock =>
    simp only [protocol, claimOf]
    split_ifs <;> simp
  | insertNonce r => cases res <;> simp [protocol, claimOf]
  | _ => simp [protocol, claimOf]

theorem ClaimsKept.step (hk : ClaimsKept h settings tasks c) (hs : StepBy exec i e c c')
    (hallow : (protocol h settings (tasks i)).allows
      (c.phase (fun i => protocol h settings (tasks i)) (fun _ => {}) i) e) :
    ClaimsKept h settings tasks c' where
  clock j := by
    by_cases hj : j = i
    · subst hj
      rw [hs.phase_self, hs.store]
      exact protocol_readAt_le hs.resp (hk.clock j)
    · rw [hs.phase_ne _ _ hj, hs.store]
      intro now hnow
      exact (hk.clock j now hnow).trans le_exec_now
  kept j r hr := by
    rw [hs.store, exec_backend]
    rcases mem_claims_step hs hr with hr | ⟨rfl, hclaim⟩
    · rcases hk.kept j r hr with hkept | hexpired
      · rcases exec_kept (o := e.1) hkept with hkept | ⟨now, ho, hexpired⟩
        · exact .inl hkept
        · right
          rcases e with ⟨o, res⟩
          cases ho
          have hread : now ≤ c.store.now := hk.clock i now hallow
          exact hexpired.trans (hread.trans le_exec_now)
      · exact .inr (hexpired.trans le_exec_now)
    · exact .inl (exec_claim hs.resp hclaim).2
  ofTask j r hr := by
    rcases mem_claims_step hs hr with hr | ⟨rfl, hclaim⟩
    · exact hk.ofTask j r hr
    · rcases e with ⟨o, res⟩
      cases o with
      | insertNonce q =>
        cases res with
        | error _ => cases hclaim
        | ok _ =>
          cases hclaim
          rcases hallow with ⟨headers, hheaders, hof⟩
          exact ⟨headers, hheaders, _, hof⟩
      | _ => cases hclaim
  recorded j hclaimed := by
    by_cases hj : j = i
    · subst hj
      rw [hs.phase_self, protocol_claimed, Bool.or_eq_true] at hclaimed
      rw [claims_self hs]
      rcases hclaimed with hclaimed | hclaim
      · exact List.append_ne_nil_of_left_ne_nil (hk.recorded j hclaimed) _
      · rcases Option.isSome_iff_exists.mp hclaim with ⟨r, hr⟩
        simp [hr]
    · rw [hs.phase_ne _ _ hj] at hclaimed
      rw [claims_ne hs hj]
      exact hk.recorded j hclaimed

theorem ClaimsKept.start (w : World) (pool : ι → Service Unit) :
    ClaimsKept h settings tasks (Config.start w pool) where
  clock _ _ hnow := by simp at hnow
  kept _ _ hr := by simp [claims] at hr
  ofTask _ _ hr := by simp [claims] at hr
  recorded _ hclaimed := by simp at hclaimed

theorem assumes_of_claimsKept (hk : ClaimsKept h settings tasks c) (hs : StepBy exec i e c c') :
    (protocol h settings (tasks i)).assumes
      (c.phase (fun i => protocol h settings (tasks i)) (fun _ => {}) i) e := by
  rcases e with ⟨o, res⟩
  cases o with
  | readClock =>
    intro now hnow
    exact (hk.clock i now hnow).trans (le_of_eq hs.resp)
  | _ => trivial

theorem claimsKept_of_reach {guard : Config World ι Resp Exc Unit → ι → Event Resp → Prop}
    {w : World}
    (hr : Reach exec guard (Config.start w fun i => (tasks i).service h settings) c) :
    Following (fun i => protocol h settings (tasks i)) (fun _ => {}) c ∧
      ClaimsKept h settings tasks c := by
  refine hr.invariant _ _ (ClaimsKept h settings tasks) (fun i => follows_task (tasks i))
    (ClaimsKept.start w _) ?_ ?_
  · exact fun _ _ _ _ _ hk _ hs => assumes_of_claimsKept hk hs
  · exact fun _ _ _ _ _ _ hk _ hs hallow => hk.step hs hallow

theorem ClaimsKept.claims_ne_nil {signed : String × String × String}
    (hk : ClaimsKept h settings tasks c)
    (hf : Following (fun i => protocol h settings (tasks i)) (fun _ => {}) c)
    (hacc : Accepted tasks signed c i) : claims c i ≠ [] := by
  rcases hacc with ⟨hsigned, hret⟩
  have hheaders : (tasks i).headers ≠ none := by
    intro hnone
    simp [Task.signed, hnone] at hsigned
  have hfi := hf i
  cases hp : c.pool i with
  | ret a =>
    rw [hp] at hfi
    exact hk.recorded i (hfi hheaders)
  | raise err => simp [hp, hasReturned] at hret
  | call o k => simp [hp, hasReturned] at hret

/-! ## The theorem -/

/-- Two calls with the same headers signed that have both claimed a nonce are one. -/
def OneClaims (tasks : ι → Task) (c : Config World ι Resp Exc Unit) : Prop :=
  ∀ i j, (tasks i).signed = (tasks j).signed → claims c i ≠ [] → claims c j ≠ [] → i = j

/-- **One step in time keeps the claims of one call**: a nonce claimed before is still kept, so the
claim of another call fails. -/
theorem OneClaims.step (hone : OneClaims tasks c) (hk : ClaimsKept h settings tasks c)
    (hk' : ClaimsKept h settings tasks c') (hguard : ReclaimsInTime tasks c i e)
    (hs : StepBy exec i e c c') : OneClaims tasks c' := by
  have hnew : ∀ r, claimOf e = some r → ∀ j, j ≠ i → (tasks j).signed = (tasks i).signed →
      claims c j = [] := by
    intro r hclaim j hj hsigned
    by_contra hne
    rcases List.exists_mem_of_ne_nil _ hne with ⟨q, hq⟩
    have hnonce : q.nonce = r.nonce := by
      have hr : r ∈ claims c' i := by simp [claims_self hs, hclaim]
      have hq' : q ∈ claims c' j := by rwa [claims_ne hs hj]
      rcases hk'.ofTask i r hr with ⟨hi, hhi, _, hofi⟩
      rcases hk'.ofTask j q hq' with ⟨hj, hhj, _, hofj⟩
      have hsigned' : hj.signed = hi.signed := by
        simpa [Task.signed, Option.mem_def.mp hhi, Option.mem_def.mp hhj] using hsigned
      rw [hofi.nonce, hofj.nonce]
      exact congrArg (·.2.1) hsigned'
    have hattempt : isAttempt e = true := by
      rcases e with ⟨o, res⟩
      cases o with
      | insertNonce _ => rfl
      | _ => cases hclaim
    have hfree := (exec_claim hs.resp hclaim).1
    rcases hk.kept j q hq with hkept | hexpired
    · rw [hnonce, hfree] at hkept
      cases hkept
    · exact absurd (hguard hattempt j hj hsigned q hq) (not_lt.mpr hexpired)
  intro a b hsigned ha hb
  cases hclaim : claimOf e with
  | none =>
    have hsame : ∀ j, claims c' j = claims c j := by
      intro j
      by_cases hj : j = i
      · subst hj
        simp [claims_self hs, hclaim]
      · exact claims_ne hs hj
    rw [hsame] at ha hb
    exact hone a b hsigned ha hb
  | some r =>
    by_cases hai : a = i
    · subst hai
      by_contra hab
      rw [claims_ne hs (Ne.symm hab)] at hb
      exact hb (hnew r hclaim b (Ne.symm hab) hsigned.symm)
    · rw [claims_ne hs hai] at ha
      by_cases hbi : b = i
      · subst hbi
        exact (ha (hnew r hclaim a hai hsigned)).elim
      · rw [claims_ne hs hbi] at hb
        exact hone a b hsigned ha hb

variable (h settings) in
/-- **No handshake is accepted twice** in an interleaving whose attempts to claim a nonce again come
before the claim's expiry. -/
theorem accepted_once_of_reclaimsInTime (tasks : ι → Task) (w : World)
    {c : Config World ι Resp Exc Unit}
    (hr : Reach exec (ReclaimsInTime tasks)
      (Config.start w fun i => (tasks i).service h settings) c)
    {signed : String × String × String} {i j : ι} (hi : Accepted tasks signed c i)
    (hj : Accepted tasks signed c j) : i = j := by
  have hinv := hr.invariant (fun i => protocol h settings (tasks i)) (fun _ => {})
    (fun c => ClaimsKept h settings tasks c ∧ OneClaims tasks c) (fun i => follows_task (tasks i))
    ⟨ClaimsKept.start w _, fun _ _ _ hi _ => (hi (by simp [claims])).elim⟩
    (fun c i e c' _ hinv _ hs => assumes_of_claimsKept hinv.1 hs)
    (fun c i e c' _ _ hinv hguard hs hallow =>
      ⟨hinv.1.step hs hallow, hinv.2.step hinv.1 (hinv.1.step hs hallow) hguard hs⟩)
  rcases hinv with ⟨hf, hk, hone⟩
  exact hone i j (hi.1.trans hj.1.symm) (hk.claims_ne_nil hf hi) (hk.claims_ne_nil hf hj)

/-! ## What the check of the age ensures -/

/-- The instant, in microseconds, that the database keeps of one. -/
def keptInstant (b : Backend) (micros : ℤ) : ℤ := (DateTime.stored b ⟨micros, some 0⟩).utcMicros

theorem keptInstant_mono (b : Backend) {x y : ℤ} (hxy : x ≤ y) :
    keptInstant b x ≤ keptInstant b y := by
  cases b with
  | sql => simpa [keptInstant, DateTime.stored, DateTime.utcMicros] using hxy
  | mongodb =>
    simp only [keptInstant, DateTime.stored, DateTime.utcMicros, Option.getD_some]
    omega

theorem ClaimOf.le_expiry {headers : SignedHeaders} {m : Phase} {r : BccNonce}
    (hof : ClaimOf h settings headers m r) {τ : ℚ}
    (hfloat : h.float headers.timestamp = .ok (.finite τ)) (b : Backend) :
    keptInstant b (⌈τ * 1000000⌉ + microsOf settings.bccNonceTtl) ≤ expiry b r := by
  rcases hof.fresh with ⟨c, timestamp, -, htimestamp, hage, k, -, hck, hexpires⟩
  have hfinite : timestamp = .finite τ := by
    rw [hfloat] at htimestamp
    cases htimestamp
    rfl
  have hpast : τ ≤ (c : ℚ) / 1000000 := by
    subst hfinite
    by_contra hlt
    have hneg : (c : ℚ) / 1000000 - τ < 0 := by linarith
    simp only [checkNonceAge, Number.subFrom, Number.isNegative, hneg, decide_true,
      if_true] at hage
    split_ifs at hage
  have hceil : ⌈τ * 1000000⌉ ≤ k := by
    refine (Int.ceil_le.mpr ?_).trans hck
    linarith
  rw [expiry, BccNonce.stored, hexpires]
  exact keptInstant_mono b (by omega)

/-- **An attempt in the first `ttl` after the timestamp comes in time**, `ttl` after it being
reckoned as the database keeps it. -/
theorem reclaimsInTime_of_fresh {guard : Config World ι Resp Exc Unit → ι → Event Resp → Prop}
    {w : World}
    (hr : Reach exec guard (Config.start w fun i => (tasks i).service h settings) c) {τ : ℚ}
    (hfloat : ∀ headers ∈ (tasks i).headers, h.float headers.timestamp = .ok (.finite τ))
    (hfresh : c.store.now <
      keptInstant c.store.backend (⌈τ * 1000000⌉ + microsOf settings.bccNonceTtl)) :
    ReclaimsInTime tasks c i e := by
  intro _ j _ hsigned r hrj
  rcases (claimsKept_of_reach hr).2.ofTask j r hrj with ⟨headers, hheaders, _, hof⟩
  have hsame : ∃ headers' ∈ (tasks i).headers, headers'.signed = headers.signed := by
    rw [Task.signed, Task.signed, Option.mem_def.mp hheaders, Option.map_some,
      Eq.comm, Option.map_eq_some_iff] at hsigned
    exact hsigned
  rcases hsame with ⟨headers', hheaders', hsigned'⟩
  have htimestamp : headers'.timestamp = headers.timestamp := congrArg (·.2.2) hsigned'
  refine hfresh.trans_le (hof.le_expiry ?_ _)
  rw [← htimestamp]
  exact hfloat headers' hheaders'

/-! ## One handshake presented twice -/

/-- A host that reads whole seconds, and verifies one signature. -/
def bccHost : Host where
  float s := if s = "1000" then .ok (.finite 1000) else .error (.valueError s)
  str
    | .finite q => toString q.num
    | _ => "nan"
  getHostByName _ := .ok "127.0.0.1"
  verify signature message keyPath :=
    if signature = keyPath ++ ":" ++ message then .ok () else .error .invalidSignature

/-- The settings with one backend. -/
def bccSettings : Settings where
  backends := [{ name := "loke", urlHost := "loke", publicKeyPath := "loke.pem" }]

/-- The handshake of the backend, signed at 1000 seconds. -/
def bccWebSocket : WebSocket where
  headers := [("x-id", "loke"), ("x-request-id", "n1"), ("x-timestamp", "1000"),
    ("x-signature", "loke.pem:loke-n1-1000")]
  clientHost := some "loke"

/-- What the handshake's signature is of. -/
def bccSigned : String × String × String := ("loke", "n1", "1000")

/-- The handshake presented twice, a sweep, and some seconds passing. -/
def bccTasks (seconds : ℕ) : Bool × Bool → Task
  | (true, _) => .handshake bccWebSocket
  | (false, true) => .sweep
  | (false, false) => .passTime (seconds * 1000000)

/-- The calls at their start, at 1000 seconds. -/
def bccStart (seconds : ℕ) : Config World (Bool × Bool) Resp Exc Unit :=
  Config.start ⟨.sql, 1000000000, .empty⟩ fun i => (bccTasks seconds i).service bccHost bccSettings

/-- Time passes and a sweep runs between the two handshakes. -/
def sweptBetween : List (Bool × Bool) :=
  [(true, true), (true, true), (true, true), (false, false), (false, true), (false, true),
    (true, false), (true, false), (true, false)]

/-- The same, but the second handshake's age is checked before. -/
def checkedBefore : List (Bool × Bool) :=
  [(true, false), (true, true), (true, true), (true, true), (false, false), (false, true),
    (false, true), (true, false), (true, false)]

/-- The theorem at 200 seconds: only the first handshake is accepted. -/
theorem accepted_once_of_reclaimsInTime_bcc :
    Accepted (bccTasks 200) bccSigned ((bccStart 200).schedule exec sweptBetween) (true, true) ∧
    ((bccStart 200).schedule exec sweptBetween).AllDone ∧
    ∀ i, Accepted (bccTasks 200) bccSigned ((bccStart 200).schedule exec sweptBetween) i →
      i = (true, true) := by
  have hfirst : Accepted (bccTasks 200) bccSigned ((bccStart 200).schedule exec sweptBetween)
      (true, true) := by decide +kernel
  exact ⟨hfirst, by decide +kernel, fun i hi => accepted_once_of_reclaimsInTime bccHost bccSettings
    (bccTasks 200) _ (reach_schedule_of_obeys (by decide +kernel)) hi hfirst⟩

/-- **A handshake is accepted twice** where the instant its nonce is swept at is the last one its
timestamp is fresh at: at 1000 seconds and at 1300. -/
theorem accepted_twice :
    ∃ c, Reach exec anyStep (bccStart 300) c ∧
      Accepted (bccTasks 300) bccSigned c (true, true) ∧
      Accepted (bccTasks 300) bccSigned c (true, false) :=
  ⟨(bccStart 300).schedule exec sweptBetween, reach_schedule _ _ _, by decide +kernel,
    by decide +kernel⟩

/-- **A handshake is accepted twice**, an hour apart, where the second time its age was checked long
before its nonce was claimed. -/
theorem accepted_after_check :
    ∃ c, Reach exec anyStep (bccStart 3600) c ∧
      Accepted (bccTasks 3600) bccSigned c (true, true) ∧
      Accepted (bccTasks 3600) bccSigned c (true, false) :=
  ⟨(bccStart 3600).schedule exec checkedBefore, reach_schedule _ _ _, by decide +kernel,
    by decide +kernel⟩

end Mss.Handshake
