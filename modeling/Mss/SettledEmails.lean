import Mathlib.Data.Fintype.Option
import Mss.EmailClaims

/-!
# What becomes of claimed emails

A claim compares the number of attempts only, not the status; a result is recorded whatever
happened since the claim; and the limit of attempts is looked at only for a result.

* `RecordsInTime`, **`sent_stays_sent`**: a settled email stays settled if no claim is found stale
  before its result is recorded. `sent_claimed_again`: else it may be claimed again.
* `RetriesInLimit`, **`attempts_le_limit`**: the attempts are bounded if no stale or late claim
  goes past the limit. `claimed_past_limit`: else they are not.
-/

namespace Mss.Emails

open Atomic Storage Prog

variable {h : Host} {conf : NoticesConfig} {ι : Type} [DecidableEq ι] {tasks : ι → Task}
  {c c' : Config World ι Resp Exc Unit} {i : ι} {e : Event Resp} {id : Id}

/-! ## A settled email stays settled -/

/-- **The condition**: a result is recorded before any call finds the notice at the attempts of the
claim, which a call could only do as the claim is stale. -/
def RecordsInTime (c : Config World ι Resp Exc Unit) (i : ι) (e : Event Resp) : Prop :=
  ∀ id ∈ recordedBy e, ∀ v ∈ claimed (c.mine i), v.id = id →
    ∀ j, ∀ u ∈ found (c.mine j), u.id = id → u.emailAttempts < v.emailAttempts

instance [Fintype ι] (c : Config World ι Resp Exc Unit) (i : ι) (e : Event Resp) :
    Decidable (RecordsInTime c i e) :=
  inferInstanceAs (Decidable (∀ id ∈ recordedBy e, ∀ v ∈ claimed (c.mine i), v.id = id →
    ∀ j, ∀ u ∈ found (c.mine j), _ → _))

theorem Counted.last_of_unfound {base : ℕ} (hc : Counted id base c) {v : Notice}
    (hv : v ∈ claimed (c.mine i)) (hid : v.id = id)
    (hunfound : ∀ j, ∀ u ∈ found (c.mine j), u.id = id → u.emailAttempts < v.emailAttempts)
    {n : Notice} (hn : c.store.notices.get id = some n) : v.emailAttempts = n.emailAttempts := by
  have hmem : (i, v) ∈ claims id c := mem_claims.mpr ⟨hv, hid⟩
  have hrange : v.emailAttempts ∈ List.range' (base + 1) (claims id c).length := by
    rw [← hc.numbered]
    exact List.mem_map_of_mem (f := fun x : ι × Notice => x.2.emailAttempts) hmem
  have hstored := hc.stored n hn
  rw [List.mem_range'_1] at hrange
  by_contra hne
  have hnext : v.emailAttempts + 1 ∈ (claims id c).map (·.2.emailAttempts) := by
    rw [hc.numbered, List.mem_range'_1]
    omega
  rcases List.mem_map.mp hnext with ⟨x, hx, hxv⟩
  rcases hc.fromFound x hx with ⟨j, u, hu, huid, hux⟩
  have hlt := hunfound j u hu huid
  omega

theorem Counted.eq_of_attempts {base : ℕ} (hc : Counted id base c) {x y : ι × Notice}
    (hx : x ∈ claims id c) (hy : y ∈ claims id c)
    (hxy : x.2.emailAttempts = y.2.emailAttempts) : x = y := by
  have hnodup : ((claims id c).map (·.2.emailAttempts)).Nodup := by
    rw [hc.numbered]
    exact List.nodup_range'
  exact List.inj_on_of_nodup_map hnodup hx hy hxy

/-- **A settled email is past all that was found**, and the call that claimed it last has recorded
its result. -/
structure Settled (id : Id) (c : Config World ι Resp Exc Unit) (n : Notice) : Prop where
  unfound : ∀ j, ∀ u ∈ found (c.mine j), u.id = id → u.emailAttempts < n.emailAttempts
  recorded : ∀ x ∈ claims id c, x.2.emailAttempts = n.emailAttempts →
    id ∈ recorded (c.mine x.1)

/-- The email of the notice of an id, if it is sent, is settled. -/
def SettledIfSent (id : Id) (c : Config World ι Resp Exc Unit) : Prop :=
  ∀ n, c.store.notices.get id = some n → n.emailStatus = .sent → Settled id c n

theorem Settled.step {base : ℕ} {n : Notice} (hset : Settled id c n) (hc : Counted id base c)
    (hn : c.store.notices.get id = some n) (hguard : RecordsInTime c i e)
    (hs : StepBy exec i e c c') (hallow : (protocol conf).allows (c.mine i) e) :
    claimOf id e = none ∧
      (c'.store.notices.get id = some n ∨ c'.store.notices.get id = none) := by
  have hstep := exec_notice hs.resp id
  rw [← hs.store, hn] at hstep
  generalize hafter : c'.store.notices.get id = after at hstep ⊢
  cases hstep with
  | same hclaim => exact ⟨hclaim, .inl rfl⟩
  | gone hclaim => exact ⟨hclaim, .inr rfl⟩
  | claimed _ updatedAt =>
    rcases hallow with ⟨u, hu, hid, hattempts⟩
    have hlt := hset.unfound i u hu hid
    omega
  | recorded status updatedAt _ hid =>
    rcases hallow id hid with ⟨hunrecorded, v, hv, hvid, -⟩
    have hlast := hc.last_of_unfound hv hvid (hguard id hid v hv hvid) hn
    exact absurd (hset.recorded (i, v) (mem_claims.mpr ⟨hv, hvid⟩) hlast) hunrecorded

theorem Settled.of_same {n : Notice} (hset : Settled id c n)
    (hn : c.store.notices.get id = some n) (hsent : n.emailStatus = .sent)
    (hclaim : claimOf id e = none) (hs : StepBy exec i e c c') : Settled id c' n where
  unfound j u hu hid := by
    rcases (mem_found_step hs).mp hu with hu | ⟨rfl, hu⟩
    · exact hset.unfound j u hu hid
    · -- what a step finds is stored, and its email is not sent
      have hfound := (exec_found hs.resp).2 u hu
      rw [hid, hn, Option.some.injEq] at hfound
      rcases hfound with ⟨rfl, hstatus⟩
      rw [hsent] at hstatus
      rcases hstatus with hstatus | hstatus <;> cases hstatus
  recorded x hx hattempts := by
    rw [claims_step_of_none hs hclaim] at hx
    exact recorded_subset hs (hset.recorded x hx hattempts)

theorem settled_of_recorded {base : ℕ} (hc : Counted id base c) {ids : List Id}
    {status : EmailStatus} {updatedAt : String}
    (hguard : RecordsInTime c i ⟨.setEmailStatus ids status updatedAt, ()⟩) (hid : id ∈ ids)
    (hs : StepBy exec i ⟨.setEmailStatus ids status updatedAt, ()⟩ c c')
    (hallow : (protocol conf).allows (c.mine i) ⟨.setEmailStatus ids status updatedAt, ()⟩)
    {n n' : Notice} (hn : c.store.notices.get id = some n)
    (hattempts : n'.emailAttempts = n.emailAttempts) : Settled id c' n' := by
  rcases hallow id hid with ⟨-, v, hv, hvid, -⟩
  have hunfound := hguard id hid v hv hvid
  have hlast := hc.last_of_unfound hv hvid hunfound hn
  refine ⟨fun j u hu huid => ?_, fun x hx hxn => ?_⟩
  · rcases (mem_found_step hs).mp hu with hu | ⟨-, hu⟩
    · rw [hattempts, ← hlast]
      exact hunfound j u hu huid
    · exact absurd hu List.not_mem_nil
  · rw [claims_step_of_none hs rfl] at hx
    have hsame : x = (i, v) := hc.eq_of_attempts hx (mem_claims.mpr ⟨hv, hvid⟩)
      (hxn.trans (hattempts.trans hlast.symm))
    rw [hsame, hs.mine_self, recorded_concat]
    exact List.mem_append_right _ hid

theorem SettledIfSent.step {base : ℕ} (hset : SettledIfSent id c) (hc : Counted id base c)
    (hguard : RecordsInTime c i e) (hs : StepBy exec i e c c')
    (hallow : (protocol conf).allows (c.mine i) e) : SettledIfSent id c' := by
  intro n' hn' hsent
  have hstep := exec_notice hs.resp id
  rw [← hs.store, hn'] at hstep
  generalize hbefore : c.store.notices.get id = before at hstep
  cases hstep with
  | same hclaim => exact (hset n' hbefore hsent).of_same hbefore hsent hclaim hs
  | claimed n updatedAt => cases hsent
  | recorded status updatedAt n hid => exact settled_of_recorded hc hguard hid hs hallow hbefore rfl

theorem SettledIfSent.start (w : World) (pool : ι → Service Unit) :
    SettledIfSent id (Config.start w pool) := fun _ _ _ =>
  ⟨fun _ _ hu => by simp [found] at hu, fun _ hx => by simp at hx⟩

theorem settledIfSent_of_reach {w : World}
    (hr : Reach exec RecordsInTime (start h conf tasks w) c) (id : Id) : SettledIfSent id c := by
  refine (hr.invariant (fun _ => protocol conf) (fun _ => [])
    (fun c => Counted id (((w.notices.get id).map (·.emailAttempts)).getD 0) c ∧
      SettledIfSent id c) (fun i => follows_task (tasks i))
    ⟨Counted.start id w _, SettledIfSent.start w _⟩ ?_ ?_).2.2
  · exact fun _ _ _ _ _ _ _ hs => assumes_of_stepBy hs
  · intro c i e c' _ _ hinv hguard hs hallow
    rw [phase_eq_mine] at hallow
    exact ⟨hinv.1.step hs hallow, hinv.2.step hinv.1 hguard hs hallow⟩

variable (h conf tasks) in
/-- **Once the email of a notice is sent it stays so**, and no claim of it succeeds any more, in an
interleaving whose results are recorded in time. -/
theorem sent_stays_sent {w : World} (hr : Reach exec RecordsInTime (start h conf tasks w) c)
    {n : Notice} (hn : c.store.notices.get id = some n) (hsent : n.emailStatus = .sent)
    (hr' : Reach exec RecordsInTime c c') :
    claims id c' = claims id c ∧
      ∀ n', c'.store.notices.get id = some n' → n'.emailStatus = .sent := by
  have hkept : claims id c' = claims id c ∧
      (c'.store.notices.get id = some n ∨ c'.store.notices.get id = none) := by
    induction hr' with
    | refl => exact ⟨rfl, .inl hn⟩
    | @tail b d hb hlast ih =>
      rcases hlast with ⟨i, e, hguard, hs⟩
      have hrb := hr.trans hb
      have hc := counted_of_reach hrb id
      have hallow := (hc.1.step hs (assumes_of_stepBy hs)).1
      rw [phase_eq_mine] at hallow
      rcases ih with ⟨hclaims, hnb | hgone⟩
      · have hset := settledIfSent_of_reach hrb id n hnb hsent
        have hstep := hset.step hc.2 hnb hguard hs hallow
        exact ⟨(claims_step_of_none hs hstep.1).trans hclaims, hstep.2⟩
      · -- a notice that is gone is neither claimed nor stored again
        have hstep := exec_notice hs.resp id
        rw [← hs.store, hgone] at hstep
        generalize hafter : d.store.notices.get id = after at hstep ⊢
        cases hstep with
        | same hclaim => exact ⟨(claims_step_of_none hs hclaim).trans hclaims, .inr rfl⟩
        | gone hclaim => exact ⟨(claims_step_of_none hs hclaim).trans hclaims, .inr rfl⟩
  refine ⟨hkept.1, fun n' hn' => ?_⟩
  rcases hkept.2 with hsame | hgone
  · rw [hsame] at hn'
    cases hn'
    exact hsent
  · rw [hgone] at hn'
    cases hn'

/-- The first round claims, sends and records. -/
def oneRound : List (Option Bool) :=
  [some false, some false, some false, some false, some false, some false, some false,
    some false, some false, some false, some false]

/-- Eleven minutes later, the second round finds nothing. -/
def laterRound : List (Option Bool) := [none, some true, some true, some true, some true]

/-- The first round claims and sends, the second finds its claim stale, and the first records. -/
def recordedLate : List (Option Bool) :=
  [some false, some false, some false, some false, some false, none, some true, some true,
    some true, some false, some false]

/-- The theorem where a round ends before the next begins: the email is sent, claimed once. -/
theorem sent_stays_sent_lab :
    claims labNoticeId (((labStart 3 true).schedule exec oneRound).schedule exec laterRound) =
      claims labNoticeId ((labStart 3 true).schedule exec oneRound) ∧
    (claims labNoticeId ((labStart 3 true).schedule exec oneRound)).length = 1 :=
  ⟨(sent_stays_sent labHost { emailRetryLimit := 3 } (labTasks true)
    (show Reach exec RecordsInTime _ ((labStart 3 true).schedule exec oneRound) from
      reach_schedule_of_obeys (by decide +kernel))
    (show ((labStart 3 true).schedule exec oneRound).store.notices.get labNoticeId =
      some { labNotice with
        emailStatus := .sent
        emailAttempts := 1
        updatedAt := some "2026-01-01T01:00:00Z" } by decide +kernel) rfl
    (reach_schedule_of_obeys (by decide +kernel))).1, by decide +kernel⟩

/-- **A sent email is claimed again** by a round that found it before its result was recorded. -/
theorem sent_claimed_again :
    ∃ c c' : Config World (Option Bool) Resp Exc Unit,
      Reach exec anyStep (labStart 3 true) c ∧ Reach exec anyStep c c' ∧
      (c.store.notices.get labNoticeId).map (·.emailStatus) = some .sent ∧
      (c'.store.notices.get labNoticeId).map (·.emailStatus) = some .sending ∧
      (claims labNoticeId c).length = 1 ∧ (claims labNoticeId c').length = 2 :=
  ⟨(labStart 3 true).schedule exec recordedLate,
    ((labStart 3 true).schedule exec recordedLate).schedule exec [some true],
    reach_schedule _ _ _, reach_schedule _ _ _, by decide +kernel, by decide +kernel,
    by decide +kernel, by decide +kernel⟩

/-! ## The attempts are bounded -/

/-- **The condition**, for a limit: no claim is taken over as stale with as many attempts, and no
late result of an earlier claim sets an email with as many attempts to be retried. -/
def RetriesInLimit (limit : ℕ) (c : Config World ι Resp Exc Unit) (i : ι) : Event Resp → Prop
  | ⟨.claimEmail id attempts _, some _⟩ => ∀ u ∈ found (c.mine i), u.id = id →
      u.emailAttempts = attempts → u.emailStatus = .sending → attempts < limit
  | ⟨.setEmailStatus ids .pending _, _⟩ => ∀ id ∈ ids, ∀ v ∈ claimed (c.mine i), v.id = id →
      ∀ n ∈ c.store.notices.get id, n.emailAttempts = v.emailAttempts ∨ n.emailAttempts < limit
  | _ => True

instance (limit : ℕ) (c : Config World ι Resp Exc Unit) (i : ι) :
    (e : Event Resp) → Decidable (RetriesInLimit limit c i e)
  | ⟨.claimEmail _ _ _, some _⟩ => inferInstanceAs (Decidable (∀ u ∈ found (c.mine i), _))
  | ⟨.claimEmail _ _ _, none⟩ => .isTrue trivial
  | ⟨.setEmailStatus ids .pending _, _⟩ => inferInstanceAs (Decidable (∀ id ∈ ids,
      ∀ v ∈ claimed (c.mine i), v.id = id → ∀ n ∈ c.store.notices.get id, _))
  | ⟨.setEmailStatus _ .notApplicable _, _⟩ => .isTrue trivial
  | ⟨.setEmailStatus _ .sending _, _⟩ => .isTrue trivial
  | ⟨.setEmailStatus _ .sent _, _⟩ => .isTrue trivial
  | ⟨.setEmailStatus _ .failed _, _⟩ => .isTrue trivial
  | ⟨.readClock, _⟩ => .isTrue trivial
  | ⟨.findPendingEmail _ _ _, _⟩ => .isTrue trivial
  | ⟨.findUsersById _, _⟩ => .isTrue trivial
  | ⟨.deleteExpired _, _⟩ => .isTrue trivial
  | ⟨.passTime _, _⟩ => .isTrue trivial

/-- **The attempts of a notice are within the limit**, and below it where its email is pending. -/
structure InLimit (id : Id) (limit : ℕ) (c : Config World ι Resp Exc Unit) : Prop where
  count : (claims id c).length ≤ limit
  pending : ∀ n, c.store.notices.get id = some n → n.emailStatus = .pending →
    n.emailAttempts < limit
  found : ∀ j, ∀ u ∈ found (c.mine j), u.id = id → u.emailStatus = .pending →
    u.emailAttempts < limit

theorem InLimit.step (hin : InLimit id conf.emailRetryLimit c) (hc : Counted id 0 c)
    (hguard : RetriesInLimit conf.emailRetryLimit c i e) (hs : StepBy exec i e c c')
    (hallow : (protocol conf).allows (c.mine i) e) : InLimit id conf.emailRetryLimit c' := by
  have hfound : ∀ j, ∀ u ∈ Emails.found (c'.mine j), u.id = id → u.emailStatus = .pending →
      u.emailAttempts < conf.emailRetryLimit := by
    intro j u hu hid hpending
    rcases (mem_found_step hs).mp hu with hu | ⟨rfl, hu⟩
    · exact hin.found j u hu hid hpending
    · exact hin.pending u (hid ▸ ((exec_found hs.resp).2 u hu).1) hpending
  have hstep := exec_notice hs.resp id
  rw [← hs.store] at hstep
  generalize hbefore : c.store.notices.get id = before at hstep
  generalize hafter : c'.store.notices.get id = after at hstep
  cases hstep with
  | same hclaim =>
    refine ⟨by rw [claims_step_of_none hs hclaim]; exact hin.count, fun n hn => ?_, hfound⟩
    exact hin.pending n (hbefore.trans (hafter.symm.trans hn))
  | gone hclaim =>
    refine ⟨by rw [claims_step_of_none hs hclaim]; exact hin.count, fun n hn => ?_, hfound⟩
    rw [hafter] at hn
    cases hn
  | claimed n updatedAt =>
    have hlt : n.emailAttempts < conf.emailRetryLimit := by
      rcases hallow with ⟨u, hu, hid, hattempts⟩
      rcases hc.isPending i u hu hid with hpending | hsending
      · exact hattempts ▸ hin.found i u hu hid hpending
      · exact hguard u hu hid hattempts hsending
    have hstored := hc.stored n hbefore
    refine ⟨?_, fun n' hn' hpending => ?_, hfound⟩
    · rw [claims_step hs, List.length_append]
      cases claimOf id _ <;> simp <;> omega
    · rw [hafter] at hn'
      cases hn'
      cases hpending
  | recorded status updatedAt n hid =>
    refine ⟨by rw [claims_step_of_none hs rfl]; exact hin.count, fun n' hn' hpending => ?_, hfound⟩
    rw [hafter] at hn'
    cases hn'
    have hstatus : status = .pending := hpending
    subst hstatus
    rcases hallow id hid with ⟨-, v, hv, hvid, hretry⟩
    rcases hguard id hid v hv hvid n hbefore with hlast | hlt
    · exact hlast ▸ hretry rfl
    · exact hlt

variable (h conf tasks) in
/-- **No email is claimed more often than the limit** in an interleaving that meets the
condition. -/
theorem attempts_le_limit (hlimit : 1 ≤ conf.emailRetryLimit) {w : World}
    (hr : Reach exec (RetriesInLimit conf.emailRetryLimit) (start h conf tasks w) c)
    (hstart : ∀ n, w.notices.get id = some n → n.emailAttempts = 0) :
    (claims id c).length ≤ conf.emailRetryLimit := by
  have hbase : ((w.notices.get id).map (·.emailAttempts)).getD 0 = 0 := by
    cases hn : w.notices.get id with
    | none => rfl
    | some n => exact hstart n hn
  have hc₀ := Counted.start id w fun i => (tasks i).service h conf
  rw [hbase] at hc₀
  have hin₀ : InLimit id conf.emailRetryLimit (start h conf tasks w) := by
    refine ⟨by simp [start], fun n hn _ => ?_, fun j u hu => by simp [found, start] at hu⟩
    have hzero := hstart n hn
    omega
  refine (hr.invariant (fun _ => protocol conf) (fun _ => [])
    (fun c => Counted id 0 c ∧ InLimit id conf.emailRetryLimit c)
    (fun i => follows_task (tasks i)) ⟨hc₀, hin₀⟩ ?_ ?_).2.2.count
  · exact fun _ _ _ _ _ _ _ hs => assumes_of_stepBy hs
  · intro c i e c' _ _ hinv hguard hs hallow
    rw [phase_eq_mine] at hallow
    exact ⟨hinv.1.step hs hallow, hinv.2.step hinv.1 hguard hs hallow⟩

/-- Two rounds, one after the other. -/
def twoRounds : List (Option Bool) :=
  oneRound ++ oneRound.map fun _ => some true

/-- The first round claims the email and stops; the second takes the claim over. -/
def takenOver : List (Option Bool) :=
  [some false, some false, some false, some false, none, some true, some true, some true, some true]

/-- The theorem where two rounds fail to send: at a limit of two, both claim. -/
theorem attempts_le_limit_lab :
    (claims labNoticeId ((labStart 2 false).schedule exec twoRounds)).length ≤ 2 ∧
    (claims labNoticeId ((labStart 2 false).schedule exec twoRounds)).length = 2 :=
  ⟨attempts_le_limit labHost { emailRetryLimit := 2 } (labTasks false) (by decide)
    (reach_schedule_of_obeys (by decide +kernel)) (by decide +kernel), by decide +kernel⟩

/-- **An email is claimed past the limit** of one attempt, as the first claim is found stale. -/
theorem claimed_past_limit :
    ∃ c, Reach exec anyStep (labStart 1 true) c ∧ (claims labNoticeId c).length = 2 :=
  ⟨(labStart 1 true).schedule exec takenOver, reach_schedule _ _ _, by decide +kernel⟩

end Mss.Emails
