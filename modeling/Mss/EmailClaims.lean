import Mss.Services.NoticeEmails

/-!
# Claims of the emails of notices

Rounds of emailing, deletions of expired notices and the clock of all processes go on in any order,
one operation at a time; a process may stop anywhere.

* `Task`, `found`, `claimed`, `recorded`: the calls, and what the events of one have done.
* `protocol`, **`follows_task`**: what one call does, by its own events so far.
* `NoticeStep`, `exec_notice`: what an operation does to one notice.
* `claims`, `Counted`, **`counted_of_reach`**: the claims of a notice are numbered one after another.
* **`one_claim_per_attempt`**: each claim has a number of its own, and all are counted.
-/

namespace Mss.Emails

open Atomic Storage Prog

/-! ## The calls -/

/-- **The calls that run at once**: rounds, deletions of the expired, and time passing. -/
inductive Task
  | round (r : Round)
  | expire
  | passTime (micros : ℕ)

variable (h : Host) (conf : NoticesConfig)

/-- The program of a call. -/
def Task.service : Task → Service Unit
  | .round r => emailRound h conf r
  | .expire => deleteExpiredRecords
  | .passTime micros => call (.passTime micros)

/-- The notices an event found. -/
def foundBy : Event Resp → List Notice
  | ⟨.findPendingEmail _ _ _, notices⟩ => notices
  | _ => []

/-- The notice an event claimed, as it was given back. -/
def claimedBy : Event Resp → Option Notice
  | ⟨.claimEmail _ _ _, claimed⟩ => claimed
  | _ => none

/-- The notices whose results an event recorded. -/
def recordedBy : Event Resp → List Id
  | ⟨.setEmailStatus ids _ _, _⟩ => ids
  | _ => []

/-- The notices found by the events. -/
def found (m : List (Event Resp)) : List Notice := m.flatMap foundBy

/-- The notices claimed by the events. -/
def claimed (m : List (Event Resp)) : List Notice := m.filterMap claimedBy

/-- The notices whose results the events recorded. -/
def recorded (m : List (Event Resp)) : List Id := m.flatMap recordedBy

@[simp] theorem found_concat (m : List (Event Resp)) (e : Event Resp) :
    found (m ++ [e]) = found m ++ foundBy e := by
  simp only [found, List.flatMap_append, List.flatMap_singleton]

@[simp] theorem claimed_concat (m : List (Event Resp)) (e : Event Resp) :
    claimed (m ++ [e]) = claimed m ++ (claimedBy e).toList := by
  rw [claimed, claimed, List.filterMap_append]
  cases hclaimed : claimedBy e <;> simp [hclaimed]

@[simp] theorem recorded_concat (m : List (Event Resp)) (e : Event Resp) :
    recorded (m ++ [e]) = recorded m ++ recordedBy e := by
  simp only [recorded, List.flatMap_append, List.flatMap_singleton]

/-! ## What one round does -/

/-- **What a call does**, by its own events so far: it claims what it found, at the number of
attempts found, and records one result at most for each claim, to retry only below the limit. -/
def protocol : Protocol Resp Exc Unit (List (Event Resp)) where
  next m e := m ++ [e]
  assumes _ e := match e with
    | ⟨.findPendingEmail _ _ _, notices⟩ => (notices.map (·.id)).Nodup
    | ⟨.claimEmail id _ _, claimed⟩ => ∀ v ∈ claimed, v.id = id
    | _ => True
  allows m e := match e.1 with
    | .claimEmail id attempts _ => ∃ v ∈ found m, v.id = id ∧ v.emailAttempts = attempts
    | .setEmailStatus ids status _ => ∀ id ∈ ids, id ∉ recorded m ∧
      ∃ v ∈ claimed m, v.id = id ∧ (status = .pending → v.emailAttempts < conf.emailRetryLimit)
    | _ => True
  ends _ _ := True

variable {h conf}

theorem follows_claimEach {now : String} {notices : List Notice} {m : List (Event Resp)}
    {k : List Notice → Service Unit} (hfound : ∀ v ∈ notices, v ∈ found m)
    (hk : ∀ m' vs, recorded m' = recorded m → claimed m' = claimed m ++ vs →
      (vs.map (·.id)).Sublist (notices.map (·.id)) → Follows (protocol conf) m' (k vs)) :
    Follows (protocol conf) m (claimEach now notices >>= k) := by
  induction notices generalizing m k with
  | nil => exact hk m [] rfl (List.append_nil _).symm (List.Sublist.refl _)
  | cons v notices ih =>
    rw [List.forall_mem_cons] at hfound
    rw [claimEach, bind_assoc]
    refine follows_perform_bind.mpr fun r hr => ⟨⟨v, hfound.1, rfl, rfl⟩, ?_⟩
    have hnext : (protocol conf).next m ⟨.claimEmail v.id v.emailAttempts now, r⟩ = m ++ [_] := rfl
    rw [bind_assoc, hnext]
    refine ih (fun u hu => ?_) fun m' rest hrecorded hrest hsub => ?_
    · rw [found_concat]
      exact List.mem_append_left _ (hfound.2 u hu)
    · rw [recorded_concat, show recordedBy ⟨.claimEmail v.id v.emailAttempts now, r⟩ = [] from rfl,
        List.append_nil] at hrecorded
      rw [claimed_concat, show claimedBy ⟨.claimEmail v.id v.emailAttempts now, r⟩ = r from rfl,
        List.append_assoc] at hrest
      refine hk m' (r.toList ++ rest) hrecorded hrest ?_
      cases r with
      | none => exact hsub.trans (List.sublist_cons_self _ _)
      | some u =>
        have hid : u.id = v.id := hr u rfl
        simpa [hid] using hsub

theorem mem_partitionResults {results : List EmailResult} {status : EmailStatus} {id : Id} :
    id ∈ partitionResults results status ↔ ∃ r ∈ results, r.status = status ∧ r.refId = id := by
  simp [partitionResults, and_assoc]

theorem EmailResult.canRetry_of_status {r : EmailResult} (hr : r.status = .pending) :
    r.canRetry = true := by
  unfold status at hr
  split_ifs at hr with _ hretry
  exact hretry

variable (conf) in
/-- **A result may be recorded**: it is of a claim that has none, and not to retry at the limit. -/
def Recordable (m : List (Event Resp)) (r : EmailResult) : Prop :=
  r.refId ∉ recorded m ∧ ∃ v ∈ claimed m, v.id = r.refId ∧
    (r.canRetry = true → v.emailAttempts < conf.emailRetryLimit)

theorem follows_setEach {results : List EmailResult} {statuses : List EmailStatus}
    {m : List (Event Resp)} {k : Unit → Service Unit} (hstatuses : statuses.Nodup)
    (hresults : ∀ r ∈ results, r.status ∈ statuses → Recordable conf m r)
    (hnodup : (results.map (·.refId)).Nodup)
    (hk : ∀ m', claimed m' = claimed m →
      (∀ id ∈ recorded m', id ∈ recorded m ∨ id ∈ results.map (·.refId)) →
      Follows (protocol conf) m' (k ())) :
    Follows (protocol conf) m (setEach h results statuses >>= k) := by
  induction statuses generalizing m with
  | nil => exact hk m rfl fun _ hid => .inl hid
  | cons status statuses ih =>
    rw [List.nodup_cons] at hstatuses
    rw [setEach, bind_assoc]
    refine follows_perform_bind.mpr fun now _ => ⟨trivial, ?_⟩
    refine follows_perform_bind.mpr fun u _ => ⟨fun id hid => ?_, ?_⟩
    · rcases mem_partitionResults.mp hid with ⟨r, hr, hstatus, rfl⟩
      have hrecordable := hresults r hr (hstatus ▸ List.mem_cons_self)
      rcases hrecordable with ⟨hunrecorded, v, hv, hvid, hretry⟩
      have hsame : recorded (m ++ [⟨.readClock, now⟩]) = recorded m ∧
          claimed (m ++ [⟨.readClock, now⟩]) = claimed m := by
        simp [recordedBy, claimedBy]
      refine ⟨hsame.1 ▸ hunrecorded, v, hsame.2 ▸ hv, hvid, fun hpending => ?_⟩
      exact hretry (EmailResult.canRetry_of_status (hstatus.trans hpending))
    · have hrecorded : recorded (m ++ [⟨.readClock, now⟩] ++
          [⟨.setEmailStatus (partitionResults results status) status (h.datetimeToZulu now), u⟩]) =
            recorded m ++ partitionResults results status := by
        simp only [recorded_concat, recordedBy, List.append_nil]
      have hclaimed : claimed (m ++ [⟨.readClock, now⟩] ++
          [⟨.setEmailStatus (partitionResults results status) status (h.datetimeToZulu now), u⟩]) =
            claimed m := by
        simp only [claimed_concat, claimedBy, Option.toList_none, List.append_nil]
      refine ih hstatuses.2 (fun r hr hstatus => ?_) fun m' hm' hin => ?_
      · have hother : r.refId ∉ partitionResults results status := by
          intro hin
          rcases mem_partitionResults.mp hin with ⟨q, hq, hqstatus, hqr⟩
          have hsame : q = r := List.inj_on_of_nodup_map hnodup hq hr hqr
          exact hstatuses.1 (hqstatus ▸ hsame ▸ hstatus)
        have hrecordable := hresults r hr (List.mem_cons_of_mem _ hstatus)
        refine ⟨fun hin => ?_, ?_⟩
        · rcases List.mem_append.mp (hrecorded ▸ hin) with hold | hnew
          · exact hrecordable.1 hold
          · exact hother hnew
        · exact hclaimed ▸ hrecordable.2
      · refine hk m' (hm'.trans hclaimed) fun id hid => ?_
        rcases hin id hid with hold | hnew
        · rcases List.mem_append.mp (hrecorded ▸ hold) with hold | hnew
          · exact .inl hold
          · rcases mem_partitionResults.mp hnew with ⟨r, hr, -, rfl⟩
            exact .inr (List.mem_map_of_mem hr)
        · exact .inr hnew

theorem GatherOrder.nodup (order : GatherOrder) : order.1.Nodup :=
  order.2.nodup_iff.mpr (by decide)

theorem follows_processEmailBatchResults {order : GatherOrder} {results : List EmailResult}
    {m : List (Event Resp)} {k : Unit → Service Unit}
    (hresults : ∀ r ∈ results, Recordable conf m r) (hnodup : (results.map (·.refId)).Nodup)
    (hk : ∀ m', claimed m' = claimed m →
      (∀ id ∈ recorded m', id ∈ recorded m ∨ id ∈ results.map (·.refId)) →
      Follows (protocol conf) m' (k ())) :
    Follows (protocol conf) m (processEmailBatchResults h order results >>= k) :=
  follows_setEach order.nodup (fun r hr _ => hresults r hr) hnodup hk

theorem follows_failUnreachable {order : GatherOrder} {results : List EmailResult}
    {m : List (Event Resp)} {k : Unit → Service Unit}
    (hresults : ∀ r ∈ results, Recordable conf m r) (hnodup : (results.map (·.refId)).Nodup)
    (hk : ∀ m', claimed m' = claimed m →
      (∀ id ∈ recorded m', id ∈ recorded m ∨ id ∈ results.map (·.refId)) →
      Follows (protocol conf) m' (k ())) :
    Follows (protocol conf) m (failUnreachable h order results >>= k) := by
  unfold failUnreachable
  split_ifs
  · exact follows_processEmailBatchResults hresults hnodup hk
  · exact hk m rfl fun _ hid => .inl hid

theorem refIds_sendBatch (smtp : Smtp) (batch : List EmailDetails) :
    (sendBatch smtp batch).map (·.refId) = batch.map (·.refId) := by
  refine List.ext_getElem (by simp [sendBatch]) fun i _ _ => ?_
  simp [sendBatch]

theorem mem_sendBatch {smtp : Smtp} {batch : List EmailDetails} {r : EmailResult}
    (hr : r ∈ sendBatch smtp batch) :
    ∃ detail ∈ batch, r.refId = detail.refId ∧ r.canRetry = detail.canRetry := by
  rcases List.mem_mapIdx.mp hr with ⟨i, hi, rfl⟩
  exact ⟨batch[i], List.getElem_mem hi, rfl, rfl⟩

theorem mem_details {users : List User} {notices : List Notice} {detail : EmailDetails}
    (hd : detail ∈ notices.filterMap fun v => (emailOf users v).map (emailDetails conf v)) :
    ∃ v ∈ notices, (emailOf users v).isSome ∧ v.id = detail.refId ∧
      (detail.canRetry = true → v.emailAttempts < conf.emailRetryLimit) := by
  rcases List.mem_filterMap.mp hd with ⟨v, hv, hdetail⟩
  rcases Option.map_eq_some_iff.mp hdetail with ⟨address, haddress, rfl⟩
  exact ⟨v, hv, by simp [haddress], rfl, fun hretry => by simpa [emailDetails] using hretry⟩

theorem refIds_details (users : List User) (notices : List Notice) :
    (notices.filterMap fun v => (emailOf users v).map (emailDetails conf v)).map (·.refId) =
      (notices.filter fun v => (emailOf users v).isSome).map (·.id) := by
  induction notices with
  | nil => rfl
  | cons v notices ih =>
    cases haddress : emailOf users v with
    | none => simp [haddress, ih]
    | some address => simp [haddress, ih, emailDetails]

theorem refIds_unreachableResults (users : List User) (notices : List Notice) :
    (unreachableResults users notices).map (·.refId) =
      (notices.filter fun v => (emailOf users v).isNone).map (·.id) := by
  simp [unreachableResults]

/-- **Sending what was claimed follows the protocol**, none of it having a result yet. -/
theorem follows_send (r : Round) {m : List (Event Resp)} {vs : List Notice}
    (hrecorded : recorded m = []) (hclaimed : claimed m = vs) (hnodup : (vs.map (·.id)).Nodup) :
    Follows (protocol conf) m (toEmailDetails h conf r.unreachableOrder vs >>= fun batch =>
      processEmailBatchResults h r.order (sendBatch r.smtp batch)) := by
  unfold toEmailDetails
  rw [bind_assoc]
  refine follows_perform_bind.mpr fun users _ => ⟨trivial, ?_⟩
  have hsame : recorded (m ++ [⟨.findUsersById (vs.filterMap (·.userId)), users⟩]) = [] ∧
      claimed (m ++ [⟨.findUsersById (vs.filterMap (·.userId)), users⟩]) = vs := by
    simp [recordedBy, claimedBy, hrecorded, hclaimed]
  rw [bind_assoc]
  refine follows_failUnreachable (fun q hq => ⟨?_, ?_⟩) ?_ fun m' hclaimed' hin => ?_
  · rw [show (protocol conf).next m _ = m ++ [_] from rfl, hsame.1]
    exact List.not_mem_nil
  · rcases List.mem_map.mp hq with ⟨v, hv, rfl⟩
    exact ⟨v, hsame.2.symm ▸ List.mem_of_mem_filter hv, rfl, fun hretry => by cases hretry⟩
  · rw [refIds_unreachableResults]
    exact hnodup.sublist (List.filter_sublist.map _)
  · rw [show (protocol conf).next m _ = m ++ [_] from rfl] at hclaimed' hin
    rw [hsame.2] at hclaimed'
    rw [pure_eq, ret_bind, ← bind_ret (processEmailBatchResults h r.order _)]
    refine follows_processEmailBatchResults (fun q hq => ?_) ?_ fun _ _ _ => trivial
    · rcases mem_sendBatch hq with ⟨detail, hd, href, hretry⟩
      rcases mem_details hd with ⟨v, hv, haddress, hid, hlimit⟩
      refine ⟨fun hrec => ?_, v, hclaimed' ▸ hv, hid.trans href.symm,
        fun hq => hlimit (hretry ▸ hq)⟩
      rcases hin _ hrec with hold | hfailed
      · rw [hsame.1] at hold
        exact List.not_mem_nil hold
      · rw [refIds_unreachableResults, List.mem_map] at hfailed
        rcases hfailed with ⟨u, hu, huid⟩
        have hsameNotice : u = v := List.inj_on_of_nodup_map hnodup (List.mem_of_mem_filter hu) hv
          (huid.trans (href.trans hid.symm))
        have hnone : (emailOf users u).isNone = true := (List.mem_filter.mp hu).2
        rw [hsameNotice] at hnone
        cases hout : emailOf users v <;> simp [hout] at hnone haddress
    · rw [refIds_sendBatch, refIds_details]
      exact hnodup.sublist (List.filter_sublist.map _)

/-- **A round follows the protocol.** -/
theorem follows_round (r : Round) : Follows (protocol conf) [] (emailRound h conf r) := by
  unfold emailRound claimPendingEmails findNoticesPendingEmail getCurrentTimestamp
  simp only [bind_assoc]
  refine follows_perform_bind.mpr fun now _ => ⟨trivial, ?_⟩
  refine follows_perform_bind.mpr fun notices hnodup => ⟨trivial, ?_⟩
  refine follows_perform_bind.mpr fun claimedAt _ => ⟨trivial, ?_⟩
  refine follows_claimEach (fun v hv => ?_) fun m vs hrecorded hclaimed hsub => ?_
  · exact List.mem_flatMap.mpr ⟨⟨.findPendingEmail _ _ _, notices⟩, by simp [protocol], hv⟩
  · exact follows_send r hrecorded hclaimed (hsub.nodup hnodup)

/-- **Every call follows the protocol.** -/
theorem follows_task (task : Task) : Follows (protocol conf) [] (task.service h conf) := by
  cases task with
  | round r => exact follows_round r
  | expire => exact fun _ _ => ⟨trivial, fun _ _ => ⟨trivial, trivial⟩⟩
  | passTime micros => exact fun _ _ => ⟨trivial, trivial⟩

/-! ## What one operation does to a notice -/

/-- The claim of the notice of an id that an event made. -/
def claimOf (id : Id) (e : Event Resp) : Option Notice := (claimedBy e).filter (·.id = id)

/-- **What an event does to the notice of an id**: it is left, claimed once more at the number of
attempts it has, given a status, or gone. -/
inductive NoticeStep (id : Id) : Event Resp → Option Notice → Option Notice → Prop
  | same {e : Event Resp} {n : Option Notice} (hclaim : claimOf id e = none) : NoticeStep id e n n
  | claimed (n : Notice) (updatedAt : String) : NoticeStep id
      ⟨.claimEmail id n.emailAttempts updatedAt, some (n.claim updatedAt)⟩
      (some n) (some (n.claim updatedAt))
  | recorded {ids : List Id} (status : EmailStatus) (updatedAt : String) (n : Notice)
      (hid : id ∈ ids) : NoticeStep id ⟨.setEmailStatus ids status updatedAt, ()⟩
      (some n) (some (n.setEmailStatus status updatedAt))
  | gone {e : Event Resp} {n : Option Notice} (hclaim : claimOf id e = none) :
      NoticeStep id e n none

theorem exec_notice {e : Event Resp} {w : World} (hresp : (exec e.1 w).1 = e.2) (id : Id) :
    NoticeStep id e (w.notices.get id) ((exec e.1 w).2.notices.get id) := by
  rcases e with ⟨o, r⟩
  cases o with
  | claimEmail id' attempts updatedAt =>
    cases hfind : w.findClaimable id' attempts with
    | none =>
      simp only [exec, hfind] at hresp ⊢
      subst hresp
      exact .same rfl
    | some n =>
      have hn := Option.filter_eq_some_iff.mp hfind
      have hid : n.id = id' := Table.key_of_get hn.1
      have hattempts : n.emailAttempts = attempts := by
        have hboth := hn.2
        simp only [Bool.and_eq_true, decide_eq_true_eq] at hboth
        exact hboth.2
      simp only [exec, hfind] at hresp ⊢
      rw [Table.get_modify]
      subst hresp hattempts
      split_ifs with heq
      · subst heq
        rw [hn.1]
        exact .claimed n updatedAt
      · refine .same ?_
        have hne : ¬ n.id = id := fun h => heq (h.symm.trans hid)
        simp [claimOf, claimedBy, Option.filter, hne]
  | setEmailStatus ids status updatedAt =>
    change NoticeStep id _ _ ((w.notices.mapRows (w.setStatus ids status updatedAt)
      (w.setStatus_id ids status updatedAt)).get id)
    rw [Table.get_mapRows]
    cases hg : w.notices.get id with
    | none => exact .same rfl
    | some n =>
      have hid : n.id = id := Table.key_of_get hg
      rw [Option.map_some, World.setStatus]
      split_ifs with hset
      · exact .recorded status updatedAt n (hid ▸ hset.1)
      · exact .same rfl
  | deleteExpired now =>
    change NoticeStep id _ _ ((w.notices.eraseWhere _).get id)
    rw [Table.get_eraseWhere]
    cases hg : w.notices.get id with
    | none => exact .same rfl
    | some n =>
      by_cases hexpired : n.isUnexpired now = true
      · simp only [Option.filter, hexpired, Bool.not_true, Bool.not_false, if_true]
        exact .same rfl
      · simp only [Option.filter, hexpired, Bool.not_false, Bool.not_true]
        exact .gone rfl
  | _ => exact .same rfl

theorem limited_sublist {α : Type} (b : Backend) (limit : ℕ) (xs : List α) :
    (limited b limit xs).Sublist xs := by
  unfold limited
  split_ifs
  · exact List.Sublist.refl _
  · exact List.take_sublist limit xs

theorem exec_found {e : Event Resp} {w : World} (hresp : (exec e.1 w).1 = e.2) :
    ((foundBy e).map (·.id)).Nodup ∧ ∀ u ∈ foundBy e, w.notices.get u.id = some u ∧
      (u.emailStatus = .pending ∨ u.emailStatus = .sending) := by
  rcases e with ⟨o, r⟩
  cases o with
  | findPendingEmail now staleBefore limit =>
    cases hresp
    have hperm := List.perm_insertionSort (fun a b : Notice => sortsBefore a.updatedAt b.updatedAt)
      (w.notices.rows.filter fun n => n.isPendingEmail now staleBefore && n.isUnexpired w.now)
    have hsub := limited_sublist w.backend limit ((w.notices.rows.filter fun n =>
      n.isPendingEmail now staleBefore && n.isUnexpired w.now).insertionSort
        fun a b => sortsBefore a.updatedAt b.updatedAt)
    refine ⟨List.Nodup.sublist (hsub.map _) ?_, fun u hu => ?_⟩
    · refine (hperm.map _).nodup_iff.mpr ?_
      exact w.notices.nodup.sublist (List.filter_sublist.map _)
    · have hrow := List.mem_filter.mp (hperm.mem_iff.mp (hsub.subset hu))
      refine ⟨Table.mem_rows_iff.mp hrow.1, ?_⟩
      have hmatch := hrow.2
      simp only [Notice.isPendingEmail, Bool.and_eq_true, Bool.or_eq_true,
        decide_eq_true_eq] at hmatch
      exact hmatch.1.1.2.imp id (·.1)
  | _ => exact ⟨List.nodup_nil, fun u hu => absurd hu List.not_mem_nil⟩

/-! ## Claims in an interleaving -/

variable {ι : Type} [DecidableEq ι] {c c' : Config World ι Resp Exc Unit} {i : ι} {e : Event Resp}
  {id : Id}

/-- **The claims of the notice of an id**, in order, with the calls that made them. -/
def claims (id : Id) (c : Config World ι Resp Exc Unit) : List (ι × Notice) :=
  c.trace.filterMap fun x => (claimOf id x.2).map (x.1, ·)

theorem claims_step (hs : StepBy exec i e c c') :
    claims id c' = claims id c ++ ((claimOf id e).map (i, ·)).toList := by
  rw [claims, claims, hs.trace, List.filterMap_append]
  cases hclaim : claimOf id e <;> simp [hclaim]

theorem claims_step_of_none (hs : StepBy exec i e c c') (hclaim : claimOf id e = none) :
    claims id c' = claims id c := by
  rw [claims_step hs, hclaim, Option.map_none, Option.toList_none, List.append_nil]

theorem mem_claims {x : ι × Notice} :
    x ∈ claims id c ↔ x.2 ∈ claimed (c.mine x.1) ∧ x.2.id = id := by
  rcases x with ⟨j, v⟩
  simp only [claims, claimed, List.mem_filterMap, claimOf, Option.map_eq_some_iff,
    Option.filter_eq_some_iff, decide_eq_true_eq, Prod.mk.injEq, Config.mem_mine]
  constructor
  · rintro ⟨y, hy, u, ⟨hu, hid⟩, rfl, rfl⟩
    exact ⟨⟨y.2, hy, hu⟩, hid⟩
  · rintro ⟨⟨e, he, hu⟩, hid⟩
    exact ⟨(j, e), he, v, ⟨hu, hid⟩, rfl, rfl⟩

theorem mine_step (hs : StepBy exec i e c c') (j : ι) :
    c'.mine j = c.mine j ++ if j = i then [e] else [] := by
  split_ifs with hj
  · subst hj
    exact hs.mine_self
  · rw [hs.mine_ne hj, List.append_nil]

theorem mem_found_step (hs : StepBy exec i e c c') {j : ι} {u : Notice} :
    u ∈ found (c'.mine j) ↔ u ∈ found (c.mine j) ∨ (j = i ∧ u ∈ foundBy e) := by
  rw [mine_step hs]
  by_cases hj : j = i <;> simp [hj, found]

theorem recorded_subset (hs : StepBy exec i e c c') {j : ι} {id : Id}
    (hid : id ∈ recorded (c.mine j)) : id ∈ recorded (c'.mine j) := by
  rw [mine_step hs]
  split_ifs
  · rw [recorded_concat]
    exact List.mem_append_left _ hid
  · rwa [List.append_nil]

theorem phase_eq_mine (j : ι) :
    c.phase (fun _ => protocol conf) (fun _ => []) j = c.mine j := by
  have hfold : ∀ (es m : List (Event Resp)), es.foldl (protocol conf).next m = m ++ es := by
    intro es
    induction es with
    | nil => simp
    | cons e es ih =>
      intro m
      rw [List.foldl_cons, ih]
      simp [protocol]
  exact (hfold _ _).trans (List.nil_append _)

/-- **What holds of the claims of a notice in every interleaving**, its attempts being `base` at
the start: they are numbered on from `base`, and each is of a notice found with one attempt less. -/
structure Counted (id : Id) (base : ℕ) (c : Config World ι Resp Exc Unit) : Prop where
  stored : ∀ n, c.store.notices.get id = some n → n.emailAttempts = base + (claims id c).length
  numbered : (claims id c).map (·.2.emailAttempts) =
    List.range' (base + 1) (claims id c).length
  fromFound : ∀ x ∈ claims id c, ∃ j, ∃ u ∈ found (c.mine j), u.id = id ∧
    u.emailAttempts + 1 = x.2.emailAttempts
  isPending : ∀ j, ∀ u ∈ found (c.mine j), u.id = id →
    u.emailStatus = .pending ∨ u.emailStatus = .sending

/-- **One step counts what it claims.** -/
theorem Counted.step {base : ℕ} (hc : Counted id base c) (hs : StepBy exec i e c c')
    (hallow : (protocol conf).allows (c.mine i) e) : Counted id base c' := by
  have hfrom : ∀ x ∈ claims id c, ∃ j, ∃ u ∈ found (c'.mine j), u.id = id ∧
      u.emailAttempts + 1 = x.2.emailAttempts := by
    intro x hx
    rcases hc.fromFound x hx with ⟨j, u, hu, hux⟩
    exact ⟨j, u, (mem_found_step hs).mpr (.inl hu), hux⟩
  have hpending : ∀ j, ∀ u ∈ found (c'.mine j), u.id = id →
      u.emailStatus = .pending ∨ u.emailStatus = .sending := by
    intro j u hu hid
    rcases (mem_found_step hs).mp hu with hu | ⟨rfl, hu⟩
    · exact hc.isPending j u hu hid
    · exact ((exec_found hs.resp).2 u hu).2
  -- an event that claims nothing of the notice keeps the count of its attempts
  have hsame : claimOf id e = none →
      (∀ n, c'.store.notices.get id = some n → ∃ n₀, c.store.notices.get id = some n₀ ∧
        n.emailAttempts = n₀.emailAttempts) → Counted id base c' := by
    intro hclaim hstored
    have hclaims := claims_step_of_none hs hclaim
    refine ⟨fun n hn => ?_, ?_, ?_, hpending⟩
    · rcases hstored n hn with ⟨n₀, hn₀, hattempts⟩
      rw [hattempts, hclaims]
      exact hc.stored n₀ hn₀
    · rw [hclaims]
      exact hc.numbered
    · rw [hclaims]
      exact hfrom
  have hstep := exec_notice hs.resp id
  rw [← hs.store] at hstep
  generalize hbefore : c.store.notices.get id = before at hstep
  generalize hafter : c'.store.notices.get id = after at hstep
  cases hstep with
  | same hclaim => exact hsame hclaim fun n hn => ⟨n, hbefore.trans (hafter.symm.trans hn), rfl⟩
  | gone hclaim =>
    refine hsame hclaim fun n hn => ?_
    rw [hafter] at hn
    cases hn
  | recorded status updatedAt n hid =>
    refine hsame rfl fun n' hn' => ⟨n, hbefore, ?_⟩
    rw [hafter] at hn'
    cases hn'
    rfl
  | claimed n updatedAt =>
    have hnid : n.id = id := Table.key_of_get hbefore
    have hclaims : claims id c' = claims id c ++ [(i, n.claim updatedAt)] := by
      rw [claims_step hs]
      simp [claimOf, claimedBy, Option.filter, hnid]
    have hattempts := hc.stored n hbefore
    refine ⟨fun n' hn' => ?_, ?_, fun x hx => ?_, hpending⟩
    · rw [hafter] at hn'
      cases hn'
      rw [hclaims, List.length_append, List.length_singleton, ← Nat.add_assoc, ← hattempts]
      rfl
    · rw [hclaims, List.map_append, hc.numbered, List.length_append, List.length_singleton,
        List.range'_concat]
      simp only [List.map_singleton, Notice.claim, hattempts]
      congr 2
      omega
    · rw [hclaims, List.mem_append, List.mem_singleton] at hx
      rcases hx with hx | rfl
      · exact hfrom x hx
      · rcases hallow with ⟨u, hu, hid, hua⟩
        exact ⟨i, u, (mem_found_step hs).mpr (.inl hu), hid, by rw [hua]; rfl⟩

omit [DecidableEq ι] in
@[simp] theorem claims_start (id : Id) (w : World) (pool : ι → Service Unit) :
    claims id (Config.start w pool) = [] := rfl

theorem Counted.start (id : Id) (w : World) (pool : ι → Service Unit) :
    Counted id (((w.notices.get id).map (·.emailAttempts)).getD 0) (Config.start w pool) where
  stored n hn := by
    change w.notices.get id = some n at hn
    simp [hn]
  numbered := by simp
  fromFound x hx := by simp at hx
  isPending j u hu := by simp [found] at hu

theorem assumes_of_stepBy {m : List (Event Resp)} (hs : StepBy exec i e c c') :
    (protocol conf).assumes m e := by
  have hfound := (exec_found hs.resp).1
  have hresp := hs.resp
  rcases e with ⟨o, r⟩
  cases o with
  | findPendingEmail now staleBefore limit => exact hfound
  | claimEmail id attempts updatedAt =>
    intro v hv
    cases hv
    simp only [exec] at hresp
    split at hresp
    · next n hfind =>
      cases hresp
      change n.id = id
      exact Table.key_of_get (Option.filter_eq_some_iff.mp hfind).1
    · cases hresp
  | _ => trivial

variable {tasks : ι → Task}

variable (h conf tasks) in
/-- The calls at their start. -/
def start (w : World) : Config World ι Resp Exc Unit :=
  Config.start w fun i => (tasks i).service h conf

/-- **Every interleaving counts its claims**, and each call in it follows the protocol. -/
theorem counted_of_reach {guard : Config World ι Resp Exc Unit → ι → Event Resp → Prop}
    {w : World} (hr : Reach exec guard (start h conf tasks w) c) (id : Id) :
    Following (fun _ => protocol conf) (fun _ => []) c ∧
      Counted id (((w.notices.get id).map (·.emailAttempts)).getD 0) c := by
  refine hr.invariant _ _ (Counted id _) (fun i => follows_task (tasks i))
    (Counted.start id w _) ?_ ?_
  · exact fun _ _ _ _ _ _ _ hs => assumes_of_stepBy hs
  · intro c i e c' _ _ hc _ hs hallow
    rw [phase_eq_mine] at hallow
    exact hc.step hs hallow

/-! ## One claim per attempt -/

variable (h conf tasks) in
/-- **Each claim of a notice has a number of its own**, and its attempts are the claims of it. -/
theorem one_claim_per_attempt {w : World}
    (hr : Reach exec anyStep (start h conf tasks w) c)
    (hstart : ∀ n, w.notices.get id = some n → n.emailAttempts = 0) :
    ((claims id c).map (·.2.emailAttempts)).Nodup ∧
      ∀ n, c.store.notices.get id = some n → n.emailAttempts = (claims id c).length := by
  have hc := (counted_of_reach hr id).2
  have hbase : ((w.notices.get id).map (·.emailAttempts)).getD 0 = 0 := by
    cases hn : w.notices.get id with
    | none => rfl
    | some n => exact hstart n hn
  rw [hbase] at hc
  refine ⟨?_, fun n hn => ?_⟩
  · rw [hc.numbered]
    exact List.nodup_range'
  · rw [hc.stored n hn, Nat.zero_add]

/-! ## Two rounds at once -/

/-- A number of two digits. -/
def twoDigits (n : ℤ) : String := if n < 10 then "0" ++ toString n else toString n

/-- The text of a time on the first day of 2026, in seconds. -/
def labTime (micros : ℤ) : String :=
  let seconds := micros / 1000000 % 86400
  "2026-01-01T" ++ twoDigits (seconds / 3600) ++ ":" ++ twoDigits (seconds / 60 % 60) ++ ":" ++
    twoDigits (seconds % 60)

/-- A host that writes seconds. -/
def labHost : Host where
  datetimeToZulu micros := labTime micros ++ "Z"

/-- The id of a notice. -/
def labNoticeId : Id := "65f0000000000000000000c1"

/-- A notice whose email is pending. -/
def labNotice : Notice where
  id := labNoticeId
  title := "QPU time"
  body := "No QPU time is left."
  userId := some "65f0000000000000000000a1"
  emailStatus := .pending
  updatedAt := some "2026-01-01T00:59:00Z"

/-- The database at one o'clock, with the notice and its user. -/
def labWorld : World where
  backend := .mongodb
  now := 1767229200000000
  notices := Table.empty.insert labNotice rfl
  users := Table.empty.insert { id := "65f0000000000000000000a1", email := "admin@lab.org" } rfl

/-- The order the results are written in. -/
def labOrder : GatherOrder := ⟨[.sent, .failed, .pending], List.Perm.refl _⟩

/-- A round whose emails are all taken by the mail server, or none. -/
def labRound (isSent : Bool) : Round where
  smtp := { isSent := fun _ => isSent }
  unreachableOrder := labOrder
  order := labOrder

/-- Two rounds, and eleven minutes passing. -/
def labTasks (isSent : Bool) : Option Bool → Task
  | some _ => .round (labRound isSent)
  | none => .passTime 660000000

/-- The calls at their start, for a limit of attempts. -/
def labStart (limit : ℕ) (isSent : Bool) : Config World (Option Bool) Resp Exc Unit :=
  start labHost { emailRetryLimit := limit } (labTasks isSent) labWorld

/-- Both rounds find the notice before either claims it. -/
def bothFind : List (Option Bool) :=
  [some false, some false, some true, some true, some false, some false, some true, some true]

/-- The theorem where two rounds find the notice: one of them claims it. -/
theorem one_claim_per_attempt_lab :
    ((claims labNoticeId ((labStart 3 true).schedule exec bothFind)).map
      (·.2.emailAttempts)).Nodup ∧
    (claims labNoticeId ((labStart 3 true).schedule exec bothFind)).map (·.1) = [some false] :=
  ⟨(one_claim_per_attempt labHost { emailRetryLimit := 3 } (labTasks true)
    (reach_schedule exec bothFind _) (by decide +kernel)).1, by decide +kernel⟩

end Mss.Emails
