import Mathlib.Tactic.Linarith
import Mathlib.Tactic.NormNum
import Mss.ChargedOnce

/-!
# Alerts of a project's QPU seconds

Charges of a project's jobs take its balance down. A charge that takes it to zero is to alert its
members, and one that takes it below the threshold its admin. The charge that starts from exactly
the threshold is not told from those that start below it, and alerts no one.

* `Charge`, `runCharge`: the charge of a job's usage, and the database after it.
* `chosenNotice`: the notice a charge chooses; `alertsOf`: what it asks for then.
* `ChargeMade`, `chargesMade`: the balances of each charge of a run, with the notice it chose.
* `AlertsAtCrossings`: each crossing alerts, at its charge, and nothing else does.
* **`alertsAtCrossings_iff`**: a run alerts so exactly when no charge of it starts from the
  threshold and leaves some balance.
-/

namespace Mss

open Atomic Storage Prog

/-! ## Charges -/

/-- A charge of a job's usage. -/
structure Charge where
  jobId : String
  usage : ℚ
  deriving DecidableEq, Repr

/-- What the charges take together. -/
def spent : List Charge → ℚ
  | [] => 0
  | c :: cs => c.usage + spent cs

variable {P : Type} [ProjectStore P]

section

variable (h : Host) (threshold : ℚ)

/-- What charging returns and leaves. -/
def runCharge (c : Charge) (db : Db P) : Except Exc (Option Project) × Db P :=
  (updateQpuUsage h threshold c.jobId c.usage).run (exec h) db

/-- The notice that a charge chooses, of the project it returns. -/
def chosenNotice (c : Charge) (db : Db P) : Option NoticeTypeId :=
  match (runCharge h threshold c db).1 with
  | .ok (some project) =>
    chooseQpuNotice (project.qpuSeconds + c.usage) project.qpuSeconds threshold
  | _ => none

/-- The balance of a project. -/
def balanceOf (pid : Id) (db : Db P) : Option ℚ :=
  (KeyedStore.get db.projects pid).map (·.qpuSeconds)

/-- **A charge made**: the balances before and after it, and the notice it chose. -/
structure ChargeMade where
  before : ℚ
  after : ℚ
  chosen : Option NoticeTypeId
  deriving DecidableEq, Repr

/-- The charges of a run on a project, as they were made. -/
def chargesMade (pid : Id) : List Charge → Db P → List ChargeMade
  | [], _ => []
  | c :: cs, db =>
    let db' := (runCharge h threshold c db).2
    { before := (balanceOf pid db).getD 0, after := (balanceOf pid db').getD 0,
      chosen := chosenNotice h threshold c db } :: chargesMade pid cs db'

end

namespace ChargeMade

/-- The charge takes the balance from above zero to zero or less. -/
def Depletes (m : ChargeMade) : Prop := 0 < m.before ∧ m.after ≤ 0

/-- The charge takes the balance from the threshold or more to below it. -/
def RunsLow (threshold : ℚ) (m : ChargeMade) : Prop :=
  threshold ≤ m.before ∧ m.after < threshold

/-- The charge takes the balance from the threshold or more straight to zero or less. -/
def Jumps (threshold : ℚ) (m : ChargeMade) : Prop := threshold ≤ m.before ∧ m.after ≤ 0

end ChargeMade

/-- **Each crossing alerts exactly once**: the charge to zero chooses that the seconds are
depleted; if no charge jumps from the threshold to zero, the charge below the threshold chooses
that they are low; and no other charge chooses a notice. -/
structure AlertsAtCrossings (threshold : ℚ) (made : List ChargeMade) : Prop where
  depleted : ∀ m ∈ made, m.chosen = some .qpuSecondsDepleted ↔ m.Depletes
  low : (∀ m ∈ made, ¬ m.Jumps threshold) →
    ∀ m ∈ made, m.chosen = some .qpuSecondsLow ↔ m.RunsLow threshold
  others : ∀ m ∈ made, m.chosen ≠ none → m.Depletes ∨ m.RunsLow threshold

/-! ## What a charge does -/

/-- **The charged jobs are billed to the project**, which has some balance, and a name of its own. -/
def Charging (pid : Id) (charges : List Charge) (balance : ℚ) (db : Db P) : Prop :=
  (∃ p, KeyedStore.get db.projects pid = some p ∧ p.qpuSeconds = balance ∧
    ∀ id q, KeyedStore.get db.projects id = some q → q.name = p.name → id = pid) ∧
  ∀ c ∈ charges, ∃ job, db.jobs.get c.jobId = some job ∧ job.projectId = some pid

variable {h : Host} {threshold : ℚ} {b : Backend} {pid : Id} {job : Job} {balance : ℚ} {db : Db P}
  {charges : List Charge} {c : Charge}

theorem Billed.answer_increment {v : ℚ} (hb : Billed b pid job balance db) :
    ∃ p, (exec h (.updateProject pid { qpuSeconds := some (.inc v) }) db).1 = .ok (some p) ∧
      p.qpuSeconds = balance + v := by
  obtain ⟨p, hp, hbalance, hname⟩ := hb.project
  obtain ⟨hnone, -⟩ | ⟨p', hp', ⟨projects, -, he⟩ | ⟨hu, -⟩⟩ :=
    exec_updateProject (h := h) pid { qpuSeconds := some (.inc v) } db
  · rw [hp] at hnone
    cases hnone
  · rw [hp] at hp'
    cases hp'
    refine ⟨p.apply { qpuSeconds := some (.inc v) }, by rw [he], ?_⟩
    simp [Project.apply, NumberChange.apply, hbalance]
  · obtain ⟨r, hr, hstorable | ⟨id, q, hne, hq, hclash⟩⟩ := KeyedStore.update_eq_none.mp hu
    · have hr' : KeyedStore.Storable P r := KeyedStore.storable_of_get hr
      exact (hstorable (ProjectStore.storable_congr (p := r) rfl hr')).elim
    · rw [hp] at hr
      cases hr
      exact (hne (hname id q hq hclash)).elim

/-- The notices that telling of a project asks for: none, where it has no one to tell. -/
def alertsOf (project : Project) : Option NoticeTypeId → List SystemNotice
  | none => []
  | some noticeType =>
    let context : ProjectRequestContext := { projectId := project.id, projectName := project.name }
    if noticeType = .qpuSecondsDepleted then
      if project.userIds.length = 0 then []
      else [{ userIds := project.userIds, noticeType, context, refType := .project,
              refId := project.id }]
    else
      [{ userIds := [project.adminId], noticeType,
         context := { context with seconds := some (round project.qpuSeconds) },
         refType := .project, refId := project.id }]

theorem run_notifyProject (project : Project) (noticeType : NoticeTypeId) (db : Db P) :
    (notifyProject project noticeType).run (exec h) db =
      (.ok (), { db with notices := db.notices ++ alertsOf project (some noticeType) }) := by
  unfold notifyProject alertsOf createSystemNotice
  dsimp only
  split_ifs with hdepleted hnobody
  · simp
  · rfl
  · simp at *
  · rfl

/-- **What a charge does**: it returns the project with its new balance, and asks for the notice
it chooses of that. -/
theorem Billed.runCharge (hb : Billed b pid job balance db) (hc : job.jobId = c.jobId) :
    ∃ project, project.qpuSeconds = balance - c.usage ∧
      (runCharge h threshold c db).1 = .ok (some project) ∧
      (runCharge h threshold c db).2.notices = db.notices ++
        alertsOf project (chooseQpuNotice balance (balance - c.usage) threshold) := by
  obtain ⟨project, hanswer, hbalance⟩ := hb.answer_increment (h := h) (v := -c.usage)
  rw [← sub_eq_add_neg] at hbalance
  have hgot : (exec h (.getJob c.jobId) db).1 = some job := hc ▸ hb.stored
  have hread : (getJob h c.jobId).run (exec h) db = (.ok job, db) := by
    simp only [getJob, perform_bind, run_call, hgot]
    rfl
  have hnotices : (exec h (.updateProject pid { qpuSeconds := some (.inc (-c.usage)) }) db).2.notices
      = db.notices := exec_notices (by simp [Op.writes])
  refine ⟨project, hbalance, ?_⟩
  unfold Mss.runCharge Mss.updateQpuUsage incrementQpuSeconds
  rw [run_bind, hread]
  dsimp only
  rw [hb.billed]
  simp only [perform_bind, call_bind, run_call, hanswer, ofExcept_ok, ret_bind, hbalance,
    sub_add_cancel]
  cases chooseQpuNotice balance (balance - c.usage) threshold with
  | none => exact ⟨rfl, by simpa [alertsOf] using hnotices⟩
  | some noticeType =>
    dsimp only
    rw [run_bind, run_notifyProject]
    exact ⟨rfl, by rw [← hnotices]; rfl⟩

theorem jobs_runCharge (c : Charge) (db : Db P) : (runCharge h threshold c db).2.jobs = db.jobs := by
  have hkeeps : ∀ o : Op, o.writes ≠ some .jobs →
      ∀ s : Db P, s.jobs = db.jobs → (exec h o s).2.jobs = db.jobs := by
    intro o ho s hs
    rw [exec_jobs ho, hs]
  unfold runCharge updateQpuUsage
  refine run_invariant (I := fun s : Db P => s.jobs = db.jobs) ?_ rfl
  refine calls_bind (calls_getJob (hkeeps _ (by simp [Op.writes]))) fun job => ?_
  refine calls_bind ?_ fun project => ?_
  · unfold incrementQpuSeconds
    cases job.projectId with
    | none => trivial
    | some pid =>
      refine calls_bind ((calls_perform _).mpr (hkeeps _ (by simp [Op.writes]))) fun r => ?_
      exact calls_ofExcept r
  · split
    · trivial
    · trivial
    · split
      · trivial
      · exact calls_bind
          (calls_notifyProject (fun _ => hkeeps _ (by simp [Op.writes])) _ _) fun _ => trivial

/-! ## What a run of charges does -/

theorem Charging.billed (hcharging : Charging pid (c :: charges) balance db) :
    ∃ job, job.jobId = c.jobId ∧ Billed db.backend pid job balance db := by
  obtain ⟨hproject, hjobs⟩ := hcharging
  obtain ⟨job, hjob, hpid⟩ := hjobs c List.mem_cons_self
  have hid : job.jobId = c.jobId := (Table.get_eq_some.mp hjob).2
  exact ⟨job, hid, rfl, hid ▸ hjob, hpid, hproject⟩

theorem Charging.runCharge (hcharging : Charging pid (c :: charges) balance db) :
    Charging pid charges (balance - c.usage) (runCharge h threshold c db).2 := by
  obtain ⟨job, hid, hb⟩ := hcharging.billed
  have hafter := @Billed.updateQpuUsage _ _ h threshold _ _ _ _ _ c.usage hb
  rw [hid] at hafter
  refine ⟨hafter.project, fun d hd => ?_⟩
  rw [jobs_runCharge]
  exact hcharging.2 d (List.mem_cons_of_mem _ hd)

theorem Charging.balanceOf_eq (hcharging : Charging pid charges balance db) :
    balanceOf pid db = some balance := by
  obtain ⟨⟨p, hp, hbalance, -⟩, -⟩ := hcharging
  rw [balanceOf, hp, Option.map_some, hbalance]

/-- The charges of a run, by the balance they start from. -/
def chargesFrom (threshold : ℚ) (balance : ℚ) : List Charge → List ChargeMade
  | [] => []
  | c :: cs =>
    { before := balance, after := balance - c.usage,
      chosen := chooseQpuNotice balance (balance - c.usage) threshold } ::
      chargesFrom threshold (balance - c.usage) cs

theorem Charging.chargesMade_eq (hcharging : Charging pid charges balance db) :
    chargesMade h threshold pid charges db = chargesFrom threshold balance charges := by
  induction charges generalizing balance db with
  | nil => rfl
  | cons c charges ih =>
    have hnext := @Charging.runCharge _ _ h threshold _ _ _ _ _ hcharging
    obtain ⟨job, hid, hb⟩ := hcharging.billed
    obtain ⟨project, hbalance, hresult, -⟩ := @Billed.runCharge _ _ h threshold _ _ _ _ _ _ hb hid
    have hchosen : chosenNotice h threshold c db =
        chooseQpuNotice balance (balance - c.usage) threshold := by
      rw [chosenNotice, hresult]
      dsimp only
      rw [hbalance, sub_add_cancel]
    rw [chargesMade, chargesFrom, ih hnext, hcharging.balanceOf_eq, hnext.balanceOf_eq, hchosen]
    rfl

theorem mem_chargesFrom {m : ChargeMade} :
    m ∈ chargesFrom threshold balance charges ↔ ∃ n < charges.length,
      m.before = balance - spent (charges.take n) ∧
      m.after = balance - spent (charges.take (n + 1)) ∧
      m.chosen = chooseQpuNotice m.before m.after threshold := by
  induction charges generalizing balance with
  | nil => simp [chargesFrom]
  | cons c charges ih =>
    have hspent : ∀ n, balance - spent ((c :: charges).take (n + 1)) =
        balance - c.usage - spent (charges.take n) := by
      intro n
      rw [List.take_succ_cons, spent]
      ring
    rw [chargesFrom, List.mem_cons, ih]
    constructor
    · rintro (rfl | ⟨n, hn, hbefore, hafter, hchosen⟩)
      · exact ⟨0, by simp, by simp [spent], by simp [spent], rfl⟩
      · refine ⟨n + 1, by simpa using hn, ?_, ?_, hchosen⟩
        · rw [hspent, hbefore]
        · rw [hspent, hafter]
    · rintro ⟨n, hn, hbefore, hafter, hchosen⟩
      cases n with
      | zero =>
        left
        obtain ⟨before, after, chosen⟩ := m
        simp only [List.take_zero, spent, sub_zero] at hbefore
        simp only [zero_add, List.take_succ_cons, List.take_zero, spent, add_zero] at hafter
        simp only at hchosen
        subst hbefore hafter hchosen
        rfl
      | succ n =>
        rw [hspent] at hbefore hafter
        exact .inr ⟨n, by simpa using hn, hbefore, hafter, hchosen⟩

theorem spent_take_mono (husage : ∀ c ∈ charges, 0 < c.usage) {m n : ℕ} (hmn : m ≤ n) :
    spent (charges.take m) ≤ spent (charges.take n) := by
  induction charges generalizing m n with
  | nil => simp [spent]
  | cons c charges ih =>
    rw [List.forall_mem_cons] at husage
    have hpos : ∀ k, 0 ≤ spent (charges.take k) := fun k => by
      simpa [spent] using ih husage.2 (Nat.zero_le k)
    obtain _ | m := m <;> obtain _ | n := n
    · exact le_rfl
    · rw [List.take_zero, List.take_succ_cons, spent, spent]
      linarith [hpos n, husage.1]
    · omega
    · rw [List.take_succ_cons, List.take_succ_cons, spent, spent]
      linarith [ih husage.2 (Nat.le_of_succ_le_succ hmn)]

theorem spent_take_lt (husage : ∀ c ∈ charges, 0 < c.usage) {n : ℕ} (hn : n < charges.length) :
    spent (charges.take n) < spent (charges.take (n + 1)) := by
  induction charges generalizing n with
  | nil => simp at hn
  | cons c charges ih =>
    rw [List.forall_mem_cons] at husage
    obtain _ | n := n
    · simpa [spent] using husage.1
    · rw [List.take_succ_cons, List.take_succ_cons, spent, spent]
      linarith [ih husage.2 (by simpa using hn)]

/-! ## What is alerted -/

section Choice

variable {before after : ℚ}

theorem chooseQpuNotice_depleted_iff :
    chooseQpuNotice before after threshold = some .qpuSecondsDepleted ↔
      0 < before ∧ after ≤ 0 := by
  unfold chooseQpuNotice
  split_ifs with hzero hlow <;> grind

theorem chooseQpuNotice_low_iff :
    chooseQpuNotice before after threshold = some .qpuSecondsLow ↔
      ¬ (0 < before ∧ after ≤ 0) ∧ threshold < before ∧ after < threshold := by
  unfold chooseQpuNotice
  split_ifs with hzero hlow <;> grind

theorem chooseQpuNotice_ne_none_iff :
    chooseQpuNotice before after threshold ≠ none ↔
      (0 < before ∧ after ≤ 0) ∨ threshold < before ∧ after < threshold := by
  unfold chooseQpuNotice
  split_ifs with hzero hlow <;> grind

end Choice

/-- **A run of charges alerts at each crossing exactly when no charge of it starts from exactly the
threshold and leaves some balance.** -/
theorem alertsAtCrossings_iff {p₀ : Project}
    (husage : ∀ c ∈ charges, 0 < c.usage)
    (hproject : KeyedStore.get db.projects pid = some p₀)
    (hname : ∀ id q, KeyedStore.get db.projects id = some q → q.name = p₀.name → id = pid)
    (hjobs : ∀ c ∈ charges, ∃ job, db.jobs.get c.jobId = some job ∧ job.projectId = some pid) :
    AlertsAtCrossings threshold (chargesMade h threshold pid charges db) ↔
      ∀ n < charges.length, p₀.qpuSeconds - spent (charges.take n) = threshold →
        p₀.qpuSeconds - spent (charges.take (n + 1)) ≤ 0 := by
  have hcharging : Charging pid charges p₀.qpuSeconds db := ⟨⟨p₀, hproject, rfl, hname⟩, hjobs⟩
  rw [hcharging.chargesMade_eq]
  constructor
  · intro halerts n hn hstart
    by_contra hleft
    rw [not_le] at hleft
    -- balances fall, so that no charge of the run jumps
    have hjumps : ∀ m ∈ chargesFrom threshold p₀.qpuSeconds charges, ¬ m.Jumps threshold := by
      rintro m hm ⟨hfrom, hto⟩
      obtain ⟨k, hk, hbefore, hafter, -⟩ := mem_chargesFrom.mp hm
      have hfalls := spent_take_lt husage hn
      obtain hlt | rfl | hgt := lt_trichotomy n k
      · linarith [spent_take_mono husage (show n + 1 ≤ k from hlt)]
      · linarith
      · linarith [spent_take_mono husage (show k + 1 ≤ n from hgt)]
    obtain ⟨m, hm, hbefore, hafter, hchosen⟩ : ∃ m ∈ chargesFrom threshold p₀.qpuSeconds charges,
        m.before = p₀.qpuSeconds - spent (charges.take n) ∧
        m.after = p₀.qpuSeconds - spent (charges.take (n + 1)) ∧
        m.chosen = chooseQpuNotice m.before m.after threshold :=
      ⟨⟨_, _, chooseQpuNotice _ _ threshold⟩, mem_chargesFrom.mpr ⟨n, hn, rfl, rfl, rfl⟩, rfl, rfl,
        rfl⟩
    rw [hstart] at hbefore
    have hlow : m.RunsLow threshold :=
      ⟨hbefore.ge, by linarith [spent_take_lt husage hn]⟩
    have hchooses := (halerts.low hjumps m hm).mpr hlow
    rw [hchosen, chooseQpuNotice_low_iff, hbefore] at hchooses
    exact lt_irrefl _ hchooses.2.1
  · intro hstarts
    refine ⟨fun m hm => ?_, fun hjumps m hm => ?_, fun m hm hchosen => ?_⟩
    · obtain ⟨n, hn, -, -, hchosen⟩ := mem_chargesFrom.mp hm
      rw [hchosen]
      exact chooseQpuNotice_depleted_iff
    · obtain ⟨n, hn, hbefore, hafter, hchosen⟩ := mem_chargesFrom.mp hm
      rw [hchosen, chooseQpuNotice_low_iff]
      constructor
      · rintro ⟨-, habove, hbelow⟩
        exact ⟨habove.le, hbelow⟩
      · rintro ⟨hfrom, hbelow⟩
        refine ⟨fun hzero => hjumps m hm ⟨hfrom, hzero.2⟩, lt_of_le_of_ne hfrom fun heq => ?_, hbelow⟩
        refine hjumps m hm ⟨hfrom, ?_⟩
        rw [hafter]
        exact hstarts n hn (by rw [← hbefore, heq])
    · obtain ⟨n, hn, -, -, hchoice⟩ := mem_chargesFrom.mp hm
      rw [hchoice] at hchosen
      obtain hzero | ⟨habove, hbelow⟩ := chooseQpuNotice_ne_none_iff.mp hchosen
      · exact .inl hzero
      · exact .inr ⟨habove.le, hbelow⟩

/-! ## Three runs of one job -/

/-- Charges of the job. -/
def labCharges (usages : List ℚ) : List Charge := usages.map (Charge.mk labJob.jobId)

/-- A run from above the threshold of 10 to zero, past both. -/
theorem alertsAtCrossings_iff_lab :
    AlertsAtCrossings 10
      (chargesMade labHost 10 labProject.id (labCharges [50, 45, 5]) (labDb .mongodb labDocuments)) :=
  (alertsAtCrossings_iff (by decide +kernel)
    (show KeyedStore.get (labDb .mongodb labDocuments).projects labProject.id = some labProject by
      decide +kernel) labDocuments_name
    (fun c hc => ⟨labJob, by
      obtain ⟨q, -, rfl⟩ := List.mem_map.mp hc
      rfl, rfl⟩)).mpr (by decide +kernel)

/-- **A run that lands on the threshold of 10** goes below it without an alert. -/
theorem lands_on_threshold :
    ¬ AlertsAtCrossings 10
      (chargesMade labHost 10 labProject.id (labCharges [90, 5]) (labDb .mongodb labDocuments)) := by
  have hmade : chargesMade labHost 10 labProject.id (labCharges [90, 5])
      (labDb .mongodb labDocuments) = [⟨100, 10, none⟩, ⟨10, 5, none⟩] := by
    decide +kernel
  intro halerts
  rw [hmade] at halerts
  have hlow := halerts.low (by simp [ChargeMade.Jumps]) ⟨10, 5, none⟩ (by simp)
  have hbelow := hlow.mpr ⟨le_rfl, by norm_num⟩
  cases hbelow

end Mss
