import Mss.Services.CalibrationUpserts

/-!
# A calibration is logged once

Any number of calls create calibrations at once, statement by statement. The log has no unique index
on the name and the time of a calibration, so two calls that send the same calibration and both look
for it before either has logged it log it twice. A calibration is logged once when no call looks for
it while another that found none of it has not logged it yet.

* `LogPhase`, `logPhase`: where a call is in its upsert of the log, told from its events.
* `LooksAlone`: the condition, as a guard on each step.
* `LoggedOnce`: one entry for each calibration sent, and one current calibration for each device.
* **`loggedOnce_of_looksAlone`**: in every interleaving whose steps meet the condition.
* `logged_twice`: two calls that look before either logs.
-/

namespace Mss.CalibrationUpserts

open Atomic Storage Prog
open Calibrations (DeviceCalibrationCreate DeviceCalibration DeviceCalibrationLog)

variable {ι : Type} [DecidableEq ι]

/-! ## Where a call is -/

/-- Where a call is in its upsert of the log. -/
inductive LogPhase
  | looking | missed | logged | told
  deriving DecidableEq

/-- Where a call is in its upsert of the current calibration. -/
inductive CurrentPhase
  | unset | held | current
  deriving DecidableEq

/-- Where the writes of a call are once it has inserted an entry. -/
def LogPhase.inserted : Backend → LogPhase
  | .sql => .logged
  | .mongodb => .told

/-- Where the writes of a call are once it has inserted a calibration. -/
def CurrentPhase.inserted : Backend → CurrentPhase
  | .sql => .held
  | .mongodb => .current

/-- **The log's upsert goes on**: it looks for an entry, inserts one if it found none, and
commits. -/
def LogPhase.next (b : Backend) (m : LogPhase) (e : Event (Resp (ι := ι))) : LogPhase :=
  match e with
  | ⟨.selectLog _ _, some _⟩ => .told
  | ⟨.selectLog _ _, none⟩ => .missed
  | ⟨.insertLog _ _, .ok _⟩ => .inserted b
  | ⟨.commit _, _⟩ => if m = .logged then .told else m
  | _ => m

/-- The upsert of the current calibration goes on: it sees one, inserts one or finds one inserted,
and commits. -/
def CurrentPhase.next (b : Backend) (m : CurrentPhase) (e : Event (Resp (ι := ι))) :
    CurrentPhase :=
  match e with
  | ⟨.selectCalibration _ _, some _⟩ => if m = .unset then .held else m
  | ⟨.updateCalibration _ _ _, some _⟩ => if m = .unset then .inserted b else m
  | ⟨.insertCalibration _ _, .ok _⟩ => .inserted b
  | ⟨.insertCalibration _ _, .error _⟩ => .current
  | ⟨.commit _, _⟩ => if m = .held then .current else m
  | _ => m

/-- Where a call is in its upsert of the log, after these events of it. -/
def logPhase (b : Backend) (events : List (Event (Resp (ι := ι)))) : LogPhase :=
  events.foldl (LogPhase.next b) .looking

/-- Where a call is in its upsert of the current calibration, after these events of it. -/
def currentPhase (b : Backend) (events : List (Event (Resp (ι := ι)))) : CurrentPhase :=
  events.foldl (CurrentPhase.next b) .unset

/-- The call has found no entry, and has not logged one for all to see. -/
def LogPhase.isOpen : LogPhase → Bool
  | .missed => true
  | .logged => true
  | _ => false

/-- A configuration of calls that create calibrations. -/
abbrev Calls (ι : Type) [DecidableEq ι] : Type :=
  Config (World ι) ι (Resp (ι := ι)) Exc DeviceCalibration

/-- Where a call is in its upsert of the log. -/
def Calls.phaseAt (c : Calls ι) (i : ι) : LogPhase :=
  logPhase c.store.backend (c.mine i)

/-! ## The condition -/

/-- Two payloads are of the same calibration. -/
def Same (p q : DeviceCalibrationCreate) : Prop :=
  p.name = q.name ∧ p.lastCalibrated = q.lastCalibrated

instance (p q : DeviceCalibrationCreate) : Decidable (Same p q) :=
  inferInstanceAs (Decidable (_ ∧ _))

/-- **The condition**: a step that looks for a calibration in the log comes while no other call that
sends the same one has found none and not logged it yet. -/
def LooksAlone (sent : ι → Sent) (c : Calls ι) (i : ι) (e : Event (Resp (ι := ι))) : Prop :=
  match e.1 with
  | .selectLog _ _ => ∀ j, j ≠ i → Same (sent j).record (sent i).record →
      (Calls.phaseAt c j).isOpen = false
  | _ => True

instance [Fintype ι] (sent : ι → Sent) (c : Calls ι) (i : ι) (e : Event (Resp (ι := ι))) :
    Decidable (LooksAlone sent c i e) := by
  unfold LooksAlone
  split <;> exact inferInstance

/-- A step of the database: one that does not have to wait. -/
def databaseStep (c : Calls ι) (_ : ι) (e : Event (Resp (ι := ι))) : Prop := Proceeds e.1 c.store

instance (c : Calls ι) (i : ι) (e : Event (Resp (ι := ι))) : Decidable (databaseStep c i e) :=
  inferInstanceAs (Decidable (Proceeds _ _))

/-! ## The property -/

/-- The entries of a calibration in the log. -/
def World.entriesOf (w : World ι) (record : DeviceCalibrationCreate) :
    List DeviceCalibrationLog :=
  w.log.filter fun r => decide (r.TellsOf record)

/-- The current calibrations of a device. -/
def World.currentOf (w : World ι) (name : String) : List DeviceCalibration :=
  w.current.filter fun c => decide (c.name = name)

/-- **A calibration is logged once**: there is never more than one entry of it, and once a call is
done there is the one it sent, and one current calibration of its device; what else is in the log
was there before. -/
structure LoggedOnce (sent : ι → Sent) (w : World ι) (c : Calls ι) : Prop where
  atMostOnce : ∀ i, (c.store.entriesOf (sent i).record).length ≤ 1
  logged : ∀ i, (c.pool i).Done → (c.store.entriesOf (sent i).record).length = 1
  current : ∀ i, (c.pool i).Done → (c.store.currentOf (sent i).record.name).length = 1
  ofSent : ∀ r ∈ c.store.log, r ∈ w.log ∨ ∃ i, r.TellsOf (sent i).record

/-- **A database before the calls**: all is committed, no two entries are of the same calibration,
and the ids generated are new. -/
structure Ready (sent : ι → Sent) (w : World ι) : Prop where
  logs : ∀ v ∈ w.logs.rows, v.writer = none
  calibrations : ∀ v ∈ w.calibrations.rows, v.writer = none
  apart : w.logs.rows.Pairwise fun v v' => ¬ Same v.row.toDeviceCalibrationCreate
    v'.row.toDeviceCalibrationCreate
  new : ∀ v ∈ w.logs.rows, ∀ i, v.row.id ≠ (sent i).logId
  distinct : Function.Injective fun i => (sent i).logId

/-- The calls at their start. -/
def startCalls (retries : Bool) (sent : ι → Sent) (w : World ι) : Calls ι :=
  Config.start w fun i => createCalibration w.backend retries i (sent i)

/-! ## The protocol of a call -/

/-- The entry that a call inserts. -/
def Sent.entry (sent : Sent) : DeviceCalibrationLog :=
  { sent.record with id := sent.logId, updatedAt := some sent.now }

/-- Where a call is in its two upserts. -/
structure Phase where
  log : LogPhase := .looking
  current : CurrentPhase := .unset

/-- **What a call does**: it looks for an entry and inserts one only if it found none, and it ends
with its entry logged and a current calibration of its device. -/
def protocol (b : Backend) (i : ι) (sent : Sent) :
    Protocol (Resp (ι := ι)) Exc DeviceCalibration Phase where
  next m e := ⟨m.log.next b e, m.current.next b e⟩
  assumes m e := match e with
    | ⟨.insertLog j row, r⟩ => j = i → m.log = .missed → row = sent.entry → r = .ok ()
    | ⟨.selectCalibration _ name, r⟩ => ∀ key ∈ r, key = name
    | ⟨.getCalibration j name, r⟩ =>
      j = i → m.current ≠ .unset → name = sent.record.name → r ≠ none
    | _ => True
  allows m e := match e.1 with
    | .selectLog j record => j = i ∧ record = sent.record ∧ m.log = .looking
    | .insertLog j row => j = i ∧ m.log = .missed ∧ row = sent.entry
    | .selectCalibration j name => j = i ∧ name = sent.record.name
    | .insertCalibration j row => j = i ∧ row.name = sent.record.name ∧ m.current = .unset
    | .updateCalibration j record _ => j = i ∧ record = sent.record
    | .getCalibration j _ => j = i
    | .commit j => j = i
  ends m _ := m.log = .told ∧ m.current = .current

section Follows

variable {b : Backend} {i : ι} {sent : Sent} {m : Phase}

theorem follows_getRecord (hlog : m.log = .told) (hcurrent : m.current ≠ .unset) :
    Follows (protocol b i sent) m (getRecord i sent.record.name) := by
  intro r hr
  refine ⟨rfl, ?_⟩
  cases r with
  | none => exact (hr rfl hcurrent rfl rfl).elim
  | some c =>
    refine fun _ _ => ⟨rfl, ?_, ?_⟩
    · simp [protocol, LogPhase.next, hlog]
    · cases hm : m.current with
      | unset => exact (hcurrent hm).elim
      | held => simp [protocol, CurrentPhase.next, hm]
      | current => simp [protocol, CurrentPhase.next, hm]

theorem follows_update_getRecord {key : String} (hkey : key = sent.record.name)
    (hlog : m.log = .told) (hcurrent : m.current ≠ .unset) :
    Follows (protocol b i sent) m (do
      let _ ← call (.updateCalibration i sent.record sent.now)
      getRecord i key) := by
  subst hkey
  refine follows_perform_bind.mpr fun r _ => ⟨⟨rfl, rfl⟩, ?_⟩
  refine follows_getRecord ?_ ?_
  · cases r <;> exact hlog
  · cases r <;> simp [protocol, CurrentPhase.next, hcurrent]

theorem follows_sqlUpsertCalibration (hlog : m.log = .told) (hcurrent : m.current = .unset) :
    Follows (protocol .sql i sent) m
      (sqlUpsertCalibration i sent.record sent.id sent.now) := by
  unfold sqlUpsertCalibration
  refine follows_perform_bind.mpr fun r hr => ⟨⟨rfl, rfl⟩, ?_⟩
  cases r with
  | some key =>
    refine follows_update_getRecord (hr key rfl) hlog ?_
    simp [protocol, CurrentPhase.next, hcurrent]
  | none =>
    refine follows_perform_bind.mpr fun inserted _ => ⟨⟨rfl, rfl, hcurrent⟩, ?_⟩
    cases inserted with
    | ok _ =>
      refine follows_getRecord hlog ?_
      simp [protocol, CurrentPhase.next, CurrentPhase.inserted]
    | error e =>
      refine follows_perform_bind.mpr fun r hr => ⟨⟨rfl, rfl⟩, ?_⟩
      cases r with
      | some key =>
        refine follows_update_getRecord (hr key rfl) hlog ?_
        simp [protocol, CurrentPhase.next]
      | none => exact ⟨hlog, rfl⟩

theorem follows_mongoUpsertCalibration (retries : Bool) (hlog : m.log = .told)
    (hcurrent : m.current = .unset) :
    Follows (protocol .mongodb i sent) m
      (mongoUpsertCalibration retries i sent.record sent.id sent.now) := by
  unfold mongoUpsertCalibration
  refine follows_perform_bind.mpr fun r _ => ⟨⟨rfl, rfl⟩, ?_⟩
  cases r with
  | some c => exact ⟨hlog, by simp [protocol, CurrentPhase.next, CurrentPhase.inserted, hcurrent]⟩
  | none =>
    refine follows_perform_bind.mpr fun inserted _ => ⟨⟨rfl, rfl, hcurrent⟩, ?_⟩
    cases inserted with
    | ok _ => exact ⟨hlog, rfl⟩
    | error e =>
      cases retries with
      | false => exact ⟨hlog, rfl⟩
      | true =>
        refine follows_perform_bind.mpr fun r _ => ⟨⟨rfl, rfl⟩, ?_⟩
        cases r with
        | some c => exact ⟨hlog, by simp [protocol, CurrentPhase.next]⟩
        | none => exact ⟨hlog, rfl⟩

theorem follows_createCalibration (b : Backend) (retries : Bool) (i : ι) (sent : Sent) :
    Follows (protocol b i sent) {} (createCalibration b retries i sent) := by
  cases b with
  | sql =>
    unfold createCalibration sqlUpsertLog
    simp only [bind_assoc]
    refine follows_perform_bind.mpr fun r _ => ⟨⟨rfl, rfl, rfl⟩, ?_⟩
    cases r with
    | some key =>
      refine follows_perform_bind.mpr fun _ _ => ⟨rfl, ?_⟩
      exact follows_sqlUpsertCalibration rfl rfl
    | none =>
      dsimp only
      simp only [bind_assoc]
      refine follows_perform_bind.mpr fun inserted hinserted => ⟨⟨rfl, rfl, rfl⟩, ?_⟩
      cases hinserted rfl rfl rfl
      refine follows_perform_bind.mpr fun _ _ => ⟨rfl, ?_⟩
      exact follows_sqlUpsertCalibration rfl rfl
  | mongodb =>
    unfold createCalibration mongoUpsertLog
    simp only [bind_assoc]
    refine follows_perform_bind.mpr fun r _ => ⟨⟨rfl, rfl, rfl⟩, ?_⟩
    cases r with
    | some key => exact follows_mongoUpsertCalibration retries rfl rfl
    | none =>
      dsimp only
      simp only [bind_assoc]
      refine follows_perform_bind.mpr fun inserted hinserted => ⟨⟨rfl, rfl, rfl⟩, ?_⟩
      cases hinserted rfl rfl rfl
      exact follows_mongoUpsertCalibration retries rfl rfl

end Follows

/-! ## The log -/

/-- What a call knows of the entries, by where it is. -/
def Knows (sent : ι → Sent) (rows : List (Version ι DeviceCalibrationLog.id)) (i : ι) :
    LogPhase → Prop
  | .looking => True
  | .missed => ∀ v ∈ rows, ¬ v.row.TellsOf (sent i).record
  | .logged => ∃ v ∈ rows, v.row.TellsOf (sent i).record ∧ v.writer = some i
  | .told => ∃ v ∈ rows, v.row.TellsOf (sent i).record ∧ v.writer = none

/-- **What holds of the log in every interleaving**: each call knows what it does by where it is, no
two calls that send the same calibration have found none at once, and what is not committed is of a
call that has inserted it. -/
structure LogsKept (sent : ι → Sent) (start rows : List (Version ι DeviceCalibrationLog.id))
    (phase : ι → LogPhase) : Prop where
  knows : ∀ i, Knows sent rows i (phase i)
  alone : ∀ i j, i ≠ j → Same (sent i).record (sent j).record →
    (phase i).isOpen = true → (phase j).isOpen = false
  inFlight : ∀ v ∈ rows, ∀ j, v.writer = some j →
    phase j = .logged ∧ v.row.TellsOf (sent j).record ∧ v.before = none
  apart : rows.Pairwise fun v v' => ¬ Same v.row.toDeviceCalibrationCreate
    v'.row.toDeviceCalibrationCreate
  origin : ∀ v ∈ rows, (∃ v₀ ∈ start, v₀.row = v.row) ∨
    ∃ j, v.row = (sent j).entry ∧ (phase j = .logged ∨ phase j = .told)

namespace LogsKept

variable {sent : ι → Sent} {start rows : List (Version ι DeviceCalibrationLog.id)}
  {phase : ι → LogPhase} {i : ι}

theorem writer_of_seenBy (hk : LogsKept sent start rows phase)
    (hi : phase i = .looking) {v : Version ι DeviceCalibrationLog.id} (hv : v ∈ rows)
    {r : DeviceCalibrationLog} (hr : v.seenBy i = some r) : v.writer = none ∧ r = v.row := by
  cases hw : v.writer with
  | none =>
    rw [Version.seenBy, if_neg (by simp [hw]), Version.committed_of_writer hw] at hr
    exact ⟨rfl, (Option.some.inj hr).symm⟩
  | some j =>
    obtain ⟨hj, -, hbefore⟩ := hk.inFlight v hv j hw
    have hne : j ≠ i := by
      rintro rfl
      rw [hi] at hj
      cases hj
    rw [Version.seenBy, if_neg (by simpa [hw] using hne), Version.committed, hw] at hr
    change v.before = some r at hr
    rw [hbefore] at hr
    cases hr

theorem move (hk : LogsKept sent start rows phase) {m : LogPhase} (hi : phase i = .looking)
    (hknows : Knows sent rows i m)
    (halone : m.isOpen = true → ∀ j, j ≠ i → Same (sent j).record (sent i).record →
      (phase j).isOpen = false) :
    LogsKept sent start rows (Function.update phase i m) where
  knows := (Function.forall_update_iff phase (Knows sent rows)).mpr
    ⟨hknows, fun j _ => hk.knows j⟩
  alone j k hjk hsame hopen := by
    by_cases hji : j = i
    · subst hji
      rw [Function.update_self] at hopen
      rw [Function.update_of_ne (Ne.symm hjk)]
      exact halone hopen k (Ne.symm hjk) ⟨hsame.1.symm, hsame.2.symm⟩
    · rw [Function.update_of_ne hji] at hopen
      by_cases hki : k = i
      · subst hki
        rw [Function.update_self]
        by_contra hm
        rw [halone (by simpa using hm) j hji hsame] at hopen
        cases hopen
      · rw [Function.update_of_ne hki]
        exact hk.alone j k hjk hsame hopen
  inFlight v hv j hw := by
    obtain ⟨hj, hrest⟩ := hk.inFlight v hv j hw
    have hji : j ≠ i := by
      rintro rfl
      rw [hi] at hj
      cases hj
    exact ⟨by rwa [Function.update_of_ne hji], hrest⟩
  apart := hk.apart
  origin v hv := by
    rcases hk.origin v hv with hstart | ⟨j, hrow, hj⟩
    · exact .inl hstart
    · have hji : j ≠ i := by
        rintro rfl
        rw [hi] at hj
        rcases hj with hj | hj <;> cases hj
      exact .inr ⟨j, hrow, by rwa [Function.update_of_ne hji]⟩

theorem find (hk : LogsKept sent start rows phase) (hi : phase i = .looking)
    (hfound : ∃ v ∈ rows, ∃ r, v.seenBy i = some r ∧ r.TellsOf (sent i).record) :
    LogsKept sent start rows (Function.update phase i .told) := by
  obtain ⟨v, hv, r, hr, htells⟩ := hfound
  obtain ⟨hw, rfl⟩ := hk.writer_of_seenBy hi hv hr
  exact hk.move hi ⟨v, hv, htells, hw⟩ fun hopen => by cases hopen

/-- **A call that looks alone and finds none** knows that there is none, committed or not. -/
theorem miss (hk : LogsKept sent start rows phase) (hi : phase i = .looking)
    (hnone : ∀ v ∈ rows, ∀ r, v.seenBy i = some r → ¬ r.TellsOf (sent i).record)
    (halone : ∀ j, j ≠ i → Same (sent j).record (sent i).record → (phase j).isOpen = false) :
    LogsKept sent start rows (Function.update phase i .missed) := by
  refine hk.move hi (fun v hv htells => ?_) fun _ => halone
  cases hw : v.writer with
  | none =>
    have hseen : v.seenBy i = some v.row :=
      (if_neg (by simp [hw])).trans (Version.committed_of_writer hw)
    exact hnone v hv v.row hseen htells
  | some j =>
    obtain ⟨hj, htells', -⟩ := hk.inFlight v hv j hw
    have hji : j ≠ i := by
      rintro rfl
      rw [hi] at hj
      cases hj
    have hopen := halone j hji ⟨htells'.1.symm.trans htells.1, htells'.2.symm.trans htells.2⟩
    rw [hj] at hopen
    cases hopen

theorem insert (hk : LogsKept sent start rows phase) (hi : phase i = .missed) (b : Backend) :
    LogsKept sent start (rows ++ [{ row := (sent i).entry, writer := writerOf b i }])
      (Function.update phase i (.inserted b)) where
  knows := by
    refine (Function.forall_update_iff phase (Knows sent _)).mpr ⟨?_, fun j hji => ?_⟩
    · cases b with
      | sql => exact ⟨_, List.mem_append_right _ (List.mem_singleton_self _), ⟨rfl, rfl⟩, rfl⟩
      | mongodb => exact ⟨_, List.mem_append_right _ (List.mem_singleton_self _), ⟨rfl, rfl⟩, rfl⟩
    · have hj := hk.knows j
      cases hphase : phase j with
      | looking => trivial
      | missed =>
        rw [hphase] at hj
        intro v hv
        rcases List.mem_append.mp hv with hv | hv
        · exact hj v hv
        · rw [List.mem_singleton.mp hv]
          rintro ⟨hname, htime⟩
          have hopen := hk.alone i j (Ne.symm hji) ⟨hname, htime⟩ (by rw [hi]; rfl)
          rw [hphase] at hopen
          cases hopen
      | logged =>
        rw [hphase] at hj
        obtain ⟨v, hv, hrest⟩ := hj
        exact ⟨v, List.mem_append_left _ hv, hrest⟩
      | told =>
        rw [hphase] at hj
        obtain ⟨v, hv, hrest⟩ := hj
        exact ⟨v, List.mem_append_left _ hv, hrest⟩
  alone j k hjk hsame hopen := by
    have hopeni : (phase i).isOpen = true := by rw [hi]; rfl
    -- the call that inserts is the only one that was open
    by_cases hji : j = i
    · subst hji
      rw [Function.update_of_ne (Ne.symm hjk)]
      exact hk.alone j k hjk hsame hopeni
    · rw [Function.update_of_ne hji] at hopen
      by_cases hki : k = i
      · subst hki
        rw [hk.alone k j (Ne.symm hjk) ⟨hsame.1.symm, hsame.2.symm⟩ hopeni] at hopen
        cases hopen
      · rw [Function.update_of_ne hki]
        exact hk.alone j k hjk hsame hopen
  inFlight v hv j hw := by
    rcases List.mem_append.mp hv with hv | hv
    · obtain ⟨hj, hrest⟩ := hk.inFlight v hv j hw
      have hji : j ≠ i := by
        rintro rfl
        rw [hi] at hj
        cases hj
      exact ⟨by rwa [Function.update_of_ne hji], hrest⟩
    · rw [List.mem_singleton.mp hv] at hw ⊢
      cases b with
      | sql =>
        cases hw
        exact ⟨Function.update_self .., ⟨rfl, rfl⟩, rfl⟩
      | mongodb => cases hw
  apart := by
    refine List.pairwise_append.mpr ⟨hk.apart, List.pairwise_singleton _ _, fun v hv v' hv' => ?_⟩
    have hnone := hk.knows i
    rw [hi] at hnone
    rw [List.mem_singleton.mp hv']
    exact hnone v hv
  origin v hv := by
    rcases List.mem_append.mp hv with hv | hv
    · rcases hk.origin v hv with hstart | ⟨j, hrow, hj⟩
      · exact .inl hstart
      · have hji : j ≠ i := by
          rintro rfl
          rw [hi] at hj
          rcases hj with hj | hj <;> cases hj
        exact .inr ⟨j, hrow, by rwa [Function.update_of_ne hji]⟩
    · rw [List.mem_singleton.mp hv]
      refine .inr ⟨i, rfl, ?_⟩
      rw [Function.update_self]
      cases b with
      | sql => exact .inl rfl
      | mongodb => exact .inr rfl

/-- The phase of a call that commits. -/
def commitPhase (m : LogPhase) : LogPhase := if m = .logged then .told else m

theorem isOpen_commitPhase {m : LogPhase} (h : (commitPhase m).isOpen = true) : m.isOpen = true := by
  cases m <;> simp_all [commitPhase, LogPhase.isOpen]

theorem knows_commit {j : ι} {m : LogPhase} (h : Knows sent rows j m) :
    Knows sent (rows.map (Version.commit i)) j (if j = i then commitPhase m else m) := by
  have hthere : ∀ w, (∃ v ∈ rows, v.row.TellsOf (sent j).record ∧ v.writer = w) →
      ∃ v ∈ rows.map (Version.commit i), v.row.TellsOf (sent j).record ∧
        v.writer = if w = some i then none else w := by
    rintro w ⟨v, hv, htells, rfl⟩
    exact ⟨_, List.mem_map_of_mem hv, by rwa [Version.commit_row], Version.commit_writer⟩
  cases m with
  | looking => split_ifs <;> trivial
  | missed =>
    have hmissed : Knows sent (rows.map (Version.commit i)) j .missed := by
      intro v hv
      obtain ⟨q, hq, rfl⟩ := List.mem_map.mp hv
      rw [Version.commit_row]
      exact h q hq
    split_ifs <;> exact hmissed
  | logged =>
    have hlogged := hthere _ h
    split_ifs with hji
    · rwa [if_pos (congrArg some hji)] at hlogged
    · rwa [if_neg (by simpa using hji)] at hlogged
  | told =>
    have htold := hthere _ h
    rw [if_neg (by simp)] at htold
    split_ifs <;> exact htold

theorem commit (hk : LogsKept sent start rows phase) (i : ι) :
    LogsKept sent start (rows.map (Version.commit i))
      (Function.update phase i (commitPhase (phase i))) where
  knows := by
    refine (Function.forall_update_iff phase (Knows sent _)).mpr ⟨?_, fun j hji => ?_⟩
    · have hi := knows_commit (i := i) (hk.knows i)
      rwa [if_pos rfl] at hi
    · have hj := knows_commit (i := i) (hk.knows j)
      rwa [if_neg hji] at hj
  alone j k hjk hsame hopen := by
    have hmono : ∀ l, (Function.update phase i (commitPhase (phase i)) l).isOpen = true →
        (phase l).isOpen = true := by
      refine (Function.forall_update_iff phase
        fun l m => m.isOpen = true → (phase l).isOpen = true).mpr ⟨isOpen_commitPhase, ?_⟩
      exact fun l _ h => h
    by_contra hk'
    have := hk.alone j k hjk hsame (hmono j hopen)
    rw [hmono k (by simpa using hk')] at this
    cases this
  inFlight v hv j hw := by
    obtain ⟨q, hq, rfl⟩ := List.mem_map.mp hv
    rw [Version.commit_writer] at hw
    split_ifs at hw with hwi
    obtain ⟨hj, htells, hbefore⟩ := hk.inFlight q hq j hw
    have hji : j ≠ i := by
      rintro rfl
      exact hwi hw
    refine ⟨by rwa [Function.update_of_ne hji], by rwa [Version.commit_row], ?_⟩
    rw [Version.commit, if_neg hwi]
    exact hbefore
  apart := by
    refine List.pairwise_map.mpr (hk.apart.imp fun h => ?_)
    simpa only [Version.commit_row] using h
  origin v hv := by
    obtain ⟨q, hq, rfl⟩ := List.mem_map.mp hv
    rw [Version.commit_row]
    rcases hk.origin q hq with hstart | ⟨j, hrow, hj⟩
    · exact .inl hstart
    · refine .inr ⟨j, hrow, ?_⟩
      by_cases hji : j = i
      · subst hji
        rw [Function.update_self]
        rcases hj with hj | hj <;> exact .inr (by simp [commitPhase, hj])
      · rwa [Function.update_of_ne hji]

end LogsKept

/-! ## The current calibrations -/

/-- The device has a current calibration for all to see. -/
def World.HasCurrent (w : World ι) (name : String) : Prop :=
  ∃ v, w.calibrations.get name = some v ∧ v.committed.isSome = true

theorem isSome_sees_iff {w : World ι} {i : ι} {name : String} :
    (w.sees i name).isSome = true ↔
      ∃ v, w.calibrations.get name = some v ∧ (v.seenBy i).isSome = true := by
  unfold World.sees
  cases w.calibrations.get name <;> simp

theorem World.HasCurrent.sees {w : World ι} {name : String} (h : w.HasCurrent name) (i : ι) :
    (w.sees i name).isSome = true := by
  obtain ⟨v, hv, hc⟩ := h
  exact isSome_sees_iff.mpr ⟨v, hv, Version.isSome_seenBy hc⟩

omit [DecidableEq ι] in
theorem writerOf_eq {b : Backend} {i k : ι} (h : writerOf b i = some k) : k = i := by
  cases b with
  | sql => exact (Option.some.inj h).symm
  | mongodb => cases h

section Ops

variable {o : Op ι} {w : World ι} {i : ι} {name : String}

@[simp] theorem exec_backend : (exec o w).2.backend = w.backend := by
  cases o with
  | insertLog j row =>
    unfold exec
    dsimp only
    split <;> rfl
  | insertCalibration j row =>
    unfold exec
    dsimp only
    split <;> rfl
  | _ => rfl

/-- **What a statement does to a row that is there**: nothing, an update of what its call sees, or a
commit. -/
theorem exec_get {v : Version ι nameOf} (hv : w.calibrations.get name = some v) :
    ∃ v', (exec o w).2.calibrations.get name = some v' ∧
      (v' = v ∨ (∃ writer j f hf, (∀ k ∈ writer, k = j) ∧ v' = v.update writer j f hf) ∨
        ∃ j, v' = v.commit j) := by
  cases o with
  | insertLog j row =>
    refine ⟨v, ?_, .inl rfl⟩
    unfold exec
    dsimp only
    split <;> exact hv
  | insertCalibration j row =>
    refine ⟨v, ?_, .inl rfl⟩
    unfold exec
    dsimp only
    split
    · next calibrations hinsert =>
      refine (Table.get_insert? hinsert name).trans ?_
      rw [if_neg, hv]
      rintro rfl
      rw [Table.get_of_insert? hinsert] at hv
      cases hv
    · exact hv
  | updateCalibration j record now =>
    have hmodify := Table.get_modify w.calibrations record.name
      (Version.update (writerOf w.backend j) j (.apply record now) fun _ => rfl)
      (fun _ => Version.key_update) name
    by_cases hname : name = record.name
    · subst hname
      rw [if_pos rfl, hv] at hmodify
      exact ⟨_, hmodify, .inr (.inl ⟨_, j, _, _, fun k hk => writerOf_eq hk, rfl⟩)⟩
    · rw [if_neg hname, hv] at hmodify
      exact ⟨v, hmodify, .inl rfl⟩
  | commit j =>
    have hmap := Table.get_mapRows w.calibrations (Version.commit j)
      (fun v => by rw [Version.commit_row]) name
    rw [hv] at hmap
    exact ⟨_, hmap, .inr (.inr ⟨j, rfl⟩)⟩
  | _ => exact ⟨v, hv, .inl rfl⟩

theorem sees_exec (h : (w.sees i name).isSome = true) :
    ((exec o w).2.sees i name).isSome = true := by
  obtain ⟨v, hv, hseen⟩ := isSome_sees_iff.mp h
  obtain ⟨v', hv', rfl | ⟨writer, j, f, hf, hwriter, rfl⟩ | ⟨j, rfl⟩⟩ := exec_get (o := o) hv
  · exact isSome_sees_iff.mpr ⟨v', hv', hseen⟩
  · exact isSome_sees_iff.mpr ⟨_, hv', Version.isSome_seenBy_update hwriter hseen⟩
  · exact isSome_sees_iff.mpr ⟨_, hv', Version.isSome_seenBy_commit hseen⟩

/-- **A device that has a current calibration has one after any statement.** -/
theorem World.HasCurrent.exec (h : w.HasCurrent name) : (exec o w).2.HasCurrent name := by
  obtain ⟨v, hv, hc⟩ := h
  obtain ⟨v', hv', rfl | ⟨writer, j, f, hf, hwriter, rfl⟩ | ⟨j, rfl⟩⟩ := exec_get (o := o) hv
  · exact ⟨v', hv', hc⟩
  · exact ⟨_, hv', Version.isSome_committed_update hc⟩
  · exact ⟨_, hv', Version.isSome_committed_of_commit hc⟩

theorem writer_exec {v : Version ι nameOf} {k : ι}
    (hv : v ∈ (exec o w).2.calibrations.rows) (hk : v.writer = some k) :
    (∃ q ∈ w.calibrations.rows, q.writer = some k ∧ o ≠ .commit k) ∨
      (∃ row, o = .insertCalibration k row ∧ (exec (.insertCalibration k row) w).1 = .ok ()) ∨
      ∃ record now, o = .updateCalibration k record now ∧
        (w.sees k record.name).isSome = true := by
  cases o with
  | insertLog j row =>
    left
    unfold exec at hv
    dsimp only at hv
    split at hv <;> exact ⟨v, hv, hk, by simp⟩
  | insertCalibration j row =>
    unfold exec at hv
    dsimp only at hv
    split at hv
    · next calibrations hinsert =>
      change v ∈ calibrations.rows at hv
      rw [Table.rows_insert? hinsert, List.mem_append, List.mem_singleton] at hv
      rcases hv with hv | rfl
      · exact .inl ⟨v, hv, hk, by simp⟩
      · have hkj : k = j := writerOf_eq hk
        subst hkj
        refine .inr (.inl ⟨row, rfl, ?_⟩)
        simp [exec, hinsert]
    · exact .inl ⟨v, hv, hk, by simp⟩
  | updateCalibration j record now =>
    obtain ⟨q, hq, hqv⟩ := List.mem_map.mp hv
    split_ifs at hqv with hname
    · cases hseen : q.seenBy j with
      | none =>
        have hsame : v = q := by
          rw [← hqv]
          unfold Version.update
          split
          · next r hr => simp [hseen] at hr
          · rfl
        subst hsame
        exact .inl ⟨v, hq, hk, by simp⟩
      | some r =>
        have hwriter : v.writer = writerOf w.backend j := by
          rw [← hqv]
          unfold Version.update
          split
          · rfl
          · next hr => simp [hseen] at hr
        have hkj : k = j := writerOf_eq (hwriter.symm.trans hk)
        subst hkj
        refine .inr (.inr ⟨record, now, rfl, isSome_sees_iff.mpr ⟨q, ?_, by simp [hseen]⟩⟩)
        exact Table.get_eq_some.mpr ⟨hq, hname⟩
    · subst hqv
      exact .inl ⟨q, hq, hk, by simp⟩
  | commit j =>
    obtain ⟨q, hq, rfl⟩ := List.mem_map.mp hv
    rw [Version.commit_writer] at hk
    split_ifs at hk with hqj
    refine .inl ⟨q, hq, hk, ?_⟩
    rintro hcommit
    cases hcommit
    exact hqj hk
  | _ => exact .inl ⟨v, hv, hk, by simp⟩

theorem exec_insert_error {row : DeviceCalibration} {e : Exc}
    (hp : Proceeds (.insertCalibration i row) w)
    (herror : (exec (.insertCalibration i row) w).1 = .error e) :
    w.HasCurrent row.name ∨ ∃ v ∈ w.calibrations.rows, v.writer = some i := by
  unfold exec at herror
  dsimp only at herror
  split at herror
  · cases herror
  · next hinsert =>
    cases hget : w.calibrations.get row.name with
    | none => exact (Table.get_ne_none_of_insert? hinsert hget).elim
    | some v =>
      have hmine := hp v hget
      cases hw : v.writer with
      | none => exact .inl ⟨v, hget, by rw [Version.committed_of_writer hw]; rfl⟩
      | some j =>
        rw [isOthers, hw] at hmine
        have hji : j = i := by simpa using hmine
        exact .inr ⟨v, (Table.get_eq_some.mp hget).1, hji ▸ hw⟩

end Ops

/-- **What holds of the current calibrations in every interleaving**: who has found or inserted one
sees it, it is there for all when that has committed, and what is not committed is of such a
call. -/
structure CurrentKept (sent : ι → Sent) (w : World ι) (phase : ι → CurrentPhase) : Prop where
  held : ∀ i, phase i ≠ .unset → (w.sees i (sent i).record.name).isSome = true
  current : ∀ i, phase i = .current → w.HasCurrent (sent i).record.name
  own : ∀ v ∈ w.calibrations.rows, ∀ i, v.writer = some i → phase i ≠ .unset

namespace CurrentKept

variable {sent : ι → Sent} {w : World ι} {phase : ι → CurrentPhase} {i : ι}
  {e : Event (Resp (ι := ι))} {m : CurrentPhase}

theorem inserted_ne_unset (b : Backend) : CurrentPhase.inserted b ≠ .unset := by
  cases b <;> simp [CurrentPhase.inserted]

omit [DecidableEq ι] in
theorem next_ne_unset (b : Backend) (h : m ≠ .unset) : m.next b e ≠ .unset := by
  unfold CurrentPhase.next
  split
  · rwa [if_neg h]
  · rwa [if_neg h]
  · exact inserted_ne_unset b
  · simp
  · split_ifs
    · simp
    · exact h
  · exact h

theorem there_of_writer {v : Version ι nameOf} {name : String} (b : Backend)
    (hv : w.calibrations.get name = some v) (hw : v.writer = writerOf b i) :
    (w.sees i name).isSome = true ∧
      (CurrentPhase.inserted b = .current → w.HasCurrent name) := by
  cases b with
  | sql =>
    refine ⟨isSome_sees_iff.mpr ⟨v, hv, Version.isSome_seenBy_iff.mpr (.inl hw)⟩, fun h => ?_⟩
    cases h
  | mongodb =>
    have hc : w.HasCurrent name := ⟨v, hv, by rw [Version.committed_of_writer hw]; rfl⟩
    exact ⟨hc.sees i, fun _ => hc⟩

/-- **What a call comes to hold is there**, and is there for all when it is current. -/
theorem step_self (hk : CurrentKept sent w phase) {M : Phase} (hM : M.current = phase i)
    (hallow : (protocol w.backend i (sent i)).allows M e) (hp : Proceeds e.1 w)
    (hresp : (exec e.1 w).1 = e.2) :
    ((phase i).next w.backend e ≠ .unset →
      ((exec e.1 w).2.sees i (sent i).record.name).isSome = true) ∧
    ((phase i).next w.backend e = .current → (exec e.1 w).2.HasCurrent (sent i).record.name) := by
  -- an event that leaves the phase leaves what the call sees
  have hsame : (phase i).next w.backend e = phase i →
      ((phase i).next w.backend e ≠ .unset →
        ((exec e.1 w).2.sees i (sent i).record.name).isSome = true) ∧
      ((phase i).next w.backend e = .current →
        (exec e.1 w).2.HasCurrent (sent i).record.name) := by
    intro h
    rw [h]
    exact ⟨fun hne => sees_exec (hk.held i hne), fun hc => (hk.current i hc).exec⟩
  rcases e with ⟨o, r⟩
  cases o with
  | selectCalibration j name =>
    obtain ⟨rfl, rfl⟩ := hallow
    cases r with
    | none => exact hsame rfl
    | some key =>
      by_cases hphase : phase j = .unset
      · have hseen : (w.sees j (sent j).record.name).isSome = true := by
          have := congrArg Option.isSome hresp
          simpa [exec] using this
        refine ⟨fun _ => sees_exec hseen, fun hc => ?_⟩
        rw [CurrentPhase.next, if_pos hphase] at hc
        cases hc
      · exact hsame (if_neg hphase)
  | insertCalibration j row =>
    obtain ⟨rfl, hname, hunset⟩ := hallow
    rw [hM] at hunset
    cases r with
    | ok _ =>
      have hthere : ∃ v, (exec (.insertCalibration j row) w).2.calibrations.get
          (sent j).record.name = some v ∧ v.writer = writerOf w.backend j := by
        unfold exec at hresp ⊢
        dsimp only at hresp ⊢
        split at hresp
        · next calibrations hinsert =>
          exact ⟨_, (Table.get_insert? hinsert _).trans (if_pos hname.symm), rfl⟩
        · cases hresp
      obtain ⟨v, hv, hw⟩ := hthere
      have hthere := there_of_writer w.backend hv hw
      exact ⟨fun _ => hthere.1, hthere.2⟩
    | error err =>
      have hc : w.HasCurrent (sent j).record.name := by
        rcases exec_insert_error hp hresp with hc | ⟨v, hv, hw⟩
        · rwa [hname] at hc
        · exact (hk.own v hv j hw hunset).elim
      exact ⟨fun _ => hc.exec.sees j, fun _ => hc.exec⟩
  | updateCalibration j record now =>
    obtain ⟨rfl, rfl⟩ := hallow
    cases r with
    | none => exact hsame rfl
    | some c =>
      by_cases hphase : phase j = .unset
      · have hseen : (w.sees j (sent j).record.name).isSome = true := by
          have := congrArg Option.isSome hresp
          simpa [exec] using this
        obtain ⟨v, hv, hr⟩ := isSome_sees_iff.mp hseen
        have hthere : ∃ v, (exec (.updateCalibration j (sent j).record now) w).2.calibrations.get
            (sent j).record.name = some v ∧ v.writer = writerOf w.backend j := by
          have hmodify := Table.get_modify w.calibrations (sent j).record.name
            (Version.update (writerOf w.backend j) j (.apply (sent j).record now) fun _ => rfl)
            (fun _ => Version.key_update) (sent j).record.name
          rw [if_pos rfl, hv] at hmodify
          refine ⟨_, hmodify, ?_⟩
          unfold Version.update
          split
          · rfl
          · next hnone => simp [hnone] at hr
        obtain ⟨v', hv', hw⟩ := hthere
        have hthere := there_of_writer w.backend hv' hw
        refine ⟨fun _ => hthere.1, fun hc => hthere.2 ?_⟩
        rwa [CurrentPhase.next, if_pos hphase] at hc
      · exact hsame (if_neg hphase)
  | commit j =>
    -- a commit makes what the call holds there for all
    have hj : j = i := hallow
    subst hj
    by_cases hphase : phase j = .held
    · have hseen := hk.held j (by simp [hphase])
      refine ⟨fun _ => sees_exec hseen, fun _ => ?_⟩
      obtain ⟨v, hv, hr⟩ := isSome_sees_iff.mp hseen
      have hmap := Table.get_mapRows w.calibrations (Version.commit j)
        (fun v => by rw [Version.commit_row]) (sent j).record.name
      rw [hv] at hmap
      exact ⟨_, hmap, Version.isSome_committed_commit hr⟩
    · exact hsame (if_neg hphase)
  | selectLog _ _ => exact hsame rfl
  | insertLog _ _ => exact hsame rfl
  | getCalibration _ _ => exact hsame rfl

/-- **One statement keeps what holds of the current calibrations.** -/
theorem step (hk : CurrentKept sent w phase) {M : Phase} (hM : M.current = phase i)
    (hallow : (protocol w.backend i (sent i)).allows M e) (hp : Proceeds e.1 w)
    (hresp : (exec e.1 w).1 = e.2) :
    CurrentKept sent (exec e.1 w).2
      (Function.update phase i ((phase i).next w.backend e)) where
  held := (Function.forall_update_iff phase fun j m => m ≠ .unset →
      ((exec e.1 w).2.sees j (sent j).record.name).isSome = true).mpr
    ⟨(hk.step_self hM hallow hp hresp).1, fun j _ hj => sees_exec (hk.held j hj)⟩
  current := (Function.forall_update_iff phase fun j m => m = .current →
      (exec e.1 w).2.HasCurrent (sent j).record.name).mpr
    ⟨(hk.step_self hM hallow hp hresp).2, fun j _ hj => (hk.current j hj).exec⟩
  own v hv k hw := by
    have hstays : phase k ≠ .unset →
        Function.update phase i ((phase i).next w.backend e) k ≠ .unset := by
      intro hne
      by_cases hki : k = i
      · subst hki
        rw [Function.update_self]
        exact next_ne_unset w.backend hne
      · rwa [Function.update_of_ne hki]
    rcases e with ⟨o, r⟩
    rcases writer_exec hv hw with ⟨q, hq, hqw, -⟩ | ⟨row, ho, hok⟩ | ⟨record, now, ho, hseen⟩
    · exact hstays (hk.own q hq k hqw)
    · cases ho
      obtain ⟨rfl, -⟩ := hallow
      have hr : r = .ok () := hresp.symm.trans hok
      subst hr
      rw [Function.update_self]
      exact inserted_ne_unset _
    · cases ho
      obtain ⟨rfl, rfl⟩ := hallow
      rw [Function.update_self]
      cases r with
      | none =>
        have := congrArg Option.isSome hresp
        simp [exec, Option.isSome_iff_ne_none.mp hseen] at this
      | some c =>
        by_cases hphase : phase k = .unset
        · rw [CurrentPhase.next, if_pos hphase]
          exact inserted_ne_unset _
        · exact next_ne_unset w.backend hphase

end CurrentKept

/-! ## The interleaving -/

/-- Where a call is in its upsert of the current calibration. -/
def Calls.currentAt (c : Calls ι) (i : ι) : CurrentPhase :=
  currentPhase c.store.backend (c.mine i)

section Interleaving

variable {sent : ι → Sent} {w : World ι} {c c' : Calls ι} {i : ι} {e : Event (Resp (ι := ι))}

theorem phase_eq (b : Backend) (hb : c.store.backend = b) (j : ι) :
    c.phase (fun i => protocol b i (sent i)) (fun _ => {}) j = ⟨c.phaseAt j, c.currentAt j⟩ := by
  subst hb
  have hfold : ∀ (events : List (Event (Resp (ι := ι)))) (m : Phase),
      events.foldl (protocol c.store.backend j (sent j)).next m =
        ⟨events.foldl (LogPhase.next c.store.backend) m.log,
          events.foldl (CurrentPhase.next c.store.backend) m.current⟩ := by
    intro events
    induction events with
    | nil => exact fun m => rfl
    | cons e events ih => exact fun m => ih _
  exact hfold (c.mine j) {}

theorem phaseAt_step (hs : StepBy exec i e c c') :
    c'.phaseAt = Function.update c.phaseAt i ((c.phaseAt i).next c.store.backend e) := by
  funext j
  have hb : c'.store.backend = c.store.backend := by rw [hs.store, exec_backend]
  unfold Calls.phaseAt
  rw [hb]
  by_cases hji : j = i
  · subst hji
    rw [Function.update_self, hs.mine_self, logPhase, List.foldl_append]
    rfl
  · rw [Function.update_of_ne hji, hs.mine_ne hji]

theorem currentAt_step (hs : StepBy exec i e c c') :
    c'.currentAt = Function.update c.currentAt i ((c.currentAt i).next c.store.backend e) := by
  funext j
  have hb : c'.store.backend = c.store.backend := by rw [hs.store, exec_backend]
  unfold Calls.currentAt
  rw [hb]
  by_cases hji : j = i
  · subst hji
    rw [Function.update_self, hs.mine_self, currentPhase, List.foldl_append]
    rfl
  · rw [Function.update_of_ne hji, hs.mine_ne hji]

/-- **What holds in every interleaving.** -/
structure Kept (sent : ι → Sent) (w : World ι) (c : Calls ι) : Prop where
  backend : c.store.backend = w.backend
  logs : LogsKept sent w.logs.rows c.store.logs.rows c.phaseAt
  current : CurrentKept sent c.store c.currentAt

omit [DecidableEq ι] in
theorem LogsKept.id_free (hready : Ready sent w)
    {rows : List (Version ι DeviceCalibrationLog.id)} {phase : ι → LogPhase}
    (hk : LogsKept sent w.logs.rows rows phase) (hi : phase i = .missed) :
    ∀ v ∈ rows, v.row.id ≠ (sent i).logId := by
  intro v hv hid
  rcases hk.origin v hv with ⟨v₀, hv₀, hrow⟩ | ⟨j, hrow, hj⟩
  · rw [← hrow] at hid
    exact hready.new v₀ hv₀ i hid
  · rw [hrow] at hid
    have hji : j = i := hready.distinct hid
    rw [hji, hi] at hj
    rcases hj with hj | hj <;> cases hj

theorem Kept.assumes (hready : Ready sent w) (hk : Kept sent w c) (hs : StepBy exec i e c c') :
    (protocol w.backend i (sent i)).assumes ⟨c.phaseAt i, c.currentAt i⟩ e := by
  have hresp := hs.resp
  rcases e with ⟨o, r⟩
  cases o with
  | insertLog j row =>
    rintro rfl hmissed rfl
    unfold exec at hresp
    dsimp only at hresp
    split at hresp
    · exact hresp.symm
    · next hinsert =>
      obtain ⟨v, hv⟩ := Option.ne_none_iff_exists'.mp (Table.get_ne_none_of_insert? hinsert)
      obtain ⟨hmem, hid⟩ := Table.get_eq_some.mp hv
      exact (hk.logs.id_free hready hmissed v hmem hid).elim
  | selectCalibration j name =>
    intro key hkey
    have hsees : (c.store.sees j name).map (·.name) = some key := hresp.trans hkey
    obtain ⟨r, hr, rfl⟩ := Option.map_eq_some_iff.mp hsees
    obtain ⟨v, hv, hseen⟩ := Option.bind_eq_some_iff.mp hr
    have hname : nameOf v.row = name := (Table.get_eq_some.mp hv).2
    exact (Version.key_seenBy hseen).trans hname
  | getCalibration j name =>
    rintro rfl hcurrent rfl hnone
    have hsees : c.store.sees j (sent j).record.name = none := hresp.trans hnone
    have hheld := hk.current.held j hcurrent
    rw [hsees] at hheld
    cases hheld
  | _ => trivial

/-- **One step keeps what holds of the log** if its call looks alone. -/
theorem Kept.logs_step (hk : Kept sent w c)
    (hallow : (protocol w.backend i (sent i)).allows ⟨c.phaseAt i, c.currentAt i⟩ e)
    (halone : LooksAlone sent c i e) (hs : StepBy exec i e c c') :
    LogsKept sent w.logs.rows c'.store.logs.rows c'.phaseAt := by
  have hresp := hs.resp
  rw [phaseAt_step hs, hs.store]
  have hsame : (c.phaseAt i).next c.store.backend e = c.phaseAt i →
      (exec e.1 c.store).2.logs = c.store.logs → LogsKept sent w.logs.rows
        (exec e.1 c.store).2.logs.rows
        (Function.update c.phaseAt i ((c.phaseAt i).next c.store.backend e)) := by
    intro hphase hlogs
    rw [hphase, hlogs, Function.update_eq_self]
    exact hk.logs
  rcases e with ⟨o, r⟩
  cases o with
  | selectLog j record =>
    obtain ⟨rfl, rfl, hlooking⟩ := hallow
    cases r with
    | some key =>
      refine hk.logs.find hlooking ?_
      obtain ⟨r, hr, -⟩ := Option.map_eq_some_iff.mp hresp
      obtain ⟨v, hv, hseen⟩ := List.mem_filterMap.mp (List.mem_of_find?_eq_some hr)
      exact ⟨v, hv, r, hseen, by simpa using List.find?_some hr⟩
    | none =>
      refine hk.logs.miss hlooking (fun v hv r hseen => ?_) halone
      have hnone := List.find?_eq_none.mp (Option.map_eq_none_iff.mp hresp) r
        (List.mem_filterMap.mpr ⟨v, hv, hseen⟩)
      simpa using hnone
  | insertLog j row =>
    obtain ⟨rfl, hmissed, rfl⟩ := hallow
    cases r with
    | ok _ =>
      have hrows : (exec (.insertLog j (sent j).entry) c.store).2.logs.rows = c.store.logs.rows ++
          [{ row := (sent j).entry, writer := writerOf c.store.backend j }] := by
        unfold exec at hresp ⊢
        dsimp only at hresp ⊢
        split at hresp
        · next logs hinsert => exact Table.rows_insert? hinsert
        · cases hresp
      rw [hrows]
      exact hk.logs.insert hmissed c.store.backend
    | error err =>
      refine hsame rfl ?_
      unfold exec at hresp ⊢
      dsimp only at hresp ⊢
      split at hresp
      · cases hresp
      · rfl
  | insertCalibration j row =>
    refine hsame rfl ?_
    unfold exec
    dsimp only
    split <;> rfl
  | commit j =>
    have hj : j = i := hallow
    subst hj
    exact hk.logs.commit j
  | _ => exact hsame rfl rfl

theorem Kept.start (hready : Ready sent w) (retries : Bool) :
    Kept sent w (startCalls retries sent w) where
  backend := rfl
  logs :=
    { knows := fun _ => trivial
      alone := fun _ _ _ _ hopen => by cases hopen
      inFlight := fun v hv j hw => by rw [hready.logs v hv] at hw; cases hw
      apart := hready.apart
      origin := fun v hv => .inl ⟨v, hv, rfl⟩ }
  current :=
    { held := fun _ h => (h rfl).elim
      current := fun _ h => by cases h
      own := fun v hv j hw => by rw [hready.calibrations v hv] at hw; cases hw }

/-- **Every interleaving whose steps meet the condition keeps the log**, and every call in it
follows its protocol. -/
theorem kept_of_reach (hready : Ready sent w) {retries : Bool}
    (hr : Reach exec (fun c i e => databaseStep c i e ∧ LooksAlone sent c i e)
      (startCalls retries sent w) c) :
    Following (fun i => protocol w.backend i (sent i)) (fun _ => {}) c ∧ Kept sent w c := by
  refine hr.invariant _ _ (Kept sent w)
    (fun i => follows_createCalibration w.backend retries i (sent i)) (Kept.start hready retries)
    ?_ ?_
  · intro c i e c' _ hk _ hs
    rw [phase_eq w.backend hk.backend]
    exact hk.assumes hready hs
  · intro c i e c' _ _ hk hguard hs hallow
    rw [phase_eq w.backend hk.backend] at hallow
    refine ⟨by rw [hs.store, exec_backend, hk.backend], hk.logs_step hallow hguard.2 hs, ?_⟩
    rw [hs.store, currentAt_step hs]
    rw [← hk.backend] at hallow
    exact hk.current.step rfl hallow hguard.1 hs.resp

omit [DecidableEq ι] in
theorem LogsKept.row_of_committed {start rows : List (Version ι DeviceCalibrationLog.id)}
    {phase : ι → LogPhase} (hk : LogsKept sent start rows phase)
    {v : Version ι DeviceCalibrationLog.id} (hv : v ∈ rows) {r : DeviceCalibrationLog}
    (hr : v.committed = some r) : r = v.row := by
  unfold Version.committed at hr
  split at hr
  · exact (Option.some.inj hr).symm
  · next j hw =>
    rw [(hk.inFlight v hv j hw).2.2] at hr
    cases hr

/-- **No two entries that all read are of the same calibration.** -/
theorem Kept.apart_log (hk : Kept sent w c) : c.store.log.Pairwise fun r r' =>
    ¬ Same r.toDeviceCalibrationCreate r'.toDeviceCalibrationCreate := by
  refine List.pairwise_filterMap.mpr ?_
  refine hk.logs.apart.imp_of_mem fun hv hv' happart r hr r' hr' => ?_
  rwa [hk.logs.row_of_committed hv hr, hk.logs.row_of_committed hv' hr']

theorem Kept.entriesOf_eq (hk : Kept sent w c) (record : DeviceCalibrationCreate) :
    c.store.entriesOf record =
      (c.store.log.find? fun r => decide (r.TellsOf record)).toList := by
  refine filter_eq_first (hk.apart_log.imp fun happart => ?_)
  rintro ⟨h, h'⟩
  have ht := of_decide_eq_true h
  have ht' := of_decide_eq_true h'
  exact happart ⟨ht.1.trans ht'.1.symm, ht.2.trans ht'.2.symm⟩

omit [DecidableEq ι] in
theorem World.currentOf_eq (w : World ι) (name : String) :
    w.currentOf name = (w.current.find? fun r => decide (r.name = name)).toList := by
  refine filter_eq_first (List.pairwise_filterMap.mpr ?_)
  refine (List.pairwise_map.mp w.calibrations.nodup).imp fun hne r hr r' hr' => ?_
  rintro ⟨h, h'⟩
  refine hne ?_
  have hkey : nameOf r = _ := Version.key_committed hr
  have hkey' : nameOf r' = _ := Version.key_committed hr'
  rw [← hkey, ← hkey']
  exact (of_decide_eq_true h).trans (of_decide_eq_true h').symm

theorem length_find_eq_one {A : Type} {p : A → Bool} {l : List A} {a : A} (ha : a ∈ l)
    (hp : p a = true) : (l.find? p).toList.length = 1 := by
  cases hfind : l.find? p with
  | none => exact absurd hp (by simpa using List.find?_eq_none.mp hfind a ha)
  | some b => rfl

variable (sent w) in
/-- **A calibration is logged once** in every interleaving whose calls each look for it in the log
while no other that sends the same one has found none and not logged it yet. -/
theorem loggedOnce_of_looksAlone (retries : Bool) (hready : Ready sent w)
    (hr : Reach exec (fun c i e => databaseStep c i e ∧ LooksAlone sent c i e)
      (startCalls retries sent w) c) : LoggedOnce sent w c := by
  obtain ⟨hf, hk⟩ := kept_of_reach hready hr
  have hdone : ∀ i, (c.pool i).Done → c.phaseAt i = .told ∧ c.currentAt i = .current := by
    intro i hi
    obtain ⟨res, hends, -⟩ := hf.ends hi
    rw [phase_eq w.backend hk.backend] at hends
    exact hends
  refine ⟨fun i => ?_, fun i hi => ?_, fun i hi => ?_, fun r hr => ?_⟩
  · rw [hk.entriesOf_eq]
    exact Option.length_toList_le
  · rw [hk.entriesOf_eq]
    have htold := hk.logs.knows i
    rw [(hdone i hi).1] at htold
    obtain ⟨v, hv, htells, hw⟩ := htold
    exact length_find_eq_one (List.mem_filterMap.mpr ⟨v, hv, Version.committed_of_writer hw⟩)
      (decide_eq_true htells)
  · rw [World.currentOf_eq]
    obtain ⟨v, hv, hc⟩ := hk.current.current i (hdone i hi).2
    obtain ⟨r, hr⟩ := Option.isSome_iff_exists.mp hc
    obtain ⟨hmem, hname⟩ := Table.get_eq_some.mp hv
    exact length_find_eq_one (List.mem_filterMap.mpr ⟨v, hmem, hr⟩)
      (decide_eq_true ((Version.key_committed hr).trans hname))
  · obtain ⟨v, hv, hcommitted⟩ := List.mem_filterMap.mp hr
    rw [hk.logs.row_of_committed hv hcommitted]
    rcases hk.logs.origin v hv with ⟨v₀, hv₀, hrow⟩ | ⟨j, hrow, -⟩
    · refine .inl (List.mem_filterMap.mpr ⟨v₀, hv₀, ?_⟩)
      rw [Version.committed_of_writer (hready.logs v₀ hv₀), hrow]
    · exact .inr ⟨j, by rw [hrow]; exact ⟨rfl, rfl⟩⟩

end Interleaving

/-! ## One calibration sent over two sockets -/

/-- Loke's calibration, sent over either of two sockets. -/
def lokeSent (socket : Bool) : Sent where
  record := { name := "loke", version := "2026.03", lastCalibrated := some "2026-01-01T00:00:00Z" }
  logId := if socket then "log-2" else "log-1"
  id := if socket then "current-2" else "current-1"
  now := "2026-01-01T00:00:01Z"

theorem ready_loke (b : Backend) : Ready lokeSent { backend := b } where
  logs := by simp [Table.empty]
  calibrations := by simp [Table.empty]
  apart := List.Pairwise.nil
  new := by simp [Table.empty]
  distinct := by
    intro i j h
    revert i j h
    decide

/-- One call after the other. -/
def inTurn : List Bool := List.replicate 7 false ++ List.replicate 6 true

/-- Both calls look before either logs. -/
def lookedTogether : List Bool :=
  [false, true, false, true] ++ List.replicate 5 false ++ List.replicate 5 true

/-- The two calls, after these turns. -/
def lokeAfter (b : Backend) (turns : List Bool) : Calls Bool :=
  (startCalls true lokeSent { backend := b }).schedule exec turns

theorem loggedOnce_inTurn :
    LoggedOnce lokeSent { backend := .sql } (lokeAfter .sql inTurn) ∧
      (lokeAfter .sql inTurn).AllDone :=
  ⟨loggedOnce_of_looksAlone lokeSent _ true (ready_loke .sql)
    (reach_schedule_of_obeys (by decide +kernel)), by decide +kernel⟩

/-- **Two calls that look for one calibration before either logs it log it twice**, in PostgreSQL
and in MongoDB. -/
theorem logged_twice :
    (∃ c, Reach exec databaseStep (startCalls true lokeSent { backend := .sql }) c ∧ c.AllDone ∧
      (c.store.entriesOf (lokeSent true).record).length = 2 ∧
      ¬ LoggedOnce lokeSent { backend := .sql } c) ∧
    ∃ c, Reach exec databaseStep (startCalls true lokeSent { backend := .mongodb }) c ∧ c.AllDone ∧
      (c.store.entriesOf (lokeSent true).record).length = 2 ∧
      ¬ LoggedOnce lokeSent { backend := .mongodb } c := by
  refine ⟨⟨lokeAfter .sql lookedTogether, reach_schedule_of_obeys (by decide +kernel),
    by decide +kernel, by decide +kernel, fun h => ?_⟩, lokeAfter .mongodb lookedTogether,
    reach_schedule_of_obeys (by decide +kernel), by decide +kernel, by decide +kernel, fun h => ?_⟩
  · exact absurd (h.atMostOnce true) (by decide +kernel)
  · exact absurd (h.atMostOnce true) (by decide +kernel)

end Mss.CalibrationUpserts
