import Mss.Services.EmailPreferences

/-!
# No change of preferences is lost

A change of preferences reads the user's record and writes the whole dictionary back, two operations
later. Changes of different kinds of notices, run at once, all hold when none is written between
another's read and its own write.

* `PrefsTask`: the calls; `HoldsChanges`: what is to hold once all have returned.
* `PrefsUnread`: the condition, as a guard on each step.
* **`holdsChanges_of_prefsUnread`**: in every interleaving whose steps meet the condition.
* `change_lost`: two changes that both read before either writes.
-/

namespace Mss.Preferences

open Atomic Storage Prog

/-! ## The calls -/

/-- **The calls that run at once.** -/
inductive PrefsTask
  | set (userId : UserId) (prefs : EmailPrefs) (id : Id)
  | get (userId : UserId)
  | passTime (micros : ℕ)

/-- The program of a call. -/
def PrefsTask.service (h : Reads.Host) : PrefsTask → Service Unit
  | .set userId prefs id => do
    let _ ← setEmailPreferences h userId prefs id
  | .get userId => do
    let _ ← getEmailPreferences userId
  | .passTime micros => call (.passTime micros)

/-- What a call changes of a user's preferences. -/
def PrefsTask.changes (userId : UserId) : PrefsTask → EmailPrefs
  | .set id prefs _ => if id = userId then prefs else ∅
  | _ => ∅

variable {ι : Type} [DecidableEq ι] {userId : UserId}

/-- **Every change holds**: the stored preferences have each that a call makes. -/
def HoldsChanges (userId : UserId) (tasks : ι → PrefsTask) (w : World) : Prop :=
  ∀ i typeId wanted, ((tasks i).changes userId).lookup typeId = some wanted →
    (w.emailPrefs userId).lookup typeId = some wanted

/-- The calls change different kinds of notices. -/
def ChangesApart (userId : UserId) (tasks : ι → PrefsTask) : Prop :=
  ∀ i j, i ≠ j → ((tasks i).changes userId).Disjoint ((tasks j).changes userId)

/-! ## The condition -/

/-- The event reads the user's preferences. -/
def isRead (userId : UserId) : Event Resp → Bool
  | ⟨.getPreferences id, _⟩ => id = userId
  | _ => false

/-- The event writes the user's preferences. -/
def isWrite (userId : UserId) : Event Resp → Bool
  | ⟨.upsertPreferences id _ _ _, _⟩ => id = userId
  | _ => false

/-- **The condition**: a step that changes the user's preferences finds every other call that has
read them past its own write, or at its end. -/
def PrefsUnread (userId : UserId) (c : Config World ι Resp Empty Unit) (i : ι)
    (e : Event Resp) : Prop :=
  prefsAfter userId e (c.store.emailPrefs userId) ≠ c.store.emailPrefs userId →
    ∀ j, j ≠ i → (c.mine j).any (isRead userId) = true →
      (c.mine j).any (isWrite userId) = true ∨ (c.pool j).Done

instance [Fintype ι] (c : Config World ι Resp Empty Unit) (i : ι) (e : Event Resp) :
    Decidable (PrefsUnread userId c i e) :=
  inferInstanceAs (Decidable (_ → ∀ j, j ≠ i → _ → _ ∨ (c.pool j).Done))

/-! ## The protocol of a call -/

/-- Where a call is: the preferences it read, and whether it has written. -/
structure PrefsPhase where
  read : Option EmailPrefs := none
  written : Bool := false

/-- **What a call does to the user's preferences**: it writes once, its changes over what it read. -/
def prefsProtocol (userId : UserId) (task : PrefsTask) : Protocol Resp Empty Unit PrefsPhase where
  next m e := match e with
    | ⟨.getPreferences id, record⟩ =>
      if id = userId then { m with read := some (emailPrefsOf record) } else m
    | ⟨.upsertPreferences id _ _ _, _⟩ => if id = userId then { m with written := true } else m
    | _ => m
  assumes _ _ := True
  allows m e := match e.1 with
    | .upsertPreferences id emailPrefs _ _ => id = userId → m.written = false ∧
        ∃ current, m.read = some current ∧ emailPrefs = task.changes userId ∪ current
    | _ => True
  ends m _ := task.changes userId ≠ ∅ → m.written = true

theorem follows_prefsTask (h : Reads.Host) (userId : UserId) (task : PrefsTask) :
    Follows (prefsProtocol userId task) {} (task.service h) := by
  cases task with
  | set id prefs newId =>
    intro record _
    refine ⟨trivial, fun now _ => ⟨trivial, fun _ _ => ⟨?_, ?_⟩⟩⟩
    · rintro rfl
      exact ⟨by simp [prefsProtocol], emailPrefsOf record,
        by simp [prefsProtocol], by simp [PrefsTask.changes]⟩
    · by_cases hid : id = userId
      · intro _
        simp [prefsProtocol, hid]
      · intro hchanges
        simp [PrefsTask.changes, hid] at hchanges
  | get id => exact fun _ _ => ⟨trivial, fun hchanges => (hchanges rfl).elim⟩
  | passTime micros => exact fun _ _ => ⟨trivial, fun hchanges => (hchanges rfl).elim⟩

theorem isSome_read_next (task : PrefsTask) (m : PrefsPhase) (e : Event Resp) :
    ((prefsProtocol userId task).next m e).read.isSome = (m.read.isSome || isRead userId e) := by
  obtain ⟨o, r⟩ := e
  cases o with
  | getPreferences id => by_cases hid : id = userId <;> simp [prefsProtocol, isRead, hid]
  | upsertPreferences id => by_cases hid : id = userId <;> simp [prefsProtocol, isRead, hid]
  | _ => simp [prefsProtocol, isRead]

theorem written_next (task : PrefsTask) (m : PrefsPhase) (e : Event Resp) :
    ((prefsProtocol userId task).next m e).written = (m.written || isWrite userId e) := by
  obtain ⟨o, r⟩ := e
  cases o with
  | getPreferences id => by_cases hid : id = userId <;> simp [prefsProtocol, isWrite, hid]
  | upsertPreferences id => by_cases hid : id = userId <;> simp [prefsProtocol, isWrite, hid]
  | _ => simp [prefsProtocol, isWrite]

/-! ## The invariant -/

/-- The programs of the calls. -/
abbrev prefsPool (h : Reads.Host) (tasks : ι → PrefsTask) (i : ι) : Service Unit :=
  (tasks i).service h

/-- The phase of a call. -/
abbrev prefsPhase (userId : UserId) (tasks : ι → PrefsTask) (c : Config World ι Resp Empty Unit)
    (i : ι) : PrefsPhase :=
  c.phase (fun i => prefsProtocol userId (tasks i)) (fun _ => {}) i

theorem isSome_read_phase (c : Config World ι Resp Empty Unit) (i : ι) :
    (prefsPhase userId tasks c i).read.isSome = (c.mine i).any (isRead userId) :=
  @Config.phase_flag _ _ _ _ _ _ _ _ (fun i => prefsProtocol userId (tasks i)) (fun _ => {}) i
    (fun m => m.read.isSome) (isRead userId) (isSome_read_next _) c

theorem written_phase (c : Config World ι Resp Empty Unit) (i : ι) :
    (prefsPhase userId tasks c i).written = (c.mine i).any (isWrite userId) :=
  @Config.phase_flag _ _ _ _ _ _ _ _ (fun i => prefsProtocol userId (tasks i)) (fun _ => {}) i
    (·.written) (isWrite userId) (written_next _) c

/-- **The invariant**: what was written holds, and whoever has read and is yet to write has read
what is stored. -/
structure PrefsInv (userId : UserId) (tasks : ι → PrefsTask)
    (c : Config World ι Resp Empty Unit) : Prop where
  kept : ∀ i, (prefsPhase userId tasks c i).written = true → ∀ typeId wanted,
    ((tasks i).changes userId).lookup typeId = some wanted →
      (c.store.emailPrefs userId).lookup typeId = some wanted
  read : ∀ i current, (prefsPhase userId tasks c i).read = some current →
    (prefsPhase userId tasks c i).written = false → ¬ (c.pool i).Done →
      current = c.store.emailPrefs userId

section Step

variable {h : Reads.Host} {tasks : ι → PrefsTask} {i : ι} {e : Event Resp}
  {c c' : Config World ι Resp Empty Unit}

theorem emailPrefs_step (hs : StepBy exec i e c c') :
    c'.store.emailPrefs userId = prefsAfter userId e (c.store.emailPrefs userId) := by
  rw [hs.store]
  exact emailPrefs_exec e.1 e.2 c.store userId

omit [DecidableEq ι] in
theorem read_next {current : EmailPrefs} {m : PrefsPhase} {task : PrefsTask}
    (hresp : (exec e.1 c.store).1 = e.2)
    (hread : ((prefsProtocol userId task).next m e).read = some current) :
    current = c.store.emailPrefs userId ∨ m.read = some current := by
  obtain ⟨o, r⟩ := e
  cases o with
  | getPreferences id =>
    by_cases hid : id = userId
    · subst hid
      left
      simp only [prefsProtocol, if_true, Option.some.injEq] at hread
      rw [← hread, show r = c.store.preferences.get id from hresp.symm]
      rfl
    · exact .inr (by simpa [prefsProtocol, hid] using hread)
  | upsertPreferences id =>
    by_cases hid : id = userId <;> exact .inr (by simpa [prefsProtocol, hid] using hread)
  | _ => exact .inr hread

theorem prefsAfter_of_isWrite (hinv : PrefsInv userId tasks c) (hpending : ¬ (c.pool i).Done)
    (hallow : (prefsProtocol userId (tasks i)).allows (prefsPhase userId tasks c i) e)
    (hwrite : isWrite userId e = true) :
    prefsAfter userId e (c.store.emailPrefs userId) =
      (tasks i).changes userId ∪ c.store.emailPrefs userId := by
  obtain ⟨o, r⟩ := e
  cases o with
  | upsertPreferences id emailPrefs timestamp newId =>
    have hid : id = userId := by simpa [isWrite] using hwrite
    obtain ⟨hunwritten, current, hread, rfl⟩ := hallow hid
    rw [prefsAfter, if_pos hid.symm, hinv.read i current hread hunwritten hpending]
  | _ => cases hwrite

theorem prefsAfter_of_not_isWrite {before : EmailPrefs} (hwrite : isWrite userId e = false) :
    prefsAfter userId e before = before := by
  obtain ⟨o, r⟩ := e
  cases o with
  | upsertPreferences id emailPrefs timestamp newId =>
    have hid : id ≠ userId := by simpa [isWrite] using hwrite
    rw [prefsAfter, if_neg hid.symm]
  | _ => rfl

theorem PrefsInv.step (hinv : PrefsInv userId tasks c) (hapart : ChangesApart userId tasks)
    (hguard : PrefsUnread userId c i e) (hs : StepBy exec i e c c')
    (hallow : (prefsProtocol userId (tasks i)).allows (prefsPhase userId tasks c i) e) :
    PrefsInv userId tasks c' := by
  have hstored : c'.store.emailPrefs userId = prefsAfter userId e (c.store.emailPrefs userId) :=
    emailPrefs_step hs
  refine ⟨fun j hwritten typeId wanted hwanted => ?_, fun j current hread hunwritten hpending => ?_⟩
  · -- what was written before is not among what a step writes over it
    rw [hstored]
    cases hwrite : isWrite userId e with
    | true =>
      rw [prefsAfter_of_isWrite hinv hs.not_done hallow hwrite]
      by_cases hj : j = i
      · subst hj
        rw [Finmap.lookup_union_left (Finmap.mem_of_lookup_eq_some hwanted), hwanted]
      · have hbefore : (prefsPhase userId tasks c j).written = true := by
          rwa [prefsPhase, hs.phase_ne _ _ hj] at hwritten
        have hfree : typeId ∉ (tasks i).changes userId :=
          hapart j i hj typeId (Finmap.mem_of_lookup_eq_some hwanted)
        rw [Finmap.lookup_union_right hfree]
        exact hinv.kept j hbefore typeId wanted hwanted
    | false =>
      rw [prefsAfter_of_not_isWrite hwrite]
      refine hinv.kept j ?_ typeId wanted hwanted
      by_cases hj : j = i
      · subst hj
        rwa [prefsPhase, hs.phase_self, written_next, hwrite, Bool.or_false] at hwritten
      · rwa [prefsPhase, hs.phase_ne _ _ hj] at hwritten
  · by_cases hj : j = i
    · subst hj
      rw [prefsPhase, hs.phase_self] at hread hunwritten
      rw [written_next, Bool.or_eq_false_iff] at hunwritten
      rw [hstored, prefsAfter_of_not_isWrite hunwritten.2]
      obtain hnow | hbefore := read_next hs.resp hread
      · exact hnow
      · exact hinv.read j current hbefore hunwritten.1 hs.not_done
    · -- another call that has read: the step left the user's preferences as they were
      rw [prefsPhase, hs.phase_ne _ _ hj] at hread hunwritten
      rw [hs.pool_ne hj] at hpending
      rw [hinv.read j current hread hunwritten hpending, hstored]
      by_contra hchanges
      have hreads : (c.mine j).any (isRead userId) = true := by
        rw [← isSome_read_phase, hread]
        rfl
      have hwrites : (c.mine j).any (isWrite userId) = false := by
        rw [← written_phase, hunwritten]
      obtain hwrote | hdone := hguard (Ne.symm hchanges) j hj hreads
      · rw [hwrites] at hwrote
        cases hwrote
      · exact hpending hdone

end Step

/-- **No change is lost**: in every interleaving of calls that change different kinds of notices, in
which no change of the user's preferences falls between another call's read and its own write, once
all have returned the stored preferences have every change of every call. -/
theorem holdsChanges_of_prefsUnread (h : Reads.Host) (tasks : ι → PrefsTask) (w : World)
    (hapart : ChangesApart userId tasks) {c : Config World ι Resp Empty Unit}
    (hr : Reach exec (PrefsUnread userId) (Config.start w (prefsPool h tasks)) c)
    (hdone : c.AllDone) : HoldsChanges userId tasks c.store := by
  have hstart : PrefsInv userId tasks (Config.start w (prefsPool h tasks)) :=
    ⟨fun _ hwritten => by simp at hwritten, fun _ _ hread => by simp at hread⟩
  obtain ⟨hfollows, hinv⟩ := hr.invariant (fun i => prefsProtocol userId (tasks i)) (fun _ => {})
    (PrefsInv userId tasks) (fun i => follows_prefsTask h userId (tasks i)) hstart
    (fun _ _ _ _ _ _ _ _ => trivial)
    (fun c i e c' _ _ hinv hguard hs hallow => hinv.step hapart hguard hs hallow)
  intro i typeId wanted hwanted
  obtain ⟨res, hends, -⟩ := hfollows.ends (hdone i)
  refine hinv.kept i (hends fun hnone => ?_) typeId wanted hwanted
  rw [hnone] at hwanted
  simp at hwanted

/-! ## Two changes at once -/

/-- A host whose every instant is one text. -/
def someHost : Reads.Host := ⟨fun _ => "2026-01-01T00:00:00Z", id, id, fun text _ => .ok text⟩

/-- Someone signed in. -/
def someone : UserId := ⟨"65f0000000000000000000b1", by decide +kernel⟩

/-- They want no emails of what people write to them, and in another tab none of broadcasts. -/
def twoChanges : Bool → PrefsTask
  | false => .set someone (Finmap.singleton .custom false) "65f0000000000000000000c1"
  | true => .set someone (Finmap.singleton .customBroadcast false) "65f0000000000000000000c2"

theorem twoChanges_apart : ChangesApart someone twoChanges := by
  intro i j hij
  cases i <;> cases j <;> first | exact (hij rfl).elim | (intro typeId; decide +revert)

/-- Nothing stored. -/
def noPreferences : World := { now := 0 }

/-- The user's record stored, which names neither kind. -/
def somePreferences : World := (exec (.upsertPreferences someone
  (Finmap.singleton (.system .qpuSecondsLow) false) "" "65f0000000000000000000c0") noPreferences).2

/-- The theorem at one change after the other. -/
theorem holdsChanges_of_prefsUnread_inTurn :
    HoldsChanges someone twoChanges ((Config.start somePreferences
      (prefsPool someHost twoChanges)).schedule exec
        [false, false, false, true, true, true]).store :=
  holdsChanges_of_prefsUnread someHost twoChanges somePreferences twoChanges_apart
    (reach_schedule_of_obeys (by decide +kernel)) (by decide +kernel)

/-- Both read before either writes. -/
def bothReadFirst : List Bool := [false, true, false, true, false, true]

/-- **A change is lost**, with a record stored before and without one, when both read first. -/
theorem change_lost : ChangesApart someone twoChanges ∧ ∀ w ∈ [noPreferences, somePreferences],
    ∃ c, Reach exec anyStep (Config.start w (prefsPool someHost twoChanges)) c ∧ c.AllDone ∧
      (c.store.emailPrefs someone).lookup .custom = none ∧
      ¬ HoldsChanges someone twoChanges c.store := by
  refine ⟨twoChanges_apart, fun w hw => ?_⟩
  have hlost : ∀ w ∈ [noPreferences, somePreferences],
      ((Config.start w (prefsPool someHost twoChanges)).schedule exec bothReadFirst).AllDone ∧
      (((Config.start w (prefsPool someHost twoChanges)).schedule exec
        bothReadFirst).store.emailPrefs someone).lookup .custom = none := by
    decide +kernel
  obtain ⟨hdone, hcustom⟩ := hlost w hw
  refine ⟨_, reach_schedule exec bothReadFirst _, hdone, hcustom, fun hholds => ?_⟩
  have hwanted := hholds false .custom false (by decide +kernel)
  rw [hcustom] at hwanted
  cases hwanted

end Mss.Preferences
