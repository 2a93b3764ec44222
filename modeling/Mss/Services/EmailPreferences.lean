import Mathlib.Data.Finmap
import Mss.Services.NoticeReads

/-!
# Email preferences

Of each kind of notice a user may want no emails. What they chose is one record per user, a
dictionary by the kind of notice; a kind that is missing is wanted.

* `EmailPrefs`, `NoticePreferences`, `World`: what is stored.
* `Op`, `exec`: the operations on it.
* `getEmailPreferences`, **`setEmailPreferences`**: the service. A change reads the record, and
  writes the whole dictionary back.
-/

namespace Mss.Preferences

open Atomic Storage Prog

/-- The id of a signed-in user, which the schema takes. -/
abbrev UserId : Type := { id : Id // isId id = true }

/-- Whether emails are wanted, by the kind of notice. -/
abbrev EmailPrefs : Type := Finmap fun _ : Reads.NoticeTypeId => Bool

/-- **One user's opt-outs.** -/
structure NoticePreferences where
  id : Id
  userId : UserId
  emailPrefs : EmailPrefs := ∅
  createdAt : Option String
  updatedAt : Option String
  deriving DecidableEq

/-- **What the calls share**: the clock, in microseconds, and the preferences by user. -/
structure World where
  now : ℤ
  preferences : Table NoticePreferences NoticePreferences.userId := .empty

/-- The preferences in a record found, none of them if there is no record. -/
def emailPrefsOf (record : Option NoticePreferences) : EmailPrefs :=
  (record.map (·.emailPrefs)).getD ∅

/-- The preferences stored of a user. -/
def World.emailPrefs (w : World) (userId : UserId) : EmailPrefs :=
  emailPrefsOf (w.preferences.get userId)

/-- **The operations**; the id of a record inserted is generated, and time passes by an operation of
its own. -/
inductive Op
  | readClock
  | getPreferences (userId : UserId)
  | upsertPreferences (userId : UserId) (emailPrefs : EmailPrefs) (timestamp : String) (id : Id)
  | passTime (micros : ℕ)

/-- What an operation answers. -/
@[reducible] def Resp : Op → Type
  | .readClock => ℤ
  | .getPreferences _ => Option NoticePreferences
  | .upsertPreferences _ _ _ _ => Unit
  | .passTime _ => Unit

/-- A record's preferences set. -/
def NoticePreferences.set (emailPrefs : EmailPrefs) (timestamp : String) (r : NoticePreferences) :
    NoticePreferences :=
  { r with emailPrefs, updatedAt := some timestamp }

@[simp] theorem NoticePreferences.set_userId (emailPrefs : EmailPrefs) (timestamp : String)
    (r : NoticePreferences) : (r.set emailPrefs timestamp).userId = r.userId := rfl

/-- **What an operation answers and leaves.** -/
def exec (o : Op) (w : World) : Resp o × World :=
  match o with
  | .readClock => (w.now, w)
  | .getPreferences userId => (w.preferences.get userId, w)
  | .upsertPreferences userId emailPrefs timestamp id =>
    ((), { w with
      preferences := w.preferences.upsert userId (.set emailPrefs timestamp)
        (NoticePreferences.set_userId emailPrefs timestamp)
        { id, userId, emailPrefs, createdAt := some timestamp, updatedAt := some timestamp } rfl })
  | .passTime micros => ((), { w with now := w.now + micros })

/-- A program of the service. It raises nothing of its own. -/
abbrev Service (α : Type) : Type := Prog Resp Empty α

/-- Call one operation. -/
abbrev call (o : Op) : Service (Resp o) := Prog.perform o

/-- Fill in the default of every kind of notice that is missing. -/
def withDefaultEmailPreferences (prefs : EmailPrefs) : Reads.NoticeTypeId → Bool :=
  fun typeId => (prefs.lookup typeId).getD true

/-- **The preferences of a user**, of every kind of notice. -/
def getEmailPreferences (userId : UserId) : Service (Reads.NoticeTypeId → Bool) := do
  let record ← call (.getPreferences userId)
  return withDefaultEmailPreferences (emailPrefsOf record)

/-- **Change some of a user's preferences**: those given go over those read. -/
def setEmailPreferences (h : Reads.Host) (userId : UserId) (prefs : EmailPrefs) (id : Id) :
    Service (Reads.NoticeTypeId → Bool) := do
  let record ← call (.getPreferences userId)
  let current := prefs ∪ emailPrefsOf record
  let now ← call .readClock
  call (.upsertPreferences userId current (h.datetimeToZulu now) id)
  return withDefaultEmailPreferences current

/-! ## What an operation leaves stored -/

/-- The preferences stored of a user after an event. -/
def prefsAfter (userId : UserId) (e : Event Resp) (before : EmailPrefs) : EmailPrefs :=
  match e with
  | ⟨.upsertPreferences id emailPrefs _ _, _⟩ => if userId = id then emailPrefs else before
  | _ => before

/-- **An operation leaves of a user's preferences** what it writes, or what was there. -/
theorem emailPrefs_exec (o : Op) (r : Resp o) (w : World) (userId : UserId) :
    (exec o w).2.emailPrefs userId = prefsAfter userId ⟨o, r⟩ (w.emailPrefs userId) := by
  cases o with
  | upsertPreferences id emailPrefs timestamp newId =>
    simp only [World.emailPrefs, exec, prefsAfter, Table.get_upsert]
    split_ifs with hid
    · cases w.preferences.get id <;> rfl
    · rfl
  | _ => rfl

end Mss.Preferences
