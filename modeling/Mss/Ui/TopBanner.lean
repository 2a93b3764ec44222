import Mss.Lib.IsoTexts

/-!
# The banner on top of the dashboard

* `Notice`: a notice with its timestamps; **`Notice.serialize`**: with their texts, as it is sent.
* `Browser`: what the clock of a browser shows; `Browser.IsISO`: what luxon's documentation says of it.
* **`bannerNotices`**: the unread notices that the banner shows, in its order.
-/

namespace Mss.Ui

open Collation IsoText

/-! ## Notices -/

/-- **A notice**, in force from one timestamp until another. The lowest severity is the most urgent. -/
structure Notice (τ : Type) where
  id : String
  severity : ℤ
  startsAt : Option τ := none
  expiresAt : Option τ := none

/-- A timestamp in JSON. -/
def datetimeToZulu (t : Timestamp) : String := String.ofList t.text

/-- **A notice in JSON.** -/
def Notice.serialize (n : Notice Timestamp) : Notice String :=
  { n with
    startsAt := n.startsAt.map datetimeToZulu
    expiresAt := n.expiresAt.map datetimeToZulu }

@[simp] theorem Notice.serialize_severity (n : Notice Timestamp) :
    n.serialize.severity = n.severity := rfl

@[simp] theorem Notice.serialize_startsAt (n : Notice Timestamp) :
    n.serialize.startsAt = n.startsAt.map datetimeToZulu := rfl

@[simp] theorem Notice.serialize_expiresAt (n : Notice Timestamp) :
    n.serialize.expiresAt = n.expiresAt.map datetimeToZulu := rfl

/-! ## Clocks -/

/-- **A browser**: how many milliseconds its clock is ahead of UTC at an instant, and the text that
`DateTime.now().toISO()` is there. -/
structure Browser where
  offset : ℤ → ℤ
  toISO : ℤ → String

namespace Browser

variable (b : Browser)

/-- What the clock shows at an instant, in milliseconds. -/
def reading (now : ℤ) : ℤ := now + b.offset now

/-- **The text is in ISO 8601**: the local time in milliseconds, and the offset. A year that is not of
four digits has a sign. -/
structure IsISO : Prop where
  year : ∀ now, HasYear (dayOf (b.reading now)) → ∃ sign rest, (sign = '+' ∨ sign = '-') ∧
    b.toISO now = String.ofList (timeText 5 (b.reading now) ++ sign :: rest)
  expanded_year : ∀ now, ¬ HasYear (dayOf (b.reading now)) → ∃ sign rest,
    (sign = '+' ∨ sign = '-') ∧ b.toISO now = String.ofList (sign :: rest)

end Browser

/-! ## The banner -/

/-- Whether a notice has started, and has not expired. A text that is empty counts as none. -/
def isInForce (timestamp : String) (v : Notice String) : Bool :=
  (v.startsAt.all fun startsAt => startsAt = "" || startsAt ≤ timestamp) &&
    v.expiresAt.all fun expiresAt => expiresAt = "" || timestamp < expiresAt

/-- Compare notices by their severity, and then by the texts of their starts. -/
def compareNotices (localeCompare : String → String → ℤ) : Notice String → Notice String → ℤ :=
  orElse (fun a b => a.severity - b.severity)
    fun a b => localeCompare (a.startsAt.getD "") (b.startsAt.getD "")

theorem compareNotices_of_ne {localeCompare : String → String → ℤ} {a b : Notice String}
    (h : a.severity ≠ b.severity) : compareNotices localeCompare a b = a.severity - b.severity :=
  if_neg (sub_ne_zero.mpr h)

theorem compareNotices_of_eq {localeCompare : String → String → ℤ} {a b : Notice String}
    (h : a.severity = b.severity) : compareNotices localeCompare a b =
      localeCompare (a.startsAt.getD "") (b.startsAt.getD "") :=
  if_pos (sub_eq_zero.mpr h)

/-- **The notices that the banner shows**, of those that are unread, if these are known yet. -/
def bannerNotices (localeCompare : String → String → ℤ) (timestamp : String)
    (unreadNotices : Option (List (Notice String))) : Option (List (Notice String)) :=
  unreadNotices.map fun notices =>
    sortBy (compareNotices localeCompare) (notices.filter (isInForce timestamp))

end Mss.Ui
