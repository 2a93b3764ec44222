import Mss.Lib.Regexes
import Mss.Lib.ScriptNumbers

/-!
# Times of the dashboard

* `Time`, **`extractTime`**, **`formatTime`**: a time of day, read from a text and written as one.
* `Luxon`: the durations of the library; `Luxon.IsFixed`: what its documentation says of them, where a
  day has 24 hours.
* **`convertToInputDuration`**: a duration split over units.
-/

namespace Mss.Ui

open Script Regex

/-! ## Times of day -/

/-- **A time of day**, each part of which may be undefined. -/
structure Time where
  hour : Option ℤ := none
  minute : Option ℤ := none
  second : Option ℤ := none
  millisecond : Option ℤ := none
  deriving DecidableEq, Repr

/-- A whole number read from a text; what is undefined is read as its name. -/
def parseOptionalInt (value : Option (List Char)) : Option ℤ :=
  parseInt (value.getD "undefined".toList)

/-- One letter. -/
def char (c : Char) : Pattern := .letter (· == c)

/-- Two digits. -/
def twoDigits : Pattern := .seq (.letter Char.isDigit) (.letter Char.isDigit)

/-- The pattern of a time: hours, minutes, and what else there is of seconds and of a fraction. -/
def timeRegex : Pattern :=
  .seq (.group 1 twoDigits) (.seq (char ':') (.seq (.group 2 twoDigits)
    (.seq (.maybe (.group 3 (.seq (char ':') (.group 4 twoDigits))))
      (.maybe (.group 5 (.seq (char '.') (.group 6 (.run Char.isDigit))))))))

/-- **Read an ISO time.** -/
def extractTime (value : String) : Time :=
  let groups := Regex.exec timeRegex value.toList
  let group i := groups.bind fun m => m.group i
  { hour := parseOptionalInt (group 1)
    minute := parseOptionalInt (group 2)
    second := parseOptionalInt (group 4)
    millisecond := parseOptionalInt (group 6) }

/-- What a template makes of a number that may be undefined. -/
def templateText : Option ℤ → List Char
  | none => "undefined".toList
  | some n => radixText 10 n

/-- **Format a time as an ISO time.** -/
def formatTime (t : Time) : String :=
  let paddedMinute := padStart 2 '0' (templateText t.minute)
  let paddedSecond := padStart 2 '0' (templateText t.second)
  let paddedHour := padStart 2 '0' (templateText t.hour)
  let secondStr := if t.second = none then [] else ':' :: paddedSecond
  let secondsAndMilliseconds :=
    if t.millisecond = none then secondStr
    else (if secondStr = [] then ['0', '0'] else secondStr) ++ '.' :: templateText t.millisecond
  String.ofList (paddedHour ++ ':' :: (paddedMinute ++ secondsAndMilliseconds))

/-! ## Durations -/

/-- The units that a duration is split over. -/
inductive InputUnit
  | days
  | hours
  | minutes
  | seconds
  | milliseconds
  deriving DecidableEq, Repr

namespace InputUnit

/-- The milliseconds of a unit, where a day has 24 hours. -/
def millis : InputUnit → ℕ
  | days => 86400000
  | hours => 3600000
  | minutes => 60000
  | seconds => 1000
  | milliseconds => 1

end InputUnit

/-- How many there are of each unit, all whole, where it is said. -/
abbrev DurationLikeObject := InputUnit → Option ℤ

/-- The milliseconds of all. -/
def DurationLikeObject.millis (o : DurationLikeObject) : ℤ :=
  (o .days).getD 0 * 86400000 + (o .hours).getD 0 * 3600000 + (o .minutes).getD 0 * 60000 +
    (o .seconds).getD 0 * 1000 + (o .milliseconds).getD 0

/-- **The durations of luxon**, as far as they are used here. -/
structure Luxon where
  Duration : Type
  DurationLike : Type
  fromDurationLike : DurationLike → Duration
  fromObject : DurationLikeObject → Duration
  minus : Duration → DurationLikeObject → Duration
  as : Duration → InputUnit → ℚ
  toObject : Duration → InputUnit → Option ℚ

/-- **What luxon says of its durations**, where each has a number of milliseconds: `minus` takes away
those of the other, and `as` is how many of a unit they are, which a rounding may move but not past a
whole number. A duration made of an object has its numbers. -/
structure Luxon.IsFixed (L : Luxon) (millis : L.Duration → ℚ) : Prop where
  millis_minus : ∀ x o, millis (L.minus x o) = millis x - o.millis
  trunc_as : ∀ x (d : ℤ) unit, millis x = d → trunc (L.as x unit) = trunc (d / unit.millis)
  toObject_fromObject : ∀ o unit, L.toObject (L.fromObject o) unit = (o unit).map Int.cast

/-- All units, from the largest. -/
def units : List InputUnit := [.days, .hours, .minutes, .seconds, .milliseconds]

/-- The members of a list from one place up to another. -/
def slice {A : Type} (start stop : ℕ) (l : List A) : List A := (l.take stop).drop start

/-- Add a unit: as many of it as what is left has, in whole numbers. -/
def addUnit (L : Luxon) (durationValue : L.Duration) (durationLikeObj : DurationLikeObject)
    (unit : InputUnit) : DurationLikeObject :=
  Function.update durationLikeObj unit
    (some (trunc (L.as (L.minus durationValue durationLikeObj) unit)))

/-- **Split a duration** over the units from one down to another, in whole numbers. -/
def convertToInputDuration (L : Luxon) (value : L.DurationLike)
    (maxUnit minUnit : Option InputUnit := none) : L.Duration :=
  let durationValue := L.fromDurationLike value
  let startIndex := units.idxOf (maxUnit.getD .days)
  let endIndex := units.idxOf (minUnit.getD .milliseconds) + 1
  L.fromObject ((slice startIndex endIndex units).foldl (addUnit L durationValue) fun _ => none)

end Mss.Ui
