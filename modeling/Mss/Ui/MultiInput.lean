import Mss.Lib.ScriptDoubles

/-!
# Multi-inputs

An input of several values has a hidden text input, which holds all of them as one text.

* `Units`: the texts of the browser; `letterOf`: what a code unit is to a number.
* `InputItem`, `InputValue`: values of the input.
* **`toStringValue`**, **`toinputValue`**: the text of a value, and the value of a text.
-/

namespace Mss.Ui

/-- A text as its UTF-16 code units. -/
abbrev Units : Type := List UInt16

/-- The code units of letters of the first plane. -/
def unitsOf (l : List Char) : Units := l.map fun c => c.toNat.toUInt16

/-- The code unit of the comma. -/
def comma : UInt16 := 44

/-- The letter of a code unit. Half of a surrogate pair is none, and in no number or blank. -/
def letterOf (u : UInt16) : Char := Char.ofNat u.toNat

/-- An element of an input value. -/
inductive InputItem
  | text (s : Units)
  | number (x : Script.Number)
  deriving DecidableEq

abbrev InputValue : Type := List InputItem

/-- An element in a template. -/
def InputItem.units : InputItem → Units
  | .text s => s
  | .number x => unitsOf x.text

/-- The parts of a text that `split("")` gives. -/
def split (s : Units) : List Units := s.map fun u => [u]

/-- **The text of an input value.** -/
def toStringValue (value : Option InputValue) : Option Units :=
  value.map fun value => [comma].intercalate (value.map InputItem.units)

/-- **The input value of a text.** -/
def toinputValue (type : Option String) (value : Option Units) : Option InputValue :=
  let substrings := value.map split
  if type = some "number" then
    substrings.map (·.map fun v => .number (Script.parseFloat (v.map letterOf)))
  else substrings.map (·.map .text)

end Mss.Ui
