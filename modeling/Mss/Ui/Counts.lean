import Mss.Lib.Collators
import Mss.Lib.ScriptNumbers
import Mss.Lib.Tallies

/-!
# Counts of a job's outcomes

A result has the memory of each of its circuits: the bits of each shot, in hexadecimal.

* `JobResult`: what the counts are made of; none of an answer is a `SyntaxError`.
* **`countOutcomes`**: how often each outcome came up in a circuit's shots.
* `getCircuitCounts`: the counts of each circuit of a result.
-/

namespace Mss.Ui

open Collation Script

/-- How often an outcome came up. -/
structure OutcomeCount where
  outcome : String
  count : ℕ
  deriving DecidableEq, Repr

/-- What a result says of one of its circuits. -/
structure JobResultCircuit where
  name : String
  numClbits : ℕ
  deriving DecidableEq, Repr

/-- The level of a measurement: IQ points, or bits. -/
inductive MeasLevel
  | one
  | two
  deriving DecidableEq, Repr

/-- **The result of a job**; its memory is that of bits, which is read at no level but the second. -/
structure JobResult where
  memory : List (List String) := []
  measLevel : Option MeasLevel := none
  circuits : Option (List JobResultCircuit) := none
  deriving DecidableEq, Repr

/-- How often each outcome came up in one circuit's shots. -/
structure CircuitCounts where
  name : String
  counts : List OutcomeCount
  shots : ℕ
  deriving DecidableEq, Repr

/-- Count the outcome of one more shot. -/
def countShot (numClbits : ℕ) (counts : List (String × ℕ)) (shot : String) :
    Option (List (String × ℕ)) := do
  let value ← bigInt shot.toList
  let outcome := String.ofList (padStart numClbits '0' (radixText 2 value))
  return OrderedMap.set counts outcome ((OrderedMap.get counts outcome).getD 0 + 1)

variable (localeCompare : String → String → ℤ)

/-- **Count each outcome of a circuit's shots**, the outcomes in the order of the locale. -/
def countOutcomes (shots : List String) (numClbits : ℕ) : Option (List OutcomeCount) := do
  let counts ← shots.foldlM (countShot numClbits) []
  return (sortBy (fun left right => localeCompare left.1 right.1) counts).map
    fun (outcome, count) => { outcome, count }

/-- The counts of one circuit of a result. -/
def countCircuit (result : JobResult) (circuit : JobResultCircuit) (index : ℕ) :
    Option CircuitCounts := do
  let shots := result.memory[index]?.getD []
  let counts ← countOutcomes localeCompare shots circuit.numClbits
  return { name := circuit.name, counts, shots := shots.length }

/-- The counts of each circuit of a result, or none if its memory is not counted. -/
def getCircuitCounts : Option JobResult → Option (List CircuitCounts)
  | none => some []
  | some result =>
    match result.circuits with
    | none => some []
    | some circuits =>
      if result.measLevel = some .one then some []
      else circuits.zipIdx.mapM fun (circuit, index) =>
        countCircuit localeCompare result circuit index

end Mss.Ui
