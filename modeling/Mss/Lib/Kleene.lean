import Mathlib.Data.Bool.AllAny

/-!
# Three-valued logic

A condition on nulls is neither true nor false but unknown, and a row is selected only where its
condition is true. The connectives are Kleene's.

* `Truth`, `Truth.and`, `Truth.or`, `Truth.not`, `Truth.all`, `Truth.any`.
* **`Truth.all_eq_yes`**, **`Truth.any_eq_yes`**: "is true" goes through conjunctions and
  disjunctions as through those of two values; it goes through a negation only where the condition
  is not unknown (`Truth.not_eq_yes`).
-/

namespace Storage

/-- **The three truth values.** -/
inductive Truth
  | yes
  | no
  | unknown
  deriving DecidableEq, Repr

namespace Truth

/-- A condition that is known. -/
def ofBool (b : Bool) : Truth := if b then yes else no

/-- False if either is, unknown if neither is and one is unknown. -/
def and : Truth → Truth → Truth
  | no, _ => no
  | _, no => no
  | yes, yes => yes
  | _, _ => unknown

/-- True if either is, unknown if neither is and one is unknown. -/
def or : Truth → Truth → Truth
  | yes, _ => yes
  | _, yes => yes
  | no, no => no
  | _, _ => unknown

/-- The negation of an unknown condition is unknown. -/
def not : Truth → Truth
  | yes => no
  | no => yes
  | unknown => unknown

/-- The conjunction of a list. -/
def all : List Truth → Truth
  | [] => yes
  | t :: ts => t.and (all ts)

/-- The disjunction of a list. -/
def any : List Truth → Truth
  | [] => no
  | t :: ts => t.or (any ts)

@[simp] theorem ofBool_eq_yes {b : Bool} : ofBool b = yes ↔ b = true := by
  cases b <;> simp [ofBool]

@[simp] theorem ofBool_eq_no {b : Bool} : ofBool b = no ↔ b = false := by
  cases b <;> simp [ofBool]

@[simp] theorem ofBool_ne_unknown {b : Bool} : ofBool b ≠ unknown := by
  cases b <;> simp [ofBool]

@[simp] theorem and_eq_yes {s t : Truth} : s.and t = yes ↔ s = yes ∧ t = yes := by
  cases s <;> cases t <;> simp [and]

@[simp] theorem or_eq_yes {s t : Truth} : s.or t = yes ↔ s = yes ∨ t = yes := by
  cases s <;> cases t <;> simp [or]

@[simp] theorem or_eq_no {s t : Truth} : s.or t = no ↔ s = no ∧ t = no := by
  cases s <;> cases t <;> simp [or]

@[simp] theorem not_eq_yes {t : Truth} : t.not = yes ↔ t = no := by
  cases t <;> simp [not]

@[simp] theorem all_eq_yes {ts : List Truth} : all ts = yes ↔ ∀ t ∈ ts, t = yes := by
  induction ts with
  | nil => simp [all]
  | cons t ts ih => simp [all, ih]

@[simp] theorem any_eq_yes {ts : List Truth} : any ts = yes ↔ yes ∈ ts := by
  induction ts with
  | nil => simp [any]
  | cons t ts ih => rw [any, or_eq_yes, ih, List.mem_cons, eq_comm (a := t)]

@[simp] theorem any_eq_no {ts : List Truth} : any ts = no ↔ ∀ t ∈ ts, t = no := by
  induction ts with
  | nil => simp [any]
  | cons t ts ih => simp [any, ih]

end Truth

end Storage
