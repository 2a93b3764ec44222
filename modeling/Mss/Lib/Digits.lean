import Mathlib.Data.String.Basic

/-!
# Numbers written in a fixed width

A number below a power of ten is written in as many digits, zeros first.

* `digits`: the digits of a number in a width.
* `digitChar_lt_iff`, `digitChar_inj`: digits are in the order of their numbers.
-/

namespace Storage

/-- The digits of a number, in a width. -/
def digits : ℕ → ℕ → List Char
  | 0, _ => []
  | width + 1, n => digits width (n / 10) ++ [Nat.digitChar (n % 10)]

/-- Digits are in the order of their numbers. -/
theorem digitChar_lt_iff {a b : ℕ} (ha : a < 10) (hb : b < 10) :
    Nat.digitChar a < Nat.digitChar b ↔ a < b := by
  have h : ∀ a < 10, ∀ b < 10, (Nat.digitChar a < Nat.digitChar b ↔ a < b) := by decide
  exact h a ha b hb

/-- Digits tell their numbers apart. -/
theorem digitChar_inj {a b : ℕ} (ha : a < 10) (hb : b < 10) :
    Nat.digitChar a = Nat.digitChar b ↔ a = b := by
  have h : ∀ a < 10, ∀ b < 10, (Nat.digitChar a = Nat.digitChar b ↔ a = b) := by decide
  exact h a ha b hb

end Storage
