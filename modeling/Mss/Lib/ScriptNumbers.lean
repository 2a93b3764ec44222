import Mathlib.Data.List.DropRight
import Mathlib.Data.Rat.Floor
import Mss.Lib.Numerals

/-!
# Whole numbers in the texts of a script

How ECMAScript reads a whole number from a text, and writes one.

* `trimStart`, `trim`: a text without the white space at its start, at both ends.
* `digitValue`, `natOf`, `readDigits`: digits of a radix, and what they say.
* **`bigInt`**: what `BigInt` makes of a text; none is a `SyntaxError`.
* **`parseInt`**: what `parseInt` makes of one; none is NaN.
* **`radixText`**, `padStart`: a number written in a radix, and a text filled up to a length.
* `trunc`: the whole part of a number; `trunc_div`: that of a fraction.
* `natOf_of_digits`, `bigInt_hex`, `parseInt_digits`: what is read from digits.
-/

namespace Script

/-! ## Parts of a text -/

/-- White space, and what ends a line. -/
def isWhiteSpace (c : Char) : Bool :=
  let n := c.toNat
  (9 ≤ n && n ≤ 13) || n = 32 || n = 160 || n = 0x1680 || (0x2000 ≤ n && n ≤ 0x200a) ||
    n = 0x2028 || n = 0x2029 || n = 0x202f || n = 0x205f || n = 0x3000 || n = 0xfeff

def trimStart (l : List Char) : List Char := l.dropWhile isWhiteSpace

def trim (l : List Char) : List Char := (trimStart l).rdropWhile isWhiteSpace

/-- What a digit stands for; a letter is one from ten on, and any other sign is none. -/
def digitValue (c : Char) : ℕ :=
  if c.isDigit then c.toNat - 48
  else if 97 ≤ c.toNat ∧ c.toNat ≤ 122 then c.toNat - 87
  else if 65 ≤ c.toNat ∧ c.toNat ≤ 90 then c.toNat - 55
  else 36

/-- The number that digits of a radix say. -/
def natOf (radix : ℕ) (l : List Char) : ℕ := l.foldl (fun n c => radix * n + digitValue c) 0

/-- A text of digits of a radix, of which there is one at least. -/
def readDigits (radix : ℕ) (l : List Char) : Option ℕ :=
  if !l.isEmpty && l.all (fun c => digitValue c < radix) then some (natOf radix l) else none

/-- Whether a text starts with a '-', and what follows its sign. -/
def readSign : List Char → Bool × List Char
  | [] => (false, [])
  | c :: l => if c = '-' then (true, l) else if c = '+' then (false, l) else (false, c :: l)

/-- The number, or what it is with a '-'. -/
def signed (isNegative : Bool) (n : ℕ) : ℤ := if isNegative then -n else n

/-! ## Reading -/

/-- The radix that a letter after a zero stands for. -/
def radixOf (c : Char) : Option ℕ :=
  if c = 'x' ∨ c = 'X' then some 16
  else if c = 'o' ∨ c = 'O' then some 8
  else if c = 'b' ∨ c = 'B' then some 2
  else none

/-- Decimal digits, which may have a sign. -/
def readInteger (l : List Char) : Option ℤ :=
  (readDigits 10 (readSign l).2).map (signed (readSign l).1)

/-- **What `BigInt` makes of a text**: nothing is zero, and a radix goes without a sign. -/
def bigInt (text : List Char) : Option ℤ :=
  match trim text with
  | [] => some 0
  | [c] => readInteger [c]
  | c :: d :: l =>
    match if c = '0' then radixOf d else none with
    | some radix => (readDigits radix l).map Int.ofNat
    | none => readInteger (c :: d :: l)

/-- The radix of a text without sign, and where its digits start. -/
def readRadix : List Char → ℕ × List Char
  | c :: d :: l => if c = '0' ∧ (d = 'x' ∨ d = 'X') then (16, l) else (10, c :: d :: l)
  | l => (10, l)

/-- **What `parseInt` makes of a text**: as many digits as there are at its start. -/
def parseInt (text : List Char) : Option ℤ :=
  let (isNegative, unsigned) := readSign (trimStart text)
  let (radix, rest) := readRadix unsigned
  let digits := rest.takeWhile fun c => digitValue c < radix
  if digits = [] then none else some (signed isNegative (natOf radix digits))

/-! ## Writing -/

/-- **A whole number in a radix.** -/
def radixText (radix : ℕ) (n : ℤ) : List Char :=
  if n < 0 then '-' :: Nat.toDigits radix n.natAbs else Nat.toDigits radix n.natAbs

/-- A text filled up at its start, to a length. -/
def padStart (length : ℕ) (fill : Char) (text : List Char) : List Char := text.leftpad length fill

theorem radixText_natCast (radix n : ℕ) : radixText radix n = Nat.toDigits radix n := by
  rw [radixText, if_neg (by omega), Int.natAbs_natCast]

/-! ## Whole parts -/

/-- **The whole part of a number**, toward zero, as `Math.trunc` has it. -/
def trunc (q : ℚ) : ℤ := if 0 ≤ q then ⌊q⌋ else ⌈q⌉

theorem trunc_div (d : ℤ) {n : ℕ} (hn : 0 < n) : trunc (d / n) = d.tdiv n := by
  have hpos : (0 : ℚ) < n := by exact_mod_cast hn
  by_cases hd : 0 ≤ d
  · have hq : (0 : ℚ) ≤ d / n := div_nonneg (by exact_mod_cast hd) hpos.le
    rw [trunc, if_pos hq, Rat.floor_intCast_div_natCast, Int.tdiv_eq_ediv_of_nonneg hd]
  · have hq : ¬ (0 : ℚ) ≤ d / n := not_le.mpr (div_neg_of_neg_of_pos (by exact_mod_cast not_le.mp hd) hpos)
    rw [trunc, if_neg hq, Rat.ceil_intCast_div_natCast, ← Int.tdiv_eq_ediv_of_nonneg (by omega),
      Int.neg_tdiv, neg_neg]

/-! ## What is read from digits -/

theorem not_isWhiteSpace_of_digitValue {c : Char} (h : digitValue c < 36) :
    isWhiteSpace c = false := by
  unfold digitValue at h
  split_ifs at h with hdigit hlower hupper
  · have hrange : 48 ≤ c.toNat ∧ c.toNat ≤ 57 := by
      simpa [Char.isDigit, UInt32.le_iff_toNat_le] using hdigit
    simp only [isWhiteSpace, Bool.or_eq_false_iff, Bool.and_eq_false_iff, decide_eq_false_iff_not]
    omega
  · simp only [isWhiteSpace, Bool.or_eq_false_iff, Bool.and_eq_false_iff, decide_eq_false_iff_not]
    omega
  · simp only [isWhiteSpace, Bool.or_eq_false_iff, Bool.and_eq_false_iff, decide_eq_false_iff_not]
    omega
  · omega

theorem trimStart_eq_self {l : List Char} (h : ∀ c ∈ l, isWhiteSpace c = false) :
    trimStart l = l := by
  cases l with
  | nil => rfl
  | cons c l => exact List.dropWhile_cons_of_neg (by simp [h c List.mem_cons_self])

theorem trim_eq_self {l : List Char} (h : ∀ c ∈ l, isWhiteSpace c = false) : trim l = l := by
  have hreverse := trimStart_eq_self (l := l.reverse) fun c hc => h c (List.mem_reverse.mp hc)
  rw [trim, trimStart_eq_self h, List.rdropWhile]
  exact (congrArg List.reverse hreverse).trans l.reverse_reverse

theorem readDigits_of_digits {radix : ℕ} {l : List Char} (hne : l ≠ [])
    (hl : ∀ c ∈ l, digitValue c < radix) : readDigits radix l = some (natOf radix l) :=
  if_pos (by simpa [hne] using hl)

theorem natOf_of_digits (radix : ℕ) {l : List Char} (hl : ∀ c ∈ l, c.isDigit = true) :
    natOf radix l = Nat.ofDigitChars radix l 0 := by
  rw [natOf, Nat.ofDigitChars_eq_foldl]
  refine List.foldl_ext _ _ _ fun n c hc => ?_
  rw [digitValue, if_pos (hl c hc)]
  rfl

theorem digitValue_of_isDigit {c : Char} (h : c.isDigit = true) : digitValue c < 10 := by
  have hrange : 48 ≤ c.toNat ∧ c.toNat ≤ 57 := by
    simpa [Char.isDigit, UInt32.le_iff_toNat_le] using h
  rw [digitValue, if_pos h]
  omega

/-- **What `BigInt` makes of a text in hexadecimal.** -/
theorem bigInt_hex {x : Char} (hx : x = 'x' ∨ x = 'X') {l : List Char} (hne : l ≠ [])
    (hl : ∀ c ∈ l, digitValue c < 16) : bigInt ('0' :: x :: l) = some (natOf 16 l : ℤ) := by
  have hblank : ∀ c ∈ '0' :: x :: l, isWhiteSpace c = false := by
    refine List.forall_mem_cons.mpr ⟨by decide, List.forall_mem_cons.mpr ⟨?_, fun c hc => ?_⟩⟩
    · rcases hx with rfl | rfl <;> decide
    · exact not_isWhiteSpace_of_digitValue ((hl c hc).trans (by decide))
  have hradix : radixOf x = some 16 := if_pos hx
  rw [bigInt, trim_eq_self hblank]
  simp only [if_true, hradix, readDigits_of_digits hne hl, Option.map_some]
  rfl

/-- **What `parseInt` makes of decimal digits.** -/
theorem parseInt_digits {l : List Char} (hne : l ≠ []) (hl : ∀ c ∈ l, c.isDigit = true) :
    parseInt l = some (Nat.ofDigitChars 10 l 0 : ℤ) := by
  have hblank : ∀ c ∈ l, isWhiteSpace c = false := fun c hc =>
    not_isWhiteSpace_of_digitValue ((digitValue_of_isDigit (hl c hc)).trans (by decide))
  have hsign : readSign l = (false, l) := by
    cases l with
    | nil => rfl
    | cons c l =>
      have hc := hl c List.mem_cons_self
      have hminus : c ≠ '-' := by rintro rfl; revert hc; decide
      have hplus : c ≠ '+' := by rintro rfl; revert hc; decide
      rw [readSign, if_neg hminus, if_neg hplus]
  have hradix : readRadix l = (10, l) := by
    match l with
    | [] => rfl
    | [c] => rfl
    | c :: d :: l =>
      refine if_neg fun h => ?_
      have hd := hl d (by simp)
      rcases h.2 with rfl | rfl <;> exact absurd hd (by decide)
  have htake : l.takeWhile (fun c => digitValue c < 10) = l :=
    List.takeWhile_eq_self_iff.mpr fun c hc => decide_eq_true (digitValue_of_isDigit (hl c hc))
  rw [parseInt, trimStart_eq_self hblank, hsign]
  simp only [hradix, htake, if_neg hne, signed, Bool.false_eq_true, if_false,
    natOf_of_digits 10 hl]

end Script
