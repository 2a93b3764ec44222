import Mathlib.Algebra.Order.Round
import Mss.Lib.Doubles
import Mss.Lib.ScriptNumbers

/-!
# Numbers of a script

The numbers of ECMAScript are doubles, and a half is rounded to the even one. The sign of a zero is
left out, as equality does.

* `FiniteDouble`, `Number`; **`Number.ofRat`**: the number that a value is rounded to.
* `Decimal`; `shortest`: the fewest digits that a double is read back from.
* **`Number.text`**: how a number is written.
* **`parseFloat`**: the number at the start of a text, of which the longest part is read.
* `text_digit`: how the numbers up to nine are written; **`parseFloat_singleton`**: what is read from
  one letter.
-/

namespace Script

/-! ## Numbers -/

/-- The nearest whole number, a half going to the even one. -/
def toEven (q : ℚ) : ℤ := if Int.fract q = 1 / 2 ∧ Even ⌊q⌋ then ⌊q⌋ else round q

theorem roundsToNearest_toEven : Doubles.RoundsToNearest toEven := by
  intro q
  rw [abs_sub_comm]
  unfold toEven
  split_ifs with hhalf
  · rw [← Int.fract, hhalf.1]
    norm_num
  · exact abs_sub_round q

/-- **A finite double.** -/
@[ext]
structure FiniteDouble where
  value : ℚ
  isDouble : Doubles.nearest toEven value = value
  inRange : |value| < 2 ^ 1024
  deriving DecidableEq

/-- A whole number of up to 53 binary digits. -/
def FiniteDouble.ofNat (n : ℕ) (hn : n ≤ 2 ^ 53) : FiniteDouble where
  value := n
  isDouble := Doubles.nearest_intCast roundsToNearest_toEven (n := n) (by
    rw [Nat.abs_cast]
    exact_mod_cast hn)
  inRange := by
    rw [Nat.abs_cast]
    exact_mod_cast hn.trans_lt (Nat.pow_lt_pow_right one_lt_two (by norm_num))

/-- A number of a script. -/
inductive Number
  | nan
  | infinite (isNegative : Bool)
  | finite (d : FiniteDouble)
  deriving DecidableEq

/-- **The number that a value is rounded to.** -/
def Number.ofRat (q : ℚ) : Number :=
  if h : |Doubles.nearest toEven q| < 2 ^ 1024 then
    .finite ⟨_, Doubles.nearest_nearest roundsToNearest_toEven q, h⟩
  else .infinite (q < 0)

theorem Number.ofRat_value (d : FiniteDouble) : Number.ofRat d.value = .finite d := by
  have hrange : |Doubles.nearest toEven d.value| < 2 ^ 1024 := by
    rw [d.isDouble]
    exact d.inRange
  rw [Number.ofRat, dif_pos hrange]
  congr 1
  exact FiniteDouble.ext d.isDouble

theorem Number.value_of_ofRat {n : ℕ} (hn : n ≤ 2 ^ 53) {d : FiniteDouble}
    (h : Number.ofRat n = .finite d) : d.value = n := by
  unfold Number.ofRat at h
  split_ifs at h
  cases h
  exact (FiniteDouble.ofNat n hn).isDouble

/-! ## How a number is written -/

/-- **Digits and the place of the point** among or beside them. -/
structure Decimal where
  digits : ℕ
  count : ℕ
  point : ℤ

def Decimal.value (d : Decimal) : ℚ := d.digits * 10 ^ (d.point - d.count)

/-- The decimals of a count of digits that a number stands between, the nearer one first. -/
def decimalsAround (q : ℚ) (count : ℕ) : List Decimal :=
  let point := Int.log 10 q + 1
  let scaled := q * 10 ^ (count - point)
  let near := toEven scaled
  [near, 2 * ⌊scaled⌋ + 1 - near].map fun digits =>
    if digits = 10 ^ count then ⟨10 ^ (count - 1), count, point + 1⟩
    else ⟨digits.toNat, count, point⟩

/-- **The fewest digits that a double is read back from.** Seventeen tell all of them apart. -/
def shortest (q : ℚ) : Decimal :=
  (((List.range' 1 17).flatMap (decimalsAround q)).find? fun d =>
    Doubles.nearest toEven d.value = q).getD ⟨0, 1, 1⟩

def Decimal.text (d : Decimal) : List Char :=
  let digits := Nat.toDigits 10 d.digits
  if 0 < d.point ∧ d.point ≤ 21 then
    if d.count ≤ d.point then digits ++ List.replicate (d.point - d.count).toNat '0'
    else digits.take d.point.toNat ++ '.' :: digits.drop d.point.toNat
  else if -6 < d.point ∧ d.point ≤ 0 then
    '0' :: '.' :: List.replicate (-d.point).toNat '0' ++ digits
  else
    digits.take 1 ++ (if d.count = 1 then [] else '.' :: digits.drop 1) ++
      'e' :: (if 0 < d.point then '+' else '-') :: Nat.toDigits 10 (d.point - 1).natAbs

/-- **How a number is written.** -/
def Number.text : Number → List Char
  | .nan => "NaN".toList
  | .infinite isNegative => (if isNegative then ['-'] else []) ++ "Infinity".toList
  | .finite d =>
    if d.value = 0 then ['0']
    else (if d.value < 0 then ['-'] else []) ++ (shortest |d.value|).text

/-! ## What is read from a text -/

/-- The digits after a point, and what follows them. -/
def readFraction : List Char → List Char × List Char
  | [] => ([], [])
  | c :: l => if c = '.' then (l.takeWhile Char.isDigit, l.dropWhile Char.isDigit) else ([], c :: l)

/-- The exponent at the start of a text, if there is one. -/
def readExponent : List Char → ℤ
  | [] => 0
  | c :: l =>
    if c = 'e' ∨ c = 'E' then
      signed (readSign l).1 (natOf 10 ((readSign l).2.takeWhile Char.isDigit))
    else 0

/-- The decimal at the start of a text without a sign. -/
def readDecimal (l : List Char) : Option ℚ :=
  let whole := l.takeWhile Char.isDigit
  let (fraction, rest) := readFraction (l.dropWhile Char.isDigit)
  if whole ++ fraction = [] then none
  else some (natOf 10 (whole ++ fraction) * 10 ^ (readExponent rest - fraction.length))

/-- **What `parseFloat` makes of a text.** -/
def parseFloat (text : List Char) : Number :=
  let (isNegative, body) := readSign (trimStart text)
  if "Infinity".toList.isPrefixOf body then .infinite isNegative
  else
    match readDecimal body with
    | none => .nan
    | some q => Number.ofRat (if isNegative then -q else q)

/-! ## Numbers up to nine -/

theorem text_digit {d : FiniteDouble} {n : ℕ} (hd : d.value = n) (hn : n < 10) :
    (Number.finite d).text = [Nat.digitChar n] := by
  by_cases hzero : n = 0
  · rw [Number.text, if_pos (by rw [hd, hzero, Nat.cast_zero]), hzero]
    rfl
  · have hpos : (0 : ℚ) < n := by exact_mod_cast Nat.pos_of_ne_zero hzero
    have hlog : Int.log 10 (n : ℚ) = 0 := by
      rw [Int.log_natCast, Nat.log_of_lt hn, Nat.cast_zero]
    have heven : toEven (n : ℚ) = n := roundsToNearest_toEven.intCast n
    have hread : Doubles.nearest toEven (n : ℚ) = n := by rw [← hd, d.isDouble]
    have haround : (decimalsAround n 1).head? = some ⟨n, 1, 1⟩ := by
      simp only [decimalsAround, hlog, zero_add, Nat.cast_one, sub_self, zpow_zero, mul_one, heven,
        List.map_cons, pow_one, Int.toNat_natCast, List.head?_cons]
      rw [if_neg (by omega)]
    have hshortest : shortest n = ⟨n, 1, 1⟩ := by
      obtain ⟨l, hl⟩ := List.head?_eq_some_iff.mp haround
      rw [shortest, List.range'_succ, List.flatMap_cons, hl, List.cons_append,
        List.find?_cons_of_pos, Option.getD_some]
      simpa [Decimal.value] using hread
    rw [Number.text, hd, if_neg hpos.ne', if_neg hpos.le.not_gt, abs_of_pos hpos, hshortest]
    simp [Decimal.text, Nat.toDigits_of_lt_base hn]

theorem parseFloat_singleton (c : Char) :
    parseFloat [c] = if c.isDigit then Number.ofRat (c.toNat - 48 : ℕ) else .nan := by
  have hword : ∀ l : List Char, l.length ≤ 1 → "Infinity".toList.isPrefixOf l = false := by
    intro l hl
    rw [Bool.eq_false_iff]
    intro hprefix
    have hlength := (List.isPrefixOf_iff_prefix.mp hprefix).length_le
    exact absurd (hlength.trans hl) (by decide)
  by_cases hc : c.isDigit = true
  · have hblank : isWhiteSpace c = false :=
      not_isWhiteSpace_of_digitValue ((digitValue_of_isDigit hc).trans (by decide))
    have hminus : c ≠ '-' := by rintro rfl; revert hc; decide
    have hplus : c ≠ '+' := by rintro rfl; revert hc; decide
    have htrim : trimStart [c] = [c] := List.dropWhile_cons_of_neg (by simp [hblank])
    have hsign : readSign [c] = (false, [c]) := by rw [readSign, if_neg hminus, if_neg hplus]
    have hvalue : digitValue c = c.toNat - 48 := if_pos hc
    have hread : readDecimal [c] = some ((c.toNat - 48 : ℕ) : ℚ) := by
      simp [readDecimal, hc, readFraction, readExponent, natOf, hvalue]
    rw [parseFloat, htrim, hsign]
    simp only [hword [c] le_rfl, hread, if_pos hc, Bool.false_eq_true, if_false]
  · have hnone : ∀ l : List Char, l = [] ∨ l = [c] → readDecimal l = none := by
      rintro l (rfl | rfl)
      · rfl
      · by_cases hpoint : c = '.'
        · rw [hpoint]
          rfl
        · simp [readDecimal, hc, readFraction, hpoint]
    have hbody : (readSign (trimStart [c])).2 = [] ∨ (readSign (trimStart [c])).2 = [c] := by
      have htrim : trimStart [c] = [] ∨ trimStart [c] = [c] := by
        by_cases hblank : isWhiteSpace c = true
        · exact .inl (List.dropWhile_cons_of_pos hblank)
        · exact .inr (List.dropWhile_cons_of_neg hblank)
      rcases htrim with htrim | htrim
      · rw [htrim]
        exact .inl rfl
      · rw [htrim, readSign]
        split_ifs
        · exact .inl rfl
        · exact .inl rfl
        · exact .inr rfl
    have hlength : (readSign (trimStart [c])).2.length ≤ 1 := by
      rcases hbody with h | h
      · rw [h]
        exact zero_le_one
      · rw [h]
        exact le_rfl
    unfold parseFloat
    simp only [hword _ hlength, hnone _ hbody, if_neg hc, Bool.false_eq_true, if_false]

end Script
