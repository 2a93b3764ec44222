import Mathlib.Data.Rat.Floor
import Mss.Lib.Calendar
import Mss.Lib.Collators

/-!
# Instants written as texts

An instant is counted in milliseconds from the start of 1970-01-01. Its text has its date and its hour,
and as much of the rest as a precision says: 0 is that of hours, 1 of minutes, 2 of seconds, and each
one more has one more digit of a fraction. Texts are compared by weights of their letters.

* `LastWeight`: the weight of a 'Z' after those of digits.
* `dateText`, **`timeText`**: an instant written in a precision.
* **`keys_timeText_lt_iff`**: texts of one precision are in the order of their instants.
* `exists_timeText`: a text of a precision starts with those of the precisions before.
-/

namespace IsoText

open Calendar Collation Storage

/-! ## The weight of a 'Z' -/

/-- **A 'Z' weighs more** than the letters that can stand in its place. The letters of a timestamp are
single. -/
structure LastWeight {κ : Type} [LinearOrder κ] (w : Weights κ) (z : κ) : Prop where
  single : ∀ c ∈ ['-', 'T', ':', '.', 'Z'], w.isSingle c = true
  last : w.of 'Z' = some z
  digit_lt : ∀ n < 10, w.digit n < z
  separator_lt : ∀ c, c = ':' ∨ c = '.' → ∀ k ∈ w.of c, k < z

/-! ## Dates -/

/-- A date in ISO 8601. -/
def dateText (day : ℤ) : List Char :=
  digits 4 (dateOf day).year.toNat ++ '-' :: (digits 2 (dateOf day).month.toNat ++
    '-' :: digits 2 (dateOf day).day.toNat)

/-- The years of four digits. -/
def HasYear (day : ℤ) : Prop := 0 ≤ (dateOf day).year ∧ (dateOf day).year < 10000

instance (day : ℤ) : Decidable (HasYear day) := inferInstanceAs (Decidable (_ ∧ _))

section Dates

variable {κ : Type} [LinearOrder κ] (w : Weights κ)

theorem keys_dateText_lt_iff {a b : ℤ} (ha : HasYear a) (hb : HasYear b) (s t : List κ) :
    w.keys (dateText a) ++ s < w.keys (dateText b) ++ t ↔ a < b ∨ a = b ∧ s < t := by
  have hkeys : ∀ (day : ℤ) (s : List κ), w.keys (dateText day) ++ s =
      w.keys (digits 4 (dateOf day).year.toNat) ++ (w.keys ['-'] ++
        (w.keys (digits 2 (dateOf day).month.toNat) ++ (w.keys ['-'] ++
          (w.keys (digits 2 (dateOf day).day.toNat) ++ s)))) := by
    intro day s
    rw [dateText, List.append_cons, List.append_cons _ '-' (digits 2 (dateOf day).day.toNat)]
    simp only [w.keys_append, List.append_assoc]
  have hmonth := month_bounds a
  have hmonth' := month_bounds b
  have hday := day_bounds a
  have hday' := day_bounds b
  unfold HasYear at ha hb
  rw [hkeys, hkeys, w.keys_digits_lt_iff 4 (by omega) (by omega), append_lt_append_iff,
    w.keys_digits_lt_iff 2 (by omega) (by omega), append_lt_append_iff,
    w.keys_digits_lt_iff 2 (by omega) (by omega)]
  have hlt := lt_iff_date (a := a) (b := b)
  have hgt := lt_iff_date (a := b) (b := a)
  by_cases hst : s < t
  · simp only [hst, and_true]
    omega
  · simp only [hst, and_false, or_false]
    omega

end Dates

/-! ## Instants -/

/-- How many of the next precision's steps a step has. -/
def radix : ℕ → ℕ
  | 0 => 60
  | 1 => 60
  | _ => 10

/-- How many digits the next precision adds. -/
def width : ℕ → ℕ
  | 0 => 2
  | 1 => 2
  | _ => 1

/-- What stands before the digits that the next precision adds. -/
def separator : ℕ → List Char
  | 0 => [':']
  | 1 => [':']
  | 2 => ['.']
  | _ => []

/-- The milliseconds of a step of a precision. -/
def step : ℕ → ℚ
  | 0 => 3600000
  | p + 1 => step p / radix p

/-- The day of an instant. -/
def dayOf (x : ℚ) : ℤ := ⌊x / 86400000⌋

/-- **An instant in ISO 8601**, in a precision and without an offset. -/
def timeText : ℕ → ℚ → List Char
  | 0, x => dateText (dayOf x) ++ 'T' :: digits 2 (⌊x / step 0⌋ % 24).toNat
  | p + 1, x =>
    timeText p x ++ (separator p ++ digits (width p) (⌊x / step (p + 1)⌋ % radix p).toNat)

theorem radix_pos (p : ℕ) : 0 < radix p := by
  unfold radix
  split <;> omega

theorem step_pos (p : ℕ) : 0 < step p := by
  induction p with
  | zero => norm_num [step]
  | succ p ih => exact div_pos ih (by exact_mod_cast radix_pos p)

theorem step_eq (p : ℕ) : step p = step (p + 1) * radix p :=
  (div_mul_cancel₀ _ (by exact_mod_cast (radix_pos p).ne')).symm

theorem floor_step (p : ℕ) (x : ℚ) : ⌊x / step p⌋ = ⌊x / step (p + 1)⌋ / radix p := by
  rw [step_eq, ← div_div, Int.floor_div_natCast]

theorem dayOf_eq (x : ℚ) : dayOf x = ⌊x / step 0⌋ / 24 := by
  have hsplit : x / 86400000 = x / step 0 / (24 : ℕ) := by
    rw [div_div]
    norm_num [step]
  rw [dayOf, hsplit, Int.floor_div_natCast]
  rfl

theorem lt_or_eq_and_iff (a b : ℤ) {r : ℕ} (hr : 0 < r) (P : Prop) :
    (a / r < b / r ∨ a / r = b / r ∧ ((a % r).toNat < (b % r).toNat ∨
      (a % r).toNat = (b % r).toNat ∧ P)) ↔ a < b ∨ a = b ∧ P := by
  have hpos : (0 : ℤ) < r := by exact_mod_cast hr
  have ha := Int.mul_ediv_add_emod a r
  have hb := Int.mul_ediv_add_emod b r
  have hmod := Int.emod_nonneg a hpos.ne'
  have hmod' := Int.emod_nonneg b hpos.ne'
  rcases lt_trichotomy (a / r) (b / r) with hlt | heq | hgt
  · have hless : a < b := lt_of_not_ge fun hge => (Int.ediv_le_ediv hpos hge).not_gt hlt
    exact iff_of_true (.inl hlt) (.inl hless)
  · rw [heq] at ha ⊢
    generalize (r : ℤ) * (b / r) = whole at ha hb
    generalize a % (r : ℤ) = m at *
    generalize b % (r : ℤ) = n at *
    by_cases hP : P
    · simp only [hP, and_true, lt_irrefl, false_or, true_and]
      omega
    · simp only [hP, and_false, or_false, lt_irrefl, false_or, true_and]
      omega
  · have hmore : b < a := lt_of_not_ge fun hge => (Int.ediv_le_ediv hpos hge).not_gt hgt
    refine iff_of_false ?_ ?_
    · rintro (h | ⟨h, -⟩)
      · exact h.not_gt hgt
      · exact hgt.ne' h
    · rintro (h | ⟨h, -⟩)
      · exact h.not_gt hmore
      · exact hmore.ne' h

theorem emod_toNat_lt (a : ℤ) {r bound : ℕ} (hr : 0 < r) (hbound : r ≤ bound) :
    (a % r).toNat < bound := by
  have hless := Int.emod_lt_of_pos a (show (0 : ℤ) < r by exact_mod_cast hr)
  omega

theorem radix_le (p : ℕ) : radix p ≤ 10 ^ width p := by
  unfold radix width
  split <;> norm_num

section Instants

variable {κ : Type} [LinearOrder κ] (w : Weights κ)

/-- **Texts of one precision are in the order of their instants**, and of what follows them. -/
theorem keys_timeText_lt_iff (p : ℕ) {x y : ℚ} (hx : HasYear (dayOf x)) (hy : HasYear (dayOf y))
    (s t : List κ) :
    w.keys (timeText p x) ++ s < w.keys (timeText p y) ++ t ↔
      ⌊x / step p⌋ < ⌊y / step p⌋ ∨ ⌊x / step p⌋ = ⌊y / step p⌋ ∧ s < t := by
  induction p generalizing s t with
  | zero =>
    have hkeys : ∀ (x : ℚ) (s : List κ), w.keys (timeText 0 x) ++ s =
        w.keys (dateText (dayOf x)) ++ (w.keys ['T'] ++
          (w.keys (digits 2 (⌊x / step 0⌋ % (24 : ℕ)).toNat) ++ s)) := by
      intro x s
      rw [timeText, List.append_cons]
      simp only [w.keys_append, List.append_assoc]
      rfl
    have hhour : ∀ x, (⌊x / step 0⌋ % (24 : ℕ)).toNat < 10 ^ 2 := fun x =>
      emod_toNat_lt _ (by decide) (by decide)
    rw [hkeys, hkeys, keys_dateText_lt_iff w hx hy, append_lt_append_iff,
      w.keys_digits_lt_iff 2 (hhour x) (hhour y), dayOf_eq, dayOf_eq]
    exact lt_or_eq_and_iff _ _ (by decide) _
  | succ p ih =>
    have hkeys : ∀ (x : ℚ) (s : List κ), w.keys (timeText (p + 1) x) ++ s =
        w.keys (timeText p x) ++ (w.keys (separator p) ++
          (w.keys (digits (width p) (⌊x / step (p + 1)⌋ % radix p).toNat) ++ s)) := by
      intro x s
      rw [timeText]
      simp only [w.keys_append, List.append_assoc]
    have hpart : ∀ x, (⌊x / step (p + 1)⌋ % radix p).toNat < 10 ^ width p := fun x =>
      emod_toNat_lt _ (radix_pos p) (radix_le p)
    rw [hkeys, hkeys, ih, append_lt_append_iff, w.keys_digits_lt_iff _ (hpart x) (hpart y),
      floor_step p x, floor_step p y]
    exact lt_or_eq_and_iff _ _ (radix_pos p) _

/-- **A text of a precision** starts with that of one before, after which there are digits. -/
theorem exists_timeText {p q : ℕ} (h : p < q) (x : ℚ) : ∃ n more, timeText q x =
    timeText p x ++ (separator p ++ digits (width p) n ++ more) := by
  induction q with
  | zero => omega
  | succ q ih =>
    rcases (Nat.lt_succ_iff.mp h).lt_or_eq with hless | rfl
    · obtain ⟨n, more, hmore⟩ := ih hless
      refine ⟨n, more ++ (separator q ++ digits (width q) (⌊x / step (q + 1)⌋ % radix q).toNat), ?_⟩
      rw [timeText, hmore]
      simp only [List.append_assoc]
    · refine ⟨(⌊x / step (p + 1)⌋ % radix p).toNat, [], ?_⟩
      rw [timeText, List.append_nil]

theorem exists_digits (width n : ℕ) : ∃ d < 10, ∃ rest,
    digits (width + 1) n = Nat.digitChar d :: rest := by
  induction width generalizing n with
  | zero => exact ⟨n % 10, Nat.mod_lt n (by omega), [], rfl⟩
  | succ width ih =>
    obtain ⟨d, hd, rest, hrest⟩ := ih (n / 10)
    refine ⟨d, hd, rest ++ [Nat.digitChar (n % 10)], ?_⟩
    rw [digits, hrest]
    rfl

theorem exists_width (p : ℕ) : ∃ n, width p = n + 1 := by
  unfold width
  split
  · exact ⟨1, rfl⟩
  · exact ⟨1, rfl⟩
  · exact ⟨0, rfl⟩

theorem keys_more_lt {z : κ} (hz : LastWeight w z) (p n : ℕ) (more : List Char) (s : List κ) :
    w.keys (separator p ++ digits (width p) n ++ more) ++ s < [z] := by
  obtain ⟨k, hk⟩ := exists_width p
  obtain ⟨d, hd, rest, hdigits⟩ := exists_digits k n
  have hstart : w.keys (digits (width p) n ++ more) ++ s = w.digit d :: (w.keys (rest ++ more) ++ s) := by
    rw [hk, hdigits, List.cons_append, w.keys_cons (w.of_digit d hd), List.cons_append]
  have hseparator : separator p = [] ∨ ∃ c, (c = ':' ∨ c = '.') ∧ separator p = [c] := by
    unfold separator
    split
    · exact .inr ⟨':', .inl rfl, rfl⟩
    · exact .inr ⟨':', .inl rfl, rfl⟩
    · exact .inr ⟨'.', .inr rfl, rfl⟩
    · exact .inl rfl
  have hdigit : w.keys (digits (width p) n ++ more) ++ s < [z] := by
    rw [hstart, List.cons_lt_cons_iff]
    exact .inl (hz.digit_lt d hd)
  rcases hseparator with hnone | ⟨c, hc, hone⟩
  · rw [hnone]
    exact hdigit
  · rw [hone, List.append_assoc, List.singleton_append]
    cases hweight : w.of c with
    | none =>
      rw [Weights.keys, List.filterMap_cons_none hweight]
      exact hdigit
    | some j =>
      rw [w.keys_cons hweight, List.cons_append, List.cons_lt_cons_iff]
      exact .inl (hz.separator_lt c hc j hweight)

end Instants

/-! ## Timestamps -/

/-- **An instant in UTC**, written in a precision that it is a whole number of steps of. -/
structure Timestamp where
  precision : ℕ
  instant : ℚ
  isWhole : ∃ n : ℤ, instant = n * step precision
  hasYear : HasYear (dayOf instant)

/-- The text of a timestamp, which ends in 'Z'. -/
def Timestamp.text (t : Timestamp) : List Char := timeText t.precision t.instant ++ ['Z']

section Timestamps

variable {κ : Type} [LinearOrder κ] (w : Weights κ) {z : κ} {s t : Timestamp}

theorem covers_timeText (hz : LastWeight w z) (p : ℕ) (x : ℚ) : w.Covers (timeText p x) := by
  have hsingle : ∀ s ⊆ ['-', 'T', ':', '.', 'Z'], w.Covers s := fun s hs c hc => hz.single c (hs hc)
  induction p with
  | zero =>
    change w.Covers (digits 4 _ ++ (['-'] ++ (digits 2 _ ++ (['-'] ++ digits 2 _))) ++
      (['T'] ++ digits 2 _))
    simp only [w.covers_append, w.covers_digits, true_and, and_true]
    exact ⟨⟨hsingle ['-'] (by decide), hsingle ['-'] (by decide)⟩, hsingle ['T'] (by decide)⟩
  | succ p ih =>
    rw [timeText, w.covers_append, w.covers_append]
    refine ⟨ih, hsingle _ ?_, w.covers_digits _ _⟩
    unfold separator
    split <;> decide

theorem Timestamp.covers_text (hz : LastWeight w z) (t : Timestamp) : w.Covers t.text :=
  w.covers_append.mpr ⟨covers_timeText w hz _ _, List.forall_mem_singleton.mpr (hz.single 'Z' (by decide))⟩

theorem Timestamp.keys_text (hz : LastWeight w z) (t : Timestamp) :
    w.keys t.text = w.keys (timeText t.precision t.instant) ++ [z] := by
  rw [text, w.keys_append, w.keys_cons hz.last]
  rfl

theorem exists_step_eq {p q : ℕ} (h : p ≤ q) : ∃ k : ℕ, step p = k * step q := by
  induction q, h using Nat.le_induction with
  | base => exact ⟨1, by rw [Nat.cast_one, one_mul]⟩
  | succ q _ ih =>
    obtain ⟨k, hk⟩ := ih
    refine ⟨k * radix q, ?_⟩
    rw [hk, step_eq q, Nat.cast_mul]
    ring

theorem Timestamp.exists_instant {p : ℕ} (t : Timestamp) (h : t.precision ≤ p) :
    ∃ n : ℤ, t.instant = n * step p := by
  obtain ⟨n, hn⟩ := t.isWhole
  obtain ⟨k, hk⟩ := exists_step_eq h
  refine ⟨n * k, ?_⟩
  rw [hn, hk]
  push_cast
  ring

theorem floor_of_eq {p : ℕ} {x : ℚ} {n : ℤ} (h : x = n * step p) : ⌊x / step p⌋ = n := by
  rw [h, mul_div_cancel_right₀ _ (step_pos p).ne', Int.floor_intCast]

theorem Timestamp.keys_lt_of_floor_lt {p : ℕ} (hs : p ≤ s.precision) (ht : p ≤ t.precision)
    (h : ⌊s.instant / step p⌋ < ⌊t.instant / step p⌋) : w.keys s.text < w.keys t.text := by
  have hstart : ∀ u : Timestamp, p ≤ u.precision →
      ∃ rest, w.keys u.text = w.keys (timeText p u.instant) ++ rest := by
    intro u hu
    rcases hu.lt_or_eq with hless | heq
    · obtain ⟨n, more, hmore⟩ := exists_timeText hless u.instant
      refine ⟨w.keys (separator p ++ digits (width p) n ++ more ++ ['Z']), ?_⟩
      rw [text, hmore, List.append_assoc, w.keys_append]
    · refine ⟨w.keys ['Z'], ?_⟩
      rw [text, ← heq, w.keys_append]
  obtain ⟨rest, hrest⟩ := hstart s hs
  obtain ⟨rest', hrest'⟩ := hstart t ht
  rw [hrest, hrest', keys_timeText_lt_iff w p s.hasYear t.hasYear]
  exact .inl h

/-- **A timestamp comes before those** that are a step of it later, or more. -/
theorem Timestamp.keys_lt_of_step_le (h : s.instant + step s.precision ≤ t.instant) :
    w.keys s.text < w.keys t.text := by
  have hpos := step_pos s.precision
  rcases le_or_gt s.precision t.precision with hle | hgt
  · obtain ⟨n, hn⟩ := s.isWhole
    refine keys_lt_of_floor_lt w le_rfl hle ?_
    rw [floor_of_eq hn, ← Int.add_one_le_iff, Int.le_floor, le_div_iff₀ hpos]
    push_cast
    linarith
  · obtain ⟨n, hn⟩ := t.isWhole
    refine keys_lt_of_floor_lt w hgt.le le_rfl ?_
    rw [floor_of_eq hn, Int.floor_lt, div_lt_iff₀ (step_pos t.precision)]
    linarith

/-- **But it comes after those** that are later by less than a step of it. -/
theorem Timestamp.keys_lt_of_lt_step (hz : LastWeight w z) (h : s.instant < t.instant)
    (h' : t.instant < s.instant + step s.precision) : w.keys t.text < w.keys s.text := by
  have hpos := step_pos s.precision
  obtain ⟨n, hn⟩ := s.isWhole
  have hprecision : s.precision < t.precision := by
    by_contra hle
    obtain ⟨k, hk⟩ := t.exists_instant (not_lt.mp hle)
    rw [hn, hk] at h h'
    have hless : (n : ℚ) < k := lt_of_mul_lt_mul_right h hpos.le
    have hmore : (k : ℚ) < n + 1 := by
      refine lt_of_mul_lt_mul_right (h'.trans_eq ?_) hpos.le
      ring
    have hless' : n < k := by exact_mod_cast hless
    have hmore' : k < n + 1 := by exact_mod_cast hmore
    omega
  have hfloor : ⌊t.instant / step s.precision⌋ = n := by
    rw [Int.floor_eq_iff, le_div_iff₀ hpos, div_lt_iff₀ hpos]
    constructor
    · linarith
    · linarith
  obtain ⟨m, more, ht⟩ := exists_timeText hprecision t.instant
  rw [keys_text w hz, keys_text w hz, ht, w.keys_append, List.append_assoc,
    keys_timeText_lt_iff w _ t.hasYear s.hasYear, hfloor, floor_of_eq hn]
  exact .inr ⟨rfl, keys_more_lt w hz _ m more [z]⟩

theorem Timestamp.text_ne_nil (t : Timestamp) : t.text ≠ [] := by
  rw [text]
  simp

end Timestamps

/-! ## Readings of a clock -/

/-- **The reading of a clock** that a timestamp's text is up to: the first step after it, of its
precision or of milliseconds. -/
def Timestamp.turn (t : Timestamp) : ℚ :=
  (⌊t.instant / step (min t.precision 5)⌋ + 1) * step (min t.precision 5)

theorem lastWeight_letterWeights : LastWeight letterWeights 'Z' where
  single _ _ := rfl
  last := rfl
  digit_lt := by decide
  separator_lt := by
    rintro c (rfl | rfl) k hk
    · obtain rfl : ':' = k := Option.some_inj.mp hk
      decide
    · obtain rfl : '.' = k := Option.some_inj.mp hk
      decide

theorem timeText_lt_iff (p : ℕ) {x y : ℚ} (hx : HasYear (dayOf x)) (hy : HasYear (dayOf y))
    (s t : List Char) : timeText p x ++ s < timeText p y ++ t ↔
      ⌊x / step p⌋ < ⌊y / step p⌋ ∨ ⌊x / step p⌋ = ⌊y / step p⌋ ∧ s < t := by
  have hkeys := keys_timeText_lt_iff letterWeights p hx hy s t
  rwa [keys_letterWeights, keys_letterWeights] at hkeys

theorem more_lt (p n : ℕ) (more s : List Char) :
    separator p ++ digits (width p) n ++ more ++ s < ['Z'] := by
  have hkeys := keys_more_lt letterWeights lastWeight_letterWeights p n more s
  rwa [keys_letterWeights] at hkeys

theorem sign_lt_digit {sign : Char} (hsign : sign = '+' ∨ sign = '-') {d : ℕ} (hd : d < 10) :
    sign < Nat.digitChar d := by
  have hall : ∀ d < 10, '+' < Nat.digitChar d ∧ '-' < Nat.digitChar d := by decide
  rcases hsign with rfl | rfl
  · exact (hall d hd).1
  · exact (hall d hd).2

/-- **A timestamp's text is up to a clock's text** of milliseconds and an offset, from its turn on. -/
theorem Timestamp.text_le_iff (t : Timestamp) {x : ℤ} (hx : HasYear (dayOf x)) {sign : Char}
    (hsign : sign = '+' ∨ sign = '-') (rest : List Char) :
    t.text ≤ timeText 5 x ++ sign :: rest ↔ t.turn ≤ x := by
  -- both texts start with one of the less precise of the two
  have hstart : ∀ {p : ℕ} {s u : List Char}, min t.precision 5 = p →
      t.text = timeText p t.instant ++ s → timeText 5 x ++ sign :: rest = timeText p x ++ u → u < s →
        (t.text ≤ timeText 5 x ++ sign :: rest ↔ t.turn ≤ x) := by
    intro p s u hp hs hu hless
    have hpos := step_pos p
    rw [hs, hu, ← not_lt, timeText_lt_iff p hx t.hasYear, turn, hp]
    rw [← le_div_iff₀ hpos, ← Int.cast_one, ← Int.cast_add, ← Int.le_floor]
    simp only [hless, and_true]
    omega
  rcases lt_trichotomy t.precision 5 with hp | hp | hp
  · obtain ⟨n, more, hmore⟩ := exists_timeText hp (x : ℚ)
    refine hstart (min_eq_left hp.le) rfl ?_ (more_lt t.precision n more (sign :: rest))
    rw [hmore, List.append_assoc]
  · refine hstart (p := 5) (s := ['Z']) (by omega) ?_ rfl ?_
    · rw [text, hp]
    · rw [List.cons_lt_cons_iff]
      rcases hsign with rfl | rfl
      · exact .inl (by decide)
      · exact .inl (by decide)
  · obtain ⟨n, more, hmore⟩ := exists_timeText hp t.instant
    obtain ⟨d, hd, digits', hdigits⟩ := exists_digits 0 n
    refine hstart (min_eq_right hp.le) ?_ rfl (s := Nat.digitChar d :: (digits' ++ more ++ ['Z'])) ?_
    · rw [text, hmore, List.append_assoc]
      simp only [separator, width, hdigits, List.nil_append, List.cons_append, List.append_assoc]
    · rw [List.cons_lt_cons_iff]
      exact .inl (sign_lt_digit hsign hd)

theorem exists_digit_timeText (p : ℕ) (x : ℚ) :
    ∃ d < 10, ∃ rest, timeText p x = Nat.digitChar d :: rest := by
  induction p with
  | zero =>
    obtain ⟨d, hd, rest, hrest⟩ := exists_digits 3 (dateOf (dayOf x)).year.toNat
    rw [timeText, dateText, hrest]
    exact ⟨d, hd, _, rfl⟩
  | succ p ih =>
    obtain ⟨d, hd, rest, hrest⟩ := ih
    rw [timeText, hrest]
    exact ⟨d, hd, _, rfl⟩

theorem Timestamp.sign_lt_text (t : Timestamp) {sign : Char} (hsign : sign = '+' ∨ sign = '-')
    (rest : List Char) : sign :: rest < t.text := by
  obtain ⟨d, hd, rest', hrest⟩ := exists_digit_timeText t.precision t.instant
  rw [text, hrest, List.cons_append, List.cons_lt_cons_iff]
  exact .inl (sign_lt_digit hsign hd)

theorem Timestamp.lt_turn (t : Timestamp) : t.instant < t.turn := by
  rw [turn, ← div_lt_iff₀ (step_pos _)]
  exact Int.lt_floor_add_one _

theorem Timestamp.year_nonneg_of_turn_le (t : Timestamp) {x : ℚ} (h : t.turn ≤ x) :
    0 ≤ (dateOf (dayOf x)).year := by
  have hday : dayOf t.instant ≤ dayOf x :=
    Int.floor_le_floor (div_le_div_of_nonneg_right (t.lt_turn.le.trans h) (by norm_num))
  exact t.hasYear.1.trans (year_mono hday)

end IsoText
