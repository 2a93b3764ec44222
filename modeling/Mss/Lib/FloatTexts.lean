import Mathlib.Algebra.Order.Field.Basic
import Mathlib.Algebra.Order.Ring.Rat
import Mathlib.Data.List.DropRight
import Mathlib.Tactic.Positivity

/-!
# Texts that floats are read from

Blanks around a text are dropped. Then come a sign and an infinity, the undefined number or a
numeral: digits with a point among them, and an exponent. Single underscores may stand between
digits. Blanks and digits are those of Latin-1.

* `breakAt`, `readSign`, `isDigitPart`: the parts of a text.
* `readNumber`, `readExponent`, `readNumeral`, **`readLiteral`**: what the text says.
* `IsPlain`: a decimal without sign and exponent; `Spells`: a text that makes an exponent of it.
* `letter_of_readLiteral`: the letters of a text that a float is read from.
* **`readLiteral_dash`**: what a text says that ends in '-' and a plain decimal.
-/

namespace FloatText

/-! ## Parts of a text -/

/-- A blank, which is dropped at either end. -/
def isSpace (c : Char) : Bool :=
  (9 ≤ c.toNat && c.toNat ≤ 13) || (28 ≤ c.toNat && c.toNat ≤ 32) || c.toNat = 133 || c.toNat = 160

/-- The text without the blanks at its ends. -/
def strip (l : List Char) : List Char := (l.rdropWhile isSpace).dropWhile isSpace

/-- What stands before the first such letter, and after it if there is one. -/
def breakAt (p : Char → Bool) : List Char → List Char × Option (List Char)
  | [] => ([], none)
  | c :: l => if p c then ([], some l) else (c :: (breakAt p l).1, (breakAt p l).2)

/-- Whether the text starts with a '-', and what follows its sign. -/
def readSign : List Char → Bool × List Char
  | '-' :: l => (true, l)
  | '+' :: l => (false, l)
  | l => (false, l)

/-- Digits, among which single underscores may stand. -/
def isDigitPart : List Char → Bool
  | [] => false
  | [c] => c.isDigit
  | c :: '_' :: l => c.isDigit && isDigitPart l
  | c :: d :: l => c.isDigit && isDigitPart (d :: l)

/-- The number that the digits of a text are. -/
def natOf (l : List Char) : ℕ :=
  l.foldl (fun n c => if c.isDigit then 10 * n + (c.toNat - 48) else n) 0

/-! ## What a text says -/

/-- What a float is read as. -/
inductive Literal
  | finite (q : ℚ)
  | infinite (isNegative : Bool)
  | nan
  deriving DecidableEq, Repr

/-- The number before an exponent: digits, with a point among them or at an end. -/
def readNumber (l : List Char) : Option ℚ :=
  match breakAt (· == '.') l with
  | (whole, none) => if isDigitPart whole then some (natOf whole) else none
  | (whole, some fraction) =>
    if (whole.isEmpty || isDigitPart whole) && (fraction.isEmpty || isDigitPart fraction) &&
        !(whole.isEmpty && fraction.isEmpty) then
      some (natOf (whole ++ fraction) / 10 ^ fraction.countP Char.isDigit)
    else none

/-- An exponent, which may have a sign. -/
def readExponent (l : List Char) : Option ℤ :=
  if isDigitPart (readSign l).2 then
    some (if (readSign l).1 then -(natOf (readSign l).2 : ℤ) else natOf (readSign l).2)
  else none

/-- The letter before an exponent. -/
def isExponentMark (c : Char) : Bool := c == 'e' || c == 'E'

/-- A number with an exponent, if it has one. -/
def readNumeral (l : List Char) : Option ℚ :=
  match breakAt isExponentMark l with
  | (number, none) => readNumber number
  | (number, some exponent) =>
    (readNumber number).bind fun q => (readExponent exponent).map fun e => q * 10 ^ e

/-- **What a text says that a float is.** -/
def readLiteral (l : List Char) : Option Literal :=
  let (isNegative, body) := readSign (strip l)
  if body.map Char.toLower = ['i', 'n', 'f'] ∨
      body.map Char.toLower = ['i', 'n', 'f', 'i', 'n', 'i', 't', 'y'] then
    some (.infinite isNegative)
  else if body.map Char.toLower = ['n', 'a', 'n'] then some .nan
  else (readNumeral body).map fun q => .finite (if isNegative then -q else q)

example : readLiteral " -1_0.5E+1\n".toList = some (.finite (-105)) := by decide +kernel

/-- **A plain decimal**: digits and a point, without a sign or an exponent. -/
structure IsPlain (l : List Char) : Prop where
  letters : ∀ c ∈ l, c.isDigit ∨ c = '.'
  reads : (readNumber l).isSome

instance (l : List Char) : Decidable (IsPlain l) :=
  decidable_of_iff ((l.all fun c => c.isDigit ∨ c = '.') = true ∧ (readNumber l).isSome)
    ⟨fun h => ⟨by simpa using h.1, h.2⟩, fun h => ⟨by simpa using h.letters, h.reads⟩⟩

/-- **The text makes an exponent of a whole number that follows it and a '-'**: it ends in a number
and the letter before an exponent. -/
structure Spells (s t : List Char) (q : ℚ) : Prop where
  digits : ∀ c ∈ t, c.isDigit
  parts : ∃ blanks sign number mark x, s = blanks ++ (sign ++ (number ++ [mark])) ∧
    (∀ c ∈ blanks, isSpace c) ∧ (sign = [] ∨ sign = ['+']) ∧ isExponentMark mark ∧
    readNumber number = some x ∧ q = x / 10 ^ natOf t

/-! ## Breaking a text -/

section Break

variable {p : Char → Bool} {l a b : List Char}

theorem breakAt_eq_none (h : ∀ c ∈ l, p c = false) : breakAt p l = (l, none) := by
  induction l with
  | nil => rfl
  | cons c l ih =>
    rw [breakAt, if_neg (by simp [h c List.mem_cons_self]),
      ih fun d hd => h d (List.mem_cons_of_mem _ hd)]

theorem of_breakAt_none (h : breakAt p l = (a, none)) : l = a ∧ ∀ c ∈ l, p c = false := by
  induction l generalizing a with
  | nil =>
    cases h
    exact ⟨rfl, fun c hc => absurd hc List.not_mem_nil⟩
  | cons c l ih =>
    rw [breakAt] at h
    split_ifs at h with hc
    · cases h
    · obtain ⟨rfl, hrest⟩ := Prod.mk.inj h
      obtain ⟨heq, hall⟩ := ih (Prod.ext rfl hrest)
      exact ⟨congrArg _ heq, List.forall_mem_cons.mpr ⟨Bool.eq_false_iff.mpr hc, hall⟩⟩

theorem of_breakAt_some (h : breakAt p l = (a, some b)) :
    ∃ c, p c = true ∧ l = a ++ c :: b ∧ ∀ d ∈ a, p d = false := by
  induction l generalizing a with
  | nil => cases h
  | cons c l ih =>
    rw [breakAt] at h
    split_ifs at h with hc
    · cases h
      exact ⟨c, hc, rfl, fun d hd => absurd hd List.not_mem_nil⟩
    · obtain ⟨rfl, hrest⟩ := Prod.mk.inj h
      obtain ⟨d, hd, hl, hall⟩ := ih (Prod.ext rfl hrest)
      refine ⟨d, hd, congrArg _ hl, List.forall_mem_cons.mpr ⟨Bool.eq_false_iff.mpr hc, hall⟩⟩

theorem breakAt_append_cons {c : Char} (ha : ∀ d ∈ a, p d = false) (hc : p c = true) :
    breakAt p (a ++ c :: b) = (a, some b) := by
  induction a with
  | nil => exact if_pos hc
  | cons d a ih =>
    rw [List.cons_append, breakAt, if_neg (by simp [ha d List.mem_cons_self]),
      ih fun e he => ha e (List.mem_cons_of_mem _ he)]

end Break

/-! ## The letters of a number -/

theorem letter_of_isDigitPart {l : List Char} (h : isDigitPart l = true) :
    ∀ c ∈ l, c.isDigit ∨ c = '_' := by
  induction l using isDigitPart.induct with
  | case1 => cases h
  | case2 c => exact List.forall_mem_singleton.mpr (.inl h)
  | case3 c l ih =>
    rw [isDigitPart, Bool.and_eq_true] at h
    refine List.forall_mem_cons.mpr ⟨.inl h.1, List.forall_mem_cons.mpr ⟨.inr rfl, ih h.2⟩⟩
  | case4 c d l hd ih =>
    rw [isDigitPart, Bool.and_eq_true] at h
    · exact List.forall_mem_cons.mpr ⟨.inl h.1, ih h.2⟩
    · exact hd

theorem isDigitPart_of_digits {l : List Char} (hl : l ≠ []) (h : ∀ c ∈ l, c.isDigit) :
    isDigitPart l = true := by
  induction l using isDigitPart.induct with
  | case1 => exact absurd rfl hl
  | case2 c => exact h c List.mem_cons_self
  | case3 c l ih =>
    have hmark := h '_' (by simp)
    simp at hmark
  | case4 c d l hd ih =>
    rw [isDigitPart, Bool.and_eq_true]
    · exact ⟨h c List.mem_cons_self, ih (List.cons_ne_nil _ _) fun e he =>
        h e (List.mem_cons_of_mem _ he)⟩
    · exact hd

/-- The letters that a number is made of. -/
def IsNumberLetter (c : Char) : Prop := c.isDigit ∨ c = '_' ∨ c = '.'

theorem letter_of_readNumber {l : List Char} {q : ℚ} (h : readNumber l = some q) :
    ∀ c ∈ l, IsNumberLetter c := by
  have hpart : ∀ l : List Char, (l.isEmpty || isDigitPart l) = true →
      ∀ c ∈ l, IsNumberLetter c := by
    intro l hl c hc
    rw [Bool.or_eq_true, List.isEmpty_iff] at hl
    rcases hl with rfl | hl
    · exact absurd hc List.not_mem_nil
    · exact (letter_of_isDigitPart hl c hc).imp_right .inl
  unfold readNumber at h
  split at h
  · rename_i whole hbreak
    split_ifs at h with hwhole
    rw [(of_breakAt_none hbreak).1]
    exact hpart whole (by rw [hwhole, Bool.or_true])
  · rename_i whole fraction hbreak
    split_ifs at h with hparts
    rw [Bool.and_eq_true, Bool.and_eq_true] at hparts
    obtain ⟨c, hc, rfl, -⟩ := of_breakAt_some hbreak
    rw [beq_iff_eq] at hc
    subst hc
    intro c hc
    rcases List.mem_append.mp hc with hc | hc
    · exact hpart whole hparts.1.1 c hc
    · rcases List.mem_cons.mp hc with rfl | hc
      · exact .inr (.inr rfl)
      · exact hpart fraction hparts.1.2 c hc

theorem readNumber_nil : readNumber [] = none := rfl

theorem readNumber_nonneg {l : List Char} {q : ℚ} (h : readNumber l = some q) : 0 ≤ q := by
  unfold readNumber at h
  split at h <;> split_ifs at h <;> cases h <;> positivity

theorem not_isNumberLetter_dash : ¬ IsNumberLetter '-' := by
  unfold IsNumberLetter
  decide

theorem readNumber_of_dash {l : List Char} (h : '-' ∈ l) : readNumber l = none := by
  cases hread : readNumber l with
  | none => rfl
  | some q => exact absurd (letter_of_readNumber hread _ h) not_isNumberLetter_dash

theorem isDigitPart_of_dash {l : List Char} (h : '-' ∈ l) : isDigitPart l = false := by
  rw [← Bool.not_eq_true]
  intro hpart
  have hletter := letter_of_isDigitPart hpart _ h
  revert hletter
  decide

/-! ## The letters of a text that a float is read from -/

/-- The letters that such a text is made of. -/
def IsLiteralLetter (c : Char) : Prop :=
  isSpace c = true ∨ c = '-' ∨ c = '+' ∨ IsNumberLetter c ∨ isExponentMark c = true ∨
    c.toLower ∈ ['i', 'n', 'f', 't', 'y', 'a']

theorem letter_of_strip {l : List Char} (h : ∀ c ∈ strip l, IsLiteralLetter c) :
    ∀ c ∈ l, IsLiteralLetter c := by
  have hdrop : ∀ l : List Char, (∀ c ∈ l.dropWhile isSpace, IsLiteralLetter c) →
      ∀ c ∈ l, IsLiteralLetter c := by
    intro l hl c hc
    rw [← List.takeWhile_append_dropWhile (p := isSpace) (l := l)] at hc
    rcases List.mem_append.mp hc with htake | hrest
    · exact .inl (List.mem_takeWhile_imp htake)
    · exact hl c hrest
  intro c hc
  have hend := hdrop _ h
  rw [List.rdropWhile] at hend
  refine hdrop l.reverse (fun d hd => hend d ?_) c (List.mem_reverse.mpr hc)
  exact List.mem_reverse.mpr hd

theorem letter_of_readSign {l : List Char} (h : ∀ c ∈ (readSign l).2, IsLiteralLetter c) :
    ∀ c ∈ l, IsLiteralLetter c := by
  unfold readSign at h
  split at h
  · exact List.forall_mem_cons.mpr ⟨.inr (.inl rfl), h⟩
  · exact List.forall_mem_cons.mpr ⟨.inr (.inr (.inl rfl)), h⟩
  · exact h

theorem letter_of_readNumeral {l : List Char} {q : ℚ} (h : readNumeral l = some q) :
    ∀ c ∈ l, IsLiteralLetter c := by
  have hnumber : ∀ number : List Char, ∀ x, readNumber number = some x →
      ∀ c ∈ number, IsLiteralLetter c := fun number x hx c hc =>
    .inr (.inr (.inr (.inl (letter_of_readNumber hx c hc))))
  unfold readNumeral at h
  split at h
  · rename_i number hbreak
    rw [(of_breakAt_none hbreak).1]
    exact hnumber number q h
  · rename_i number exponent hbreak
    obtain ⟨x, hx, hexponent⟩ := Option.bind_eq_some_iff.mp h
    obtain ⟨e, he, -⟩ := Option.map_eq_some_iff.mp hexponent
    obtain ⟨mark, hmark, rfl, -⟩ := of_breakAt_some hbreak
    have hdigits : isDigitPart (readSign exponent).2 = true := by
      unfold readExponent at he
      by_contra hpart
      rw [if_neg hpart] at he
      cases he
    refine List.forall_mem_append.mpr ⟨hnumber number x hx, List.forall_mem_cons.mpr ⟨?_, ?_⟩⟩
    · exact .inr (.inr (.inr (.inr (.inl hmark))))
    · refine letter_of_readSign fun c hc => .inr (.inr (.inr (.inl ?_)))
      exact (letter_of_isDigitPart hdigits c hc).imp_right .inl

/-- **A text that a float is read from** is made of these letters. -/
theorem letter_of_readLiteral {l : List Char} {v : Literal} (h : readLiteral l = some v) :
    ∀ c ∈ l, IsLiteralLetter c := by
  have hword : ∀ body word : List Char, word.all (· ∈ ['i', 'n', 'f', 't', 'y', 'a']) = true →
      body.map Char.toLower = word → ∀ c ∈ body, IsLiteralLetter c := by
    rintro body word hletters rfl c hc
    have hletter := List.all_eq_true.mp hletters _ (List.mem_map_of_mem hc)
    exact .inr (.inr (.inr (.inr (.inr (of_decide_eq_true hletter)))))
  refine letter_of_strip (letter_of_readSign ?_)
  unfold readLiteral at h
  dsimp only at h
  split at h
  · rename_i hinf
    rcases hinf with hinf | hinf
    · exact hword _ _ (by decide) hinf
    · exact hword _ _ (by decide) hinf
  · split at h
    · rename_i hnan
      exact hword _ _ (by decide) hnan
    · obtain ⟨q, hq, -⟩ := Option.map_eq_some_iff.mp h
      exact letter_of_readNumeral hq

/-! ## Plain decimals -/

theorem isSpace_of_isDigit {c : Char} (h : c.isDigit = true) : isSpace c = false := by
  simp only [Char.isDigit, Bool.and_eq_true, decide_eq_true_eq, UInt32.le_iff_toNat_le] at h
  have hlow : 48 ≤ c.toNat := h.1
  have hhigh : c.toNat ≤ 57 := h.2
  simp only [isSpace, Bool.or_eq_false_iff, Bool.and_eq_false_iff, decide_eq_false_iff_not]
  omega

theorem toLower_of_isDigit {c : Char} (h : c.isDigit = true) : c.toLower = c := by
  simp only [Char.isDigit, Bool.and_eq_true, decide_eq_true_eq, UInt32.le_iff_toNat_le] at h
  have hhigh : c.val.toNat ≤ 57 := h.2
  refine dif_neg fun hupper => ?_
  have hlow : 65 ≤ c.val.toNat := UInt32.le_iff_toNat_le.mp hupper.1
  omega

theorem isExponentMark_of_isNumberLetter {c : Char} (h : IsNumberLetter c) :
    isExponentMark c = false := by
  rw [← Bool.not_eq_true]
  intro hmark
  simp only [isExponentMark, Bool.or_eq_true, beq_iff_eq] at hmark
  revert h
  unfold IsNumberLetter
  rcases hmark with rfl | rfl
  · decide
  · decide

section Plain

variable {s t : List Char}

theorem IsPlain.ne_nil (ht : IsPlain t) : t ≠ [] := by
  rintro rfl
  exact absurd ht.reads (by simp [readNumber_nil])

theorem IsPlain.isSpace (ht : IsPlain t) : ∀ c ∈ t, isSpace c = false := by
  intro c hc
  rcases ht.letters c hc with hdigit | rfl
  · exact isSpace_of_isDigit hdigit
  · rfl

theorem IsPlain.dash_notMem (ht : IsPlain t) : '-' ∉ t := by
  intro hdash
  have hletter := ht.letters _ hdash
  revert hletter
  decide

theorem IsPlain.digits (ht : IsPlain t) (h : isDigitPart t = true) : ∀ c ∈ t, c.isDigit := by
  intro c hc
  rcases ht.letters c hc with hdigit | rfl
  · exact hdigit
  · have hletter := letter_of_isDigitPart h _ hc
    revert hletter
    decide

theorem strip_dash (ht : IsPlain t) :
    strip (s ++ '-' :: t) = s.dropWhile isSpace ++ '-' :: t := by
  have hend : (s ++ '-' :: t).rdropWhile isSpace = s ++ '-' :: t := by
    refine List.rdropWhile_eq_self_iff.mpr fun hne => ?_
    have hlast : (s ++ '-' :: t).getLast hne = t.getLast ht.ne_nil := by
      rw [List.getLast_append_of_ne_nil _ (List.cons_ne_nil _ _), List.getLast_cons ht.ne_nil]
    rw [hlast, Bool.not_eq_true]
    exact ht.isSpace _ (List.getLast_mem _)
  rw [strip, hend, List.dropWhile_append]
  split_ifs with hempty
  · rw [List.isEmpty_iff.mp hempty]
    rfl
  · rfl

theorem dash_mem_readSign (hs : s ≠ []) : '-' ∈ (readSign (s ++ '-' :: t)).2 := by
  cases s with
  | nil => exact absurd rfl hs
  | cons c s =>
    rw [List.cons_append]
    unfold readSign
    split
    · rename_i heq
      cases heq
      simp
    · rename_i heq
      cases heq
      simp
    · simp

/-- **A numeral with a '-' in it** has it after the letter before its exponent. -/
theorem readNumeral_dash (ht : IsPlain t) {q : ℚ} :
    readNumeral (s ++ '-' :: t) = some q ↔ (∀ c ∈ t, c.isDigit) ∧
      ∃ number mark x, s = number ++ [mark] ∧ isExponentMark mark = true ∧
        readNumber number = some x ∧ q = x / 10 ^ natOf t := by
  constructor
  · intro h
    unfold readNumeral at h
    split at h
    · rename_i number hbreak
      rw [readNumber_of_dash] at h
      · cases h
      · rw [← (of_breakAt_none hbreak).1]
        simp
    · rename_i number exponent hbreak
      obtain ⟨x, hx, hexponent⟩ := Option.bind_eq_some_iff.mp h
      obtain ⟨e, he, rfl⟩ := Option.map_eq_some_iff.mp hexponent
      obtain ⟨mark, hmark, hsplit, -⟩ := of_breakAt_some hbreak
      have hdash : '-' ∉ number := fun hmem =>
        not_isNumberLetter_dash (letter_of_readNumber hx _ hmem)
      have hmark' : mark ≠ '-' := by
        rintro rfl
        cases hmark
      -- the '-' stands after the mark
      obtain ⟨rest, hs, hrest⟩ : ∃ rest, s = number ++ mark :: rest ∧
          exponent = rest ++ '-' :: t := by
        rcases List.append_eq_append_iff.mp hsplit with ⟨a, hnumber, ha⟩ | ⟨a, hs, ha⟩
        · cases a with
          | nil =>
            rw [List.nil_append, List.cons.injEq] at ha
            exact absurd ha.1.symm hmark'
          | cons d a =>
            rw [List.cons_append, List.cons.injEq] at ha
            obtain ⟨rfl, -⟩ := ha
            exact absurd (by simp [hnumber]) hdash
        · cases a with
          | nil =>
            rw [List.nil_append, List.cons.injEq] at ha
            exact absurd ha.1 hmark'
          | cons d a =>
            rw [List.cons_append, List.cons.injEq] at ha
            obtain ⟨rfl, hexp⟩ := ha
            exact ⟨a, hs, hexp⟩
      subst hrest
      unfold readExponent at he
      cases rest with
      | cons d rest =>
        rw [if_neg (by rw [isDigitPart_of_dash (dash_mem_readSign (List.cons_ne_nil _ _))]; simp)]
          at he
        cases he
      | nil =>
        by_cases hpart : isDigitPart (readSign ('-' :: t)).2 = true
        · rw [List.nil_append, if_pos hpart] at he
          cases he
          refine ⟨ht.digits hpart, number, mark, x, hs, hmark, hx, ?_⟩
          simp [readSign, div_eq_mul_inv]
        · rw [List.nil_append, if_neg hpart] at he
          cases he
  · rintro ⟨hdigits, number, mark, x, rfl, hmark, hx, rfl⟩
    have hbreak : breakAt isExponentMark (number ++ [mark] ++ '-' :: t) =
        (number, some ('-' :: t)) := by
      rw [List.append_assoc]
      exact breakAt_append_cons (fun c hc =>
        isExponentMark_of_isNumberLetter (letter_of_readNumber hx c hc)) hmark
    have hexponent : readExponent ('-' :: t) = some (-(natOf t : ℤ)) :=
      if_pos (isDigitPart_of_digits ht.ne_nil hdigits)
    unfold readNumeral
    rw [hbreak]
    simp [hx, hexponent, div_eq_mul_inv]

theorem readLiteral_of_dash {l body : List Char} {isNegative : Bool}
    (hsign : readSign (strip l) = (isNegative, body)) (hdash : '-' ∈ body) :
    readLiteral l =
      (readNumeral body).map fun q => .finite (if isNegative then -q else q) := by
  have hlower : '-' ∈ body.map Char.toLower := List.mem_map.mpr ⟨'-', hdash, rfl⟩
  unfold readLiteral
  rw [hsign]
  dsimp only
  rw [if_neg, if_neg]
  · intro hnan
    rw [hnan] at hlower
    revert hlower
    decide
  · rintro (hinf | hinf)
    · rw [hinf] at hlower
      revert hlower
      decide
    · rw [hinf] at hlower
      revert hlower
      decide

/-- A plain decimal says what its number is. -/
theorem IsPlain.readNumeral (ht : IsPlain t) : readNumeral t = readNumber t := by
  have hbreak : breakAt isExponentMark t = (t, none) := by
    refine breakAt_eq_none fun c hc => isExponentMark_of_isNumberLetter ?_
    exact (ht.letters c hc).imp_right .inr
  unfold FloatText.readNumeral
  rw [hbreak]

theorem readSign_cons {c : Char} (hminus : c ≠ '-') (hplus : c ≠ '+') {l : List Char} :
    readSign (c :: l) = (false, c :: l) := by
  unfold readSign
  split
  · rename_i heq
    cases heq
    exact absurd rfl hminus
  · rename_i heq
    cases heq
    exact absurd rfl hplus
  · rfl

theorem isSpace_of_isNumberLetter {c : Char} (h : IsNumberLetter c) : isSpace c = false := by
  rcases h with hdigit | rfl | rfl
  · exact isSpace_of_isDigit hdigit
  · rfl
  · rfl

theorem IsPlain.of_readLiteral (ht : IsPlain t) {l : List Char} {v : Literal}
    (hsign : readSign (strip l) = (true, t)) (h : readLiteral l = some v) :
    ∃ q : ℚ, 0 ≤ q ∧ v = .finite (-q) := by
  have hlower : ∀ c ∈ t, c.toLower ≠ 'n' := by
    intro c hc
    rcases ht.letters c hc with hdigit | rfl
    · rw [toLower_of_isDigit hdigit]
      rintro rfl
      cases hdigit
    · decide
  have hn : 'n' ∉ t.map Char.toLower := by
    intro hmem
    obtain ⟨c, hc, hlow⟩ := List.mem_map.mp hmem
    exact hlower c hc hlow
  unfold FloatText.readLiteral at h
  rw [hsign] at h
  dsimp only at h
  rw [if_neg, if_neg, ht.readNumeral] at h
  · obtain ⟨q, hq, rfl⟩ := Option.map_eq_some_iff.mp h
    exact ⟨q, readNumber_nonneg hq, rfl⟩
  · intro hnan
    exact hn (by rw [hnan]; decide)
  · rintro (hinf | hinf)
    · exact hn (by rw [hinf]; decide)
    · exact hn (by rw [hinf]; decide)

/-- **A text that ends in '-' and a plain decimal** says a number that is not positive, or one whose
exponent the decimal is. -/
theorem readLiteral_dash (ht : IsPlain t) {v : Literal}
    (h : readLiteral (s ++ '-' :: t) = some v) :
    (∃ q : ℚ, 0 ≤ q ∧ v = .finite (-q)) ∨ ∃ q, Spells s t q ∧ v = .finite q := by
  have hstrip := strip_dash (s := s) ht
  obtain ⟨blanks, hblanks, hs⟩ : ∃ blanks, (∀ c ∈ blanks, isSpace c) ∧
      s = blanks ++ s.dropWhile isSpace :=
    ⟨s.takeWhile isSpace, fun c hc => List.mem_takeWhile_imp hc,
      List.takeWhile_append_dropWhile.symm⟩
  generalize s.dropWhile isSpace = body at hstrip hs
  -- what follows the sign is a numeral with a '-' in it
  have hnumeral : ∀ isNegative sign rest, body = sign ++ rest → (sign = [] ∨ sign = ['+']) ∨
      isNegative = true → readSign (strip (s ++ '-' :: t)) = (isNegative, rest ++ '-' :: t) →
      (∃ q : ℚ, 0 ≤ q ∧ v = .finite (-q)) ∨ ∃ q, Spells s t q ∧ v = .finite q := by
    intro isNegative sign rest hbody hneg hsign
    rw [readLiteral_of_dash hsign (by simp)] at h
    obtain ⟨q, hq, rfl⟩ := Option.map_eq_some_iff.mp h
    obtain ⟨hdigits, number, mark, x, rfl, hmark, hx, rfl⟩ := (readNumeral_dash ht).mp hq
    cases isNegative with
    | true =>
      have hx' := readNumber_nonneg hx
      exact .inl ⟨_, by positivity, rfl⟩
    | false =>
      have hplus : sign = [] ∨ sign = ['+'] := hneg.resolve_right (by simp)
      refine .inr ⟨_, ⟨hdigits, blanks, sign, number, mark, x, ?_, hblanks, hplus, hmark, hx, rfl⟩,
        rfl⟩
      rw [hs, hbody]
  cases body with
  | nil =>
    have hsign : readSign (strip (s ++ '-' :: t)) = (true, t) := by
      rw [hstrip]
      rfl
    exact .inl (ht.of_readLiteral hsign h)
  | cons c body =>
    by_cases hminus : c = '-'
    · subst hminus
      exact hnumeral true ['-'] body rfl (.inr rfl) (by rw [hstrip]; rfl)
    · by_cases hplus : c = '+'
      · subst hplus
        exact hnumeral false ['+'] body rfl (.inl (.inr rfl)) (by rw [hstrip]; rfl)
      · refine hnumeral false [] (c :: body) rfl (.inl (.inl rfl)) ?_
        rw [hstrip, List.cons_append, readSign_cons hminus hplus]

/-- A text that makes an exponent of the plain decimal says so. -/
theorem Spells.readLiteral (ht : IsPlain t) {q : ℚ} (h : Spells s t q) :
    readLiteral (s ++ '-' :: t) = some (.finite q) := by
  obtain ⟨hdigits, blanks, sign, number, mark, x, rfl, hblanks, hsign, hmark, hx, rfl⟩ := h
  obtain ⟨c, number', rfl⟩ : ∃ c number', number = c :: number' := by
    cases number with
    | nil => cases hx
    | cons c number' => exact ⟨c, number', rfl⟩
  have hc := letter_of_readNumber hx c List.mem_cons_self
  have hdrop : (blanks ++ (sign ++ (c :: number' ++ [mark]))).dropWhile isSpace =
      sign ++ (c :: number' ++ [mark]) := by
    rw [List.dropWhile_append_of_pos hblanks]
    rcases hsign with rfl | rfl
    · exact List.dropWhile_cons_of_neg (by simp [isSpace_of_isNumberLetter hc])
    · rfl
  have hread : readSign (strip (blanks ++ (sign ++ (c :: number' ++ [mark])) ++ '-' :: t)) =
      (false, c :: number' ++ [mark] ++ '-' :: t) := by
    rw [strip_dash ht, hdrop]
    rcases hsign with rfl | rfl
    · have hminus : c ≠ '-' := by
        rintro rfl
        exact not_isNumberLetter_dash hc
      have hplus : c ≠ '+' := by
        rintro rfl
        revert hc
        unfold IsNumberLetter
        decide
      exact readSign_cons hminus hplus
    · rfl
  rw [readLiteral_of_dash hread (by simp),
    (readNumeral_dash ht).mpr ⟨hdigits, _, mark, x, rfl, hmark, hx, rfl⟩]
  rfl

end Plain

end FloatText
