import Mss.Ui.Time

/-!
# Times formatted and read again

A time is read by a pattern: two digits of hours and of minutes, and then of seconds after a colon and
of a fraction after a point, where these are there. The digits of the fraction are read as a number.

* `DigitPair`, `Parts`, **`extractTime_text`**: what is read from a text of such parts.
* `IsTime`, `Time.completed`: the times of two digits, and what a time is to come back as.
* `IsoTime`: a time with a fraction of a second; `IsoTime.millis`: the milliseconds of it.
* `roundTrips_iff`, `readsFraction_iff`: where a time comes back, and a fraction is read as such.
* **`formatted_times_iff`**: both; `five_milliseconds`: a time that does neither.
-/

namespace Mss.Ui

open Script Regex

/-! ## Parts of a time -/

/-- Two digits. -/
structure DigitPair where
  tens : Char
  ones : Char
  tens_isDigit : tens.isDigit = true
  ones_isDigit : ones.isDigit = true

namespace DigitPair

variable (x : DigitPair)

def text : List Char := [x.tens, x.ones]

def value : ℤ := Nat.ofDigitChars 10 x.text 0

theorem isDigit_of_mem_text : ∀ c ∈ x.text, c.isDigit = true := by
  simp [text, x.tens_isDigit, x.ones_isDigit]

theorem parse_text : parseOptionalInt (some x.text) = some x.value :=
  parseInt_digits (List.cons_ne_nil _ _) x.isDigit_of_mem_text

theorem value_lt : 0 ≤ x.value ∧ x.value < 100 := by
  have hlt := Numeral.ofDigitChars_lt le_rfl fun c hc =>
    Numeral.isDigitOf_of_isDigit (x.isDigit_of_mem_text c hc)
  have hpow : 10 ^ x.text.length = 100 := rfl
  rw [value]
  omega

theorem first (l : List Char) : First twoDigits (x.text ++ l) ⟨x.text, [], l⟩ :=
  (First.letter x.tens_isDigit).seq (First.letter x.ones_isDigit)

end DigitPair

/-- **The parts of a text** that a time is read from: hours and minutes, seconds and a fraction where
they are there, and what follows. -/
structure Parts where
  hour : DigitPair
  minute : DigitPair
  second : Option DigitPair
  fraction : Option (List Char)
  rest : List Char

namespace Parts

variable (x : Parts)

def secondText : List Char := (x.second.map fun s => ':' :: s.text).getD []

def fractionText : List Char := (x.fraction.map fun f => '.' :: f).getD []

def text : List Char :=
  x.hour.text ++ ':' :: (x.minute.text ++ (x.secondText ++ (x.fractionText ++ x.rest)))

/-- The groups of the parts that may be missing. -/
def optionalGroups : List (ℕ × List Char) :=
  (x.second.map fun s => [(4, s.text), (3, ':' :: s.text)]).getD [] ++
    (x.fraction.map fun f => [(6, f), (5, '.' :: f)]).getD []

/-- **The parts are what a time is read from**: the fraction has digits, all that there are, and what is
missing is not there. -/
structure AreRead : Prop where
  digits : ∀ f ∈ x.fraction, f ≠ [] ∧ (∀ c ∈ f, c.isDigit = true) ∧
    ∀ c ∈ x.rest.head?, c.isDigit = false
  no_second : x.second = none →
    tries (.seq (char ':') (.group 4 twoDigits)) (x.fractionText ++ x.rest) = []
  no_fraction : x.fraction = none → ∀ c ∈ x.rest.head?, c ≠ '.'

variable {x}

theorem first_second (h : x.AreRead) (l : List Char) (hl : l = x.fractionText ++ x.rest) :
    First (.maybe (.group 3 (.seq (char ':') (.group 4 twoDigits)))) (x.secondText ++ l)
      ⟨x.secondText, (x.second.map fun s => [(4, s.text), (3, ':' :: s.text)]).getD [], l⟩ := by
  cases hs : x.second with
  | none =>
    rw [secondText, hs]
    exact First.skip (tries_group_of_eq_nil (hl ▸ h.no_second hs))
  | some s =>
    rw [secondText, hs]
    have hcolon : First (char ':') (':' :: (s.text ++ l)) ⟨[':'], [], s.text ++ l⟩ :=
      First.letter (beq_self_eq_true _)
    exact (hcolon.seq (s.first l).group).group.maybe (List.cons_ne_nil _ _)

theorem first_fraction (h : x.AreRead) :
    First (.maybe (.group 5 (.seq (char '.') (.group 6 (.run Char.isDigit)))))
      (x.fractionText ++ x.rest)
      ⟨x.fractionText, (x.fraction.map fun f => [(6, f), (5, '.' :: f)]).getD [], x.rest⟩ := by
  cases hf : x.fraction with
  | none =>
    rw [fractionText, hf]
    refine First.skip (tries_group_of_eq_nil (tries_seq_of_left (tries_letter_of_head fun c hc => ?_)))
    exact beq_eq_false_iff_ne.mpr (h.no_fraction hf c hc)
  | some f =>
    obtain ⟨hne, hdigits, hrest⟩ := h.digits f hf
    rw [fractionText, hf]
    have hpoint : First (char '.') ('.' :: (f ++ x.rest)) ⟨['.'], [], f ++ x.rest⟩ :=
      First.letter (beq_self_eq_true _)
    exact (hpoint.seq (First.run hne hdigits hrest).group).group.maybe (List.cons_ne_nil _ _)

theorem exec_text (h : x.AreRead) : ∃ m, Regex.exec timeRegex x.text = some m ∧
    m.groups = (1, x.hour.text) :: (2, x.minute.text) :: x.optionalGroups := by
  have hcolon : First (char ':')
      (':' :: (x.minute.text ++ (x.secondText ++ (x.fractionText ++ x.rest))))
      ⟨[':'], [], x.minute.text ++ (x.secondText ++ (x.fractionText ++ x.rest))⟩ :=
    First.letter (beq_self_eq_true _)
  have htail := (first_second h _ rfl).seq (first_fraction h)
  have hall := (x.hour.first _).group (i := 1) |>.seq
    (hcolon.seq ((x.minute.first _).group (i := 2) |>.seq htail))
  exact ⟨_, exec_of_first hall, rfl⟩

/-- **What is read** from a text of such parts. -/
theorem extractTime_text (h : x.AreRead) : extractTime (String.ofList x.text) =
    { hour := some x.hour.value
      minute := some x.minute.value
      second := x.second.map DigitPair.value
      millisecond := x.fraction.map fun f => (Nat.ofDigitChars 10 f 0 : ℤ) } := by
  obtain ⟨m, hm, hgroups⟩ := exec_text h
  have hundefined : parseOptionalInt none = none := by decide
  have hsecond : parseOptionalInt (m.group 4) = x.second.map DigitPair.value := by
    rw [Match.group, hgroups, optionalGroups]
    cases hs : x.second with
    | none =>
      cases x.fraction <;> exact hundefined
    | some s => exact s.parse_text
  have hfraction : parseOptionalInt (m.group 6) =
      x.fraction.map fun f => (Nat.ofDigitChars 10 f 0 : ℤ) := by
    rw [Match.group, hgroups, optionalGroups]
    cases hf : x.fraction with
    | none =>
      cases x.second <;> exact hundefined
    | some f =>
      obtain ⟨hne, hdigits, -⟩ := h.digits f hf
      cases x.second <;> exact parseInt_digits hne hdigits
  have hhour : parseOptionalInt (m.group 1) = some x.hour.value := by
    rw [Match.group, hgroups]
    exact x.hour.parse_text
  have hminute : parseOptionalInt (m.group 2) = some x.minute.value := by
    rw [Match.group, hgroups]
    exact x.minute.parse_text
  simp only [extractTime, String.toList_ofList, hm, Option.bind_some, hhour, hminute, hsecond,
    hfraction]

end Parts

/-! ## Times -/

/-- A number of two digits. -/
def IsTwoDigit (n : ℤ) : Prop := 0 ≤ n ∧ n < 100

instance (n : ℤ) : Decidable (IsTwoDigit n) := by unfold IsTwoDigit; infer_instance

/-- **A time** with hours and minutes, and milliseconds of a second if any. -/
structure IsTime (t : Time) : Prop where
  hour : ∃ h, t.hour = some h ∧ IsTwoDigit h
  minute : ∃ m, t.minute = some m ∧ IsTwoDigit m
  millisecond : ∀ ms ∈ t.millisecond, 0 ≤ ms ∧ ms < 1000

/-- **What a time is to come back as**: itself, with a second where only a millisecond is given. -/
def Time.completed (t : Time) : Time :=
  { t with second := if t.second = none ∧ t.millisecond ≠ none then some 0 else t.second }

theorem padStart_digits {n : ℤ} (hn : 0 ≤ n) : ∃ (x : DigitPair) (more : List Char),
    padStart 2 '0' (radixText 10 n) = x.text ++ more ∧ (∀ c ∈ more, c.isDigit = true) ∧
      (n < 100 ↔ more = []) ∧ (n < 100 → x.value = n) := by
  lift n to ℕ using hn
  rw [radixText_natCast, padStart]
  have hdigits : ∀ c ∈ (Nat.toDigits 10 n).leftpad 2 '0', c.isDigit = true := fun c hc =>
    (Numeral.isDigitOf_of_mem_leftpad (by decide)
      (fun _ => Numeral.isDigitOf_of_mem_toDigits (by decide)) c hc).isDigit le_rfl
  have hvalue := Numeral.ofDigitChars_leftpad_toDigits (b := 10) (by decide) le_rfl 2 n
  have hlength : ((Nat.toDigits 10 n).leftpad 2 '0').length = max 2 (Nat.toDigits 10 n).length :=
    List.length_leftpad ..
  have hle : (Nat.toDigits 10 n).length ≤ 2 ↔ n < 10 ^ 2 :=
    Nat.length_toDigits_le_iff (by decide) (by decide)
  match htext : (Nat.toDigits 10 n).leftpad 2 '0' with
  | [] =>
    rw [htext, List.length_nil] at hlength
    omega
  | [c] =>
    rw [htext, List.length_singleton] at hlength
    omega
  | c :: d :: more =>
    rw [htext] at hdigits hvalue hlength
    rw [List.length_cons, List.length_cons] at hlength
    have hmore : (n : ℤ) < 100 ↔ more = [] := by
      rw [← List.length_eq_zero_iff]
      omega
    refine ⟨⟨c, d, hdigits c (by simp), hdigits d (by simp)⟩, more, rfl,
      fun c hc => hdigits c (by simp [hc]), hmore, fun h => ?_⟩
    obtain rfl := hmore.mp h
    exact congrArg Nat.cast hvalue

theorem exists_pair {n : ℤ} (hn : IsTwoDigit n) :
    ∃ x : DigitPair, padStart 2 '0' (radixText 10 n) = x.text ∧ x.value = n := by
  obtain ⟨x, more, htext, -, hmore, hvalue⟩ := padStart_digits hn.1
  rw [hmore.mp hn.2, List.append_nil] at htext
  exact ⟨x, htext, hvalue hn.2⟩

theorem padStart_neg {n : ℤ} (hn : n < 0) :
    padStart 2 '0' (radixText 10 n) = '-' :: Nat.toDigits 10 n.natAbs := by
  have hpos : 0 < (Nat.toDigits 10 n.natAbs).length := Nat.length_toDigits_pos
  have hfull : 2 - ('-' :: Nat.toDigits 10 n.natAbs).length = 0 := by
    rw [List.length_cons]
    omega
  rw [radixText, if_pos hn, padStart, List.leftpad, hfull]
  rfl

theorem ofDigitChars_radixText {n : ℤ} (hn : 0 ≤ n) :
    (Nat.ofDigitChars 10 (radixText 10 n) 0 : ℤ) = n := by
  lift n to ℕ using hn
  rw [radixText_natCast, Nat.ofDigitChars_ten_toDigits]

theorem digits_radixText {n : ℤ} (hn : 0 ≤ n) :
    radixText 10 n ≠ [] ∧ ∀ c ∈ radixText 10 n, c.isDigit = true := by
  lift n to ℕ using hn
  rw [radixText_natCast]
  exact ⟨Nat.toDigits_ne_nil, fun c hc => Nat.isDigit_of_mem_toDigits (by decide) le_rfl hc⟩

/-! ## How times are written -/

theorem formatTime_minute (h m : ℤ) :
    formatTime ⟨some h, some m, none, none⟩ = String.ofList
      (padStart 2 '0' (radixText 10 h) ++ ':' :: (padStart 2 '0' (radixText 10 m) ++ [])) := rfl

theorem formatTime_millisecond (h m ms : ℤ) :
    formatTime ⟨some h, some m, none, some ms⟩ = String.ofList
      (padStart 2 '0' (radixText 10 h) ++ ':' :: (padStart 2 '0' (radixText 10 m) ++
        '0' :: '0' :: '.' :: radixText 10 ms)) := rfl

/-- What a fraction of a second is written as. -/
def millisecondText (ms : Option ℤ) : List Char := (ms.map fun n => '.' :: radixText 10 n).getD []

theorem formatTime_second (h m s : ℤ) (ms : Option ℤ) :
    formatTime ⟨some h, some m, some s, ms⟩ = String.ofList
      (padStart 2 '0' (radixText 10 h) ++ ':' :: (padStart 2 '0' (radixText 10 m) ++
        ':' :: (padStart 2 '0' (radixText 10 s) ++ millisecondText ms))) := by
  cases ms with
  | none =>
    rw [millisecondText, Option.map_none, Option.getD_none, List.append_nil]
    rfl
  | some n => rfl

section RoundTrip

variable {h m : ℤ} {xh xm : DigitPair} (hh : padStart 2 '0' (radixText 10 h) = xh.text)
  (hm : padStart 2 '0' (radixText 10 m) = xm.text)

include hh hm

theorem extractTime_second {s : ℤ} (hs : IsTwoDigit s) {ms : Option ℤ}
    (hms : ∀ n ∈ ms, 0 ≤ n) :
    extractTime (formatTime ⟨some h, some m, some s, ms⟩) =
      ⟨some xh.value, some xm.value, some s, ms⟩ := by
  obtain ⟨x, htext, hvalue⟩ := exists_pair hs
  have hread : (Parts.mk xh xm (some x) (ms.map (radixText 10)) []).AreRead := by
    refine ⟨fun f hf => ?_, fun hnone => (by cases hnone), fun _ c hc => (by cases hc)⟩
    obtain ⟨n, hn, rfl⟩ := Option.map_eq_some_iff.mp hf
    obtain ⟨hne, hdigits⟩ := digits_radixText (hms n hn)
    exact ⟨hne, hdigits, fun c hc => (by cases hc)⟩
  have hformat : formatTime ⟨some h, some m, some s, ms⟩ =
      String.ofList (Parts.mk xh xm (some x) (ms.map (radixText 10)) []).text := by
    rw [formatTime_second, hh, hm, htext]
    cases ms <;> simp [Parts.text, Parts.secondText, Parts.fractionText, millisecondText]
  rw [hformat, Parts.extractTime_text hread]
  cases ms with
  | none => simp [hvalue]
  | some n => simp [hvalue, ofDigitChars_radixText (hms n rfl)]

theorem extractTime_second_ne {s : ℤ} (hs : ¬ IsTwoDigit s) (ms : Option ℤ) :
    (extractTime (formatTime ⟨some h, some m, some s, ms⟩)).second ≠ some s := by
  by_cases hneg : s < 0
  · have hminus : tries (.group 4 twoDigits)
        ('-' :: (Nat.toDigits 10 s.natAbs ++ millisecondText ms)) = [] :=
      tries_group_of_eq_nil (tries_seq_of_left (tries_letter_of_head fun c hc => by
        cases hc
        decide))
    have hread : (Parts.mk xh xm none none
        (':' :: '-' :: (Nat.toDigits 10 s.natAbs ++ millisecondText ms))).AreRead :=
      ⟨fun f hf => (by cases hf), fun _ => tries_seq_letter hminus, fun _ c hc => by
        cases hc
        decide⟩
    have hformat : formatTime ⟨some h, some m, some s, ms⟩ = String.ofList (Parts.mk xh xm none none
        (':' :: '-' :: (Nat.toDigits 10 s.natAbs ++ millisecondText ms))).text := by
      rw [formatTime_second, hh, hm, padStart_neg hneg]
      rfl
    rw [hformat, Parts.extractTime_text hread]
    simp
  · obtain ⟨x, more, htext, hdigits, hmore, -⟩ := padStart_digits (not_lt.mp hneg)
    have hlarge : ¬ s < 100 := fun hlt => hs ⟨not_lt.mp hneg, hlt⟩
    have hmore' : more ≠ [] := fun hnil => hlarge (hmore.mpr hnil)
    obtain ⟨c, more, rfl⟩ := List.exists_cons_of_ne_nil hmore'
    have hread : (Parts.mk xh xm (some x) none (c :: more ++ millisecondText ms)).AreRead := by
      refine ⟨fun f hf => (by cases hf), fun hnone => (by cases hnone), fun _ d hd => ?_⟩
      cases hd
      rintro rfl
      exact absurd (hdigits '.' List.mem_cons_self) (by decide)
    have hformat : formatTime ⟨some h, some m, some s, ms⟩ =
        String.ofList (Parts.mk xh xm (some x) none (c :: more ++ millisecondText ms)).text := by
      rw [formatTime_second, hh, hm, htext]
      simp [Parts.text, Parts.secondText, Parts.fractionText]
    rw [hformat, Parts.extractTime_text hread]
    have hlt := x.value_lt
    simp only [Option.map_some, ne_eq, Option.some.injEq]
    omega

end RoundTrip

/-- **A time comes back** exactly if it has a second of two digits, or neither a second nor a
millisecond. -/
theorem roundTrips_iff {t : Time} (ht : IsTime t) :
    extractTime (formatTime t) = t.completed ↔
      (t.second = none → t.millisecond = none) ∧ ∀ s ∈ t.second, IsTwoDigit s := by
  obtain ⟨hour, minute, second, ms⟩ := t
  obtain ⟨⟨h, rfl, hh⟩, ⟨m, rfl, hm⟩, hms⟩ := ht
  obtain ⟨xh, hxh, rfl⟩ := exists_pair hh
  obtain ⟨xm, hxm, rfl⟩ := exists_pair hm
  cases second with
  | none =>
    cases ms with
    | none =>
      have hread : (Parts.mk xh xm none none []).AreRead :=
        ⟨fun f hf => (by cases hf), fun _ => rfl, fun _ c hc => (by cases hc)⟩
      rw [formatTime_minute, hxh, hxm]
      refine (iff_of_eq (congrArg (· = _) (Parts.extractTime_text hread))).trans ?_
      simp [Time.completed]
    | some n =>
      have hread : (Parts.mk xh xm none none ('0' :: '0' :: '.' :: radixText 10 n)).AreRead := by
        refine ⟨fun f hf => (by cases hf), fun _ => tries_seq_of_left (tries_letter_of_head ?_), ?_⟩
        · intro c hc
          cases hc
          decide
        · intro _ c hc
          cases hc
          decide
      rw [formatTime_millisecond, hxh, hxm]
      refine (iff_of_eq (congrArg (· = _) (Parts.extractTime_text hread))).trans ?_
      simp [Time.completed]
  | some s =>
    have hcompleted : Time.completed ⟨some xh.value, some xm.value, some s, ms⟩ =
        ⟨some xh.value, some xm.value, some s, ms⟩ := by simp [Time.completed]
    rw [hcompleted]
    constructor
    · intro heq
      refine ⟨fun hnone => (by cases hnone), fun s' hs' => ?_⟩
      cases hs'
      by_contra hs
      exact extractTime_second_ne hxh hxm hs ms (by rw [heq])
    · intro hcond
      exact extractTime_second hxh hxm (hcond.2 s rfl) fun n hn => (hms n hn).1

/-! ## Fractions of a second -/

/-- **A time in ISO 8601** with a fraction of a second, of one to six digits. -/
structure IsoTime where
  hour : DigitPair
  minute : DigitPair
  second : DigitPair
  fraction : List Char
  digits : ∀ c ∈ fraction, c.isDigit = true
  length_pos : 0 < fraction.length
  length_le : fraction.length ≤ 6

namespace IsoTime

variable (x : IsoTime)

def text : String := String.ofList (x.hour.text ++ ':' :: (x.minute.text ++
  ':' :: (x.second.text ++ '.' :: x.fraction)))

/-- The number that the digits of the fraction spell. -/
def digitsValue : ℕ := Nat.ofDigitChars 10 x.fraction 0

/-- **The milliseconds of the fraction.** -/
def millis : ℚ := x.digitsValue / 10 ^ x.fraction.length * 1000

/-- The number that the digits spell is read as milliseconds. -/
theorem extractTime_text : (extractTime x.text).millisecond = some (x.digitsValue : ℤ) := by
  have hread : (Parts.mk x.hour x.minute (some x.second) (some x.fraction) []).AreRead := by
    refine ⟨fun f hf => ?_, fun hnone => (by cases hnone), fun hnone => (by cases hnone)⟩
    cases hf
    exact ⟨List.ne_nil_of_length_pos x.length_pos, x.digits, fun c hc => (by cases hc)⟩
  have htext : x.text =
      String.ofList (Parts.mk x.hour x.minute (some x.second) (some x.fraction) []).text := by
    simp [text, Parts.text, Parts.secondText, Parts.fractionText]
  rw [htext, Parts.extractTime_text hread]
  rfl

/-- **A fraction is read as such** exactly if it has three digits, or is zero. -/
theorem readsFraction_iff :
    (extractTime x.text).millisecond.map (fun ms : ℤ => (ms : ℚ)) = some x.millis ↔
      x.fraction.length = 3 ∨ x.digitsValue = 0 := by
  have hpow : (10 : ℚ) ^ x.fraction.length ≠ 0 := by positivity
  rw [x.extractTime_text, Option.map_some, Option.some.injEq, millis, div_mul_eq_mul_div,
    eq_div_iff hpow, Int.cast_natCast]
  constructor
  · intro h
    rcases Nat.eq_zero_or_pos x.digitsValue with hzero | hpos
    · exact .inr hzero
    · left
      have hvalue : (x.digitsValue : ℚ) ≠ 0 := by exact_mod_cast hpos.ne'
      have hthousand : (10 : ℚ) ^ x.fraction.length = 10 ^ 3 := by
        rw [mul_left_cancel₀ hvalue h]
        norm_num
      exact Nat.pow_right_injective (by decide : 2 ≤ 10) (by exact_mod_cast hthousand)
  · rintro (h | h)
    · rw [h]
      norm_num
    · rw [h]
      simp

end IsoTime

/-! ## Main results -/

/-- **Times survive being formatted, and fractions are read as such, exactly if**: a time has a second
of two digits or neither a second nor a millisecond, and a fraction three digits or nothing but
zeros. -/
theorem formatted_times_iff {t : Time} (ht : IsTime t) (x : IsoTime) :
    (extractTime (formatTime t) = t.completed ↔
      (t.second = none → t.millisecond = none) ∧ ∀ s ∈ t.second, IsTwoDigit s) ∧
    ((extractTime x.text).millisecond.map (fun ms : ℤ => (ms : ℚ)) = some x.millis ↔
      x.fraction.length = 3 ∨ x.digitsValue = 0) :=
  ⟨roundTrips_iff ht, x.readsFraction_iff⟩

/-- Half past ten and five milliseconds, without a second. -/
def halfPastTen : Time := { hour := some 10, minute := some 30, millisecond := some 5 }

theorem isTime_halfPastTen : IsTime halfPastTen where
  hour := ⟨10, rfl, by decide⟩
  minute := ⟨30, rfl, by decide⟩
  millisecond ms hms := by
    cases hms
    decide

/-- Half a second after half past ten. -/
def halfSecond : IsoTime where
  hour := ⟨'1', '0', by decide, by decide⟩
  minute := ⟨'3', '0', by decide, by decide⟩
  second := ⟨'0', '0', by decide, by decide⟩
  fraction := ['5']
  digits := List.forall_mem_singleton.mpr (by decide)
  length_pos := by decide
  length_le := by decide

theorem formatted_times_iff_halfPastTen :
    (extractTime (formatTime halfPastTen) = halfPastTen.completed ↔
      (halfPastTen.second = none → halfPastTen.millisecond = none) ∧
        ∀ s ∈ halfPastTen.second, IsTwoDigit s) ∧
    ((extractTime halfSecond.text).millisecond.map (fun ms : ℤ => (ms : ℚ)) =
        some halfSecond.millis ↔
      halfSecond.fraction.length = 3 ∨ halfSecond.digitsValue = 0) :=
  formatted_times_iff isTime_halfPastTen halfSecond

/-- **Neither holds of every time**: without a colon before the second its milliseconds are lost, and
half a second is read as five milliseconds. -/
theorem five_milliseconds :
    (formatTime halfPastTen = "10:3000.5" ∧ IsTime halfPastTen ∧
      extractTime (formatTime halfPastTen) ≠ halfPastTen.completed) ∧
    halfSecond.text = "10:30:00.5" ∧
      (extractTime halfSecond.text).millisecond = some 5 ∧ halfSecond.millis = 500 := by
  refine ⟨⟨by decide +kernel, isTime_halfPastTen, by decide +kernel⟩, by decide +kernel,
    by decide +kernel, ?_⟩
  have hvalue : halfSecond.digitsValue = 5 := by decide
  have hlength : halfSecond.fraction.length = 1 := rfl
  rw [IsoTime.millis, hvalue, hlength]
  norm_num

end Mss.Ui
