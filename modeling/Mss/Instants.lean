import Mss.Lib.Collators

/-!
# Instants and their texts

An instant is what UTC's calendar and clock tell of it. The services write it as a text of ISO 8601
that ends in Z. Where it falls on a whole second, the text leaves out the microseconds.

* `Clock`, `Instant`: a second of UTC, and a microsecond of one; `Instant.Before`: the order of time.
* `isoformat`, **`datetimeToZulu`**: the text of an instant, in the default precision.
* **`datetimeToZulu_lt_iff`**: the order of the texts, which is that of the instants but in a second
  that one of them is the start of.
-/

namespace Mss

open Collation (digits_append_lt_iff)
open Storage

/-! ## Instants -/

/-- **A second of UTC**, in a year of four digits. -/
structure Clock where
  year : ℕ
  month : ℕ
  day : ℕ
  hour : ℕ
  minute : ℕ
  second : ℕ
  year_lt : year < 10000
  month_lt : month < 13
  day_lt : day < 32
  hour_lt : hour < 24
  minute_lt : minute < 60
  second_lt : second < 60
  deriving DecidableEq, Repr

/-- **An instant**: a microsecond of a second. -/
structure Instant extends Clock where
  microsecond : ℕ
  microsecond_lt : microsecond < 1000000
  deriving DecidableEq, Repr

/-- What the calendar and the clock tell, from the year down. -/
def Clock.fields (c : Clock) : List ℕ := [c.year, c.month, c.day, c.hour, c.minute, c.second]

theorem Clock.fields_inj {c d : Clock} : c.fields = d.fields ↔ c = d := by
  obtain ⟨⟩ := c
  obtain ⟨⟩ := d
  simp [Clock.fields]

namespace Instant

/-- One instant comes before another. -/
def Before (a b : Instant) : Prop :=
  a.toClock.fields < b.toClock.fields ∨ a.toClock = b.toClock ∧ a.microsecond < b.microsecond

instance (a b : Instant) : Decidable (a.Before b) := by unfold Before; infer_instance

/-- The instant falls on a whole second. -/
def IsWhole (a : Instant) : Prop := a.microsecond = 0

instance (a : Instant) : Decidable a.IsWhole := by unfold IsWhole; infer_instance

/-- Two instants of one second, of which one is its start and the other is not. -/
def StartsSecondOf (a b : Instant) : Prop :=
  a.toClock = b.toClock ∧ (a.IsWhole ↔ ¬ b.IsWhole)

instance (a b : Instant) : Decidable (a.StartsSecondOf b) := by unfold StartsSecondOf; infer_instance

end Instant

/-! ## Texts -/

/-- The fraction of a second, which a whole one has not. -/
def fraction (microsecond : ℕ) : List Char :=
  if microsecond = 0 then [] else '.' :: digits 6 microsecond

/-- The text of an instant in ISO 8601, with the offset given. -/
def isoformat (a : Instant) (offset : List Char) : List Char :=
  digits 4 a.year ++ '-' :: (digits 2 a.month ++ '-' :: (digits 2 a.day ++ 'T' ::
    (digits 2 a.hour ++ ':' :: (digits 2 a.minute ++ ':' :: (digits 2 a.second ++
      (fraction a.microsecond ++ offset))))))

/-- **The text of an instant**, in UTC and ending in Z. -/
def datetimeToZulu (a : Instant) : String := String.ofList (isoformat a ['Z'])

theorem fraction_lt_iff {m n : ℕ} (hm : m < 1000000) (hn : n < 1000000) :
    fraction m ++ ['Z'] < fraction n ++ ['Z'] ↔ m ≠ 0 ∧ (n = 0 ∨ m < n) := by
  have hdot : '.' < 'Z' := by decide
  have hz : ¬ 'Z' < '.' := by decide
  have hne : ('.' : Char) ≠ 'Z' := by decide
  unfold fraction
  by_cases hm0 : m = 0
  · subst hm0
    by_cases hn0 : n = 0
    · subst hn0
      simp
    · simp [hn0, List.cons_lt_cons_iff, hz, hne.symm]
  · by_cases hn0 : n = 0
    · subst hn0
      simp [hm0, List.cons_lt_cons_iff, hdot]
    · have hdigits := digits_append_lt_iff 6 hm hn ['Z'] ['Z']
      simp [hm0, hn0, hdigits]

/-- **The order of the texts of instants**: by their seconds; in one second, a whole one comes after
the others. -/
theorem datetimeToZulu_lt_iff (a b : Instant) :
    datetimeToZulu a < datetimeToZulu b ↔
      a.toClock.fields < b.toClock.fields ∨
        a.toClock = b.toClock ∧ ¬ a.IsWhole ∧ (b.IsWhole ∨ a.microsecond < b.microsecond) := by
  have hyear := digits_append_lt_iff 4 a.year_lt b.year_lt
  have hmonth := digits_append_lt_iff 2 (a.month_lt.trans (by decide))
    (b.month_lt.trans (by decide))
  have hday := digits_append_lt_iff 2 (a.day_lt.trans (by decide))
    (b.day_lt.trans (by decide))
  have hhour := digits_append_lt_iff 2 (a.hour_lt.trans (by decide))
    (b.hour_lt.trans (by decide))
  have hminute := digits_append_lt_iff 2 (a.minute_lt.trans (by decide))
    (b.minute_lt.trans (by decide))
  have hsecond := digits_append_lt_iff 2 (a.second_lt.trans (by decide))
    (b.second_lt.trans (by decide))
  rw [datetimeToZulu, datetimeToZulu, String.lt_iff_toList_lt, String.toList_ofList,
    String.toList_ofList, isoformat, isoformat, hyear, List.cons_lt_cons_self, hmonth,
    List.cons_lt_cons_self, hday, List.cons_lt_cons_self, hhour, List.cons_lt_cons_self, hminute,
    List.cons_lt_cons_self, hsecond, fraction_lt_iff a.microsecond_lt b.microsecond_lt,
    ← Clock.fields_inj]
  simp only [Clock.fields, List.cons_lt_cons_iff, List.cons.injEq, List.not_lt_nil, and_true,
    and_false, or_false, Instant.IsWhole]
  tauto

end Mss
