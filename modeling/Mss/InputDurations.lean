import Mathlib.Tactic.IntervalCases
import Mss.Ui.Time

/-!
# A duration split over units

Each unit takes the whole number of it that is left after the larger ones. What is left then is the
remainder of all, since each unit is a whole number of the next smaller ones.

* `InputUnit.larger`: the next larger unit.
* `SplitsDuration`: what it is for numbers of units to split a duration.
* `SplitTo`: what holds of the numbers after each unit; `splitTo_start`, `SplitTo.step`.
* **`splits_duration`**: what a conversion returns splits the duration.
-/

namespace Mss.Ui

open Script

/-! ## Units -/

namespace InputUnit

/-- The next larger unit. -/
def larger : InputUnit → Option InputUnit
  | days => none
  | hours => some days
  | minutes => some hours
  | seconds => some minutes
  | milliseconds => some seconds

variable {u v : InputUnit}

theorem millis_pos : 0 < u.millis := by cases u <;> decide

theorem dvd_of_larger (h : u.larger = some v) : u.millis ∣ v.millis := by
  cases u <;> cases h <;> decide

theorem lt_of_larger (h : u.larger = some v) : u.millis < v.millis := by
  cases u <;> cases h <;> decide

theorem le_iff_of_larger (h : u.larger = some v) (w : InputUnit) :
    u.millis ≤ w.millis ↔ w = u ∨ v.millis ≤ w.millis := by
  cases u <;> cases h <;> cases w <;> decide

theorem eq_of_millis (h : u.millis = v.millis) : u = v := by
  cases u <;> cases v <;> first | rfl | exact absurd h (by decide)

end InputUnit

/-- **The numbers of units split a duration** of some milliseconds: each unit from the largest to the
smallest has one, none has another sign, each but the first is less than one of the next larger unit,
and all are the duration without what is less than the smallest. -/
structure SplitsDuration (d : ℤ) (maxUnit minUnit : InputUnit) (parts : DurationLikeObject) : Prop where
  defined : ∀ u : InputUnit, (parts u).isSome ↔ minUnit.millis ≤ u.millis ∧ u.millis ≤ maxUnit.millis
  sign : (∀ u, ∀ p ∈ parts u, 0 ≤ p) ∨ ∀ u, ∀ p ∈ parts u, p ≤ 0
  below : ∀ u v : InputUnit, u.larger = some v → (parts v).isSome → ∀ p ∈ parts u,
    |p| * u.millis < v.millis
  sum : parts.millis = d.tdiv minUnit.millis * minUnit.millis

/-! ## Numbers of units -/

variable {o : DurationLikeObject} {u : InputUnit} {p : ℤ}

theorem millis_update (h : o u = none) :
    DurationLikeObject.millis (Function.update o u (some p)) = o.millis + p * u.millis := by
  cases u <;> simp [DurationLikeObject.millis, InputUnit.millis, Function.update, h] <;> ring

theorem isSome_update (v : InputUnit) :
    (Function.update o u (some p) v).isSome ↔ v = u ∨ (o v).isSome := by
  by_cases hv : v = u
  · simp [hv]
  · simp [hv]

/-- **The numbers after a unit**: all but the remainder by it. -/
structure SplitTo (d : ℤ) (maxUnit unit : InputUnit) (o : DurationLikeObject) : Prop where
  defined : ∀ v : InputUnit, (o v).isSome ↔ unit.millis ≤ v.millis ∧ v.millis ≤ maxUnit.millis
  nonneg : 0 ≤ d → ∀ v, ∀ p ∈ o v, 0 ≤ p
  nonpos : d ≤ 0 → ∀ v, ∀ p ∈ o v, p ≤ 0
  below : ∀ v w : InputUnit, v.larger = some w → (o w).isSome → ∀ p ∈ o v, |p| * v.millis < w.millis
  rest : o.millis = d - d.tmod unit.millis

theorem tdiv_nonpos {a : ℤ} (ha : a ≤ 0) (n : ℕ) : a.tdiv n ≤ 0 := by
  have h := Int.tdiv_nonneg (a := -a) (b := n) (by omega) (by omega)
  rw [Int.neg_tdiv] at h
  omega

theorem tmod_nonpos {a : ℤ} (ha : a ≤ 0) (n : ℕ) : a.tmod n ≤ 0 := by
  have h := Int.tmod_nonneg (a := -a) n (by omega)
  rw [Int.neg_tmod] at h
  omega

theorem abs_tdiv_mul_lt (d : ℤ) {m n : ℕ} (hm : 0 < m) :
    |(d.tmod m).tdiv n| * n < m := by
  have hleft : |(d.tmod m).tdiv n| * n ≤ |d.tmod m| := by
    have hnat := Nat.div_mul_le_self (d.tmod m).natAbs n
    rw [Int.abs_eq_natAbs, Int.natAbs_tdiv, Int.abs_eq_natAbs]
    exact_mod_cast hnat
  have hrest : |d.tmod m| < m := by
    have hnat := Nat.mod_lt d.natAbs hm
    rw [Int.abs_eq_natAbs, Int.natAbs_tmod]
    exact_mod_cast hnat
  exact hleft.trans_lt hrest

/-- The largest unit takes what it can. -/
theorem splitTo_start (d : ℤ) (maxUnit : InputUnit) :
    SplitTo d maxUnit maxUnit (Function.update (fun _ => none) maxUnit
      (some (d.tdiv maxUnit.millis))) where
  defined v := by
    rw [isSome_update]
    constructor
    · rintro (rfl | h)
      · exact ⟨le_rfl, le_rfl⟩
      · cases h
    · exact fun h => .inl (InputUnit.eq_of_millis (le_antisymm h.2 h.1))
  nonneg hd v p hp := by
    by_cases hv : v = maxUnit
    · subst hv
      obtain rfl : d.tdiv v.millis = p := by simpa using hp
      exact Int.tdiv_nonneg hd (Int.natCast_nonneg _)
    · simp [hv] at hp
  nonpos hd v p hp := by
    by_cases hv : v = maxUnit
    · subst hv
      obtain rfl : d.tdiv v.millis = p := by simpa using hp
      exact tdiv_nonpos hd _
    · simp [hv] at hp
  below v w hlarger hw p hp := by
    obtain rfl : w = maxUnit := by simpa using (isSome_update w).mp hw
    have hne : v ≠ w := fun h => (InputUnit.lt_of_larger hlarger).ne (by rw [h])
    simp [hne] at hp
  rest := by
    have hdiv := Int.mul_tdiv_add_tmod d maxUnit.millis
    rw [millis_update rfl]
    simp only [DurationLikeObject.millis, Option.getD_none, zero_mul, zero_add]
    linarith

/-- **The next smaller unit** takes what it can of what is left. -/
theorem SplitTo.step {d : ℤ} {maxUnit v : InputUnit} (h : SplitTo d maxUnit v o)
    (hlarger : u.larger = some v) (hmax : v.millis ≤ maxUnit.millis) :
    SplitTo d maxUnit u (Function.update o u (some ((d.tmod v.millis).tdiv u.millis))) where
  defined w := by
    have hlt := InputUnit.lt_of_larger hlarger
    rw [isSome_update, h.defined w, InputUnit.le_iff_of_larger hlarger w]
    constructor
    · rintro (rfl | hw)
      · exact ⟨.inl rfl, by omega⟩
      · exact ⟨.inr hw.1, hw.2⟩
    · rintro ⟨rfl | hw, hle⟩
      · exact .inl rfl
      · exact .inr ⟨hw, hle⟩
  nonneg hd w p hp := by
    by_cases hw : w = u
    · subst hw
      obtain rfl : (d.tmod v.millis).tdiv w.millis = p := by simpa using hp
      exact Int.tdiv_nonneg (Int.tmod_nonneg _ hd) (Int.natCast_nonneg _)
    · exact h.nonneg hd w p (by simpa [hw] using hp)
  nonpos hd w p hp := by
    by_cases hw : w = u
    · subst hw
      obtain rfl : (d.tmod v.millis).tdiv w.millis = p := by simpa using hp
      exact tdiv_nonpos (tmod_nonpos hd _) _
    · exact h.nonpos hd w p (by simpa [hw] using hp)
  below w x hx hsome p hp := by
    by_cases hw : w = u
    · subst hw
      obtain rfl : v = x := Option.some.inj (hlarger.symm.trans hx)
      obtain rfl : (d.tmod v.millis).tdiv w.millis = p := by simpa using hp
      exact abs_tdiv_mul_lt d InputUnit.millis_pos
    · have hpw : p ∈ o w := by simpa [hw] using hp
      have hwsome : (o w).isSome := Option.isSome_iff_exists.mpr ⟨p, hpw⟩
      have hxu : x ≠ u := by
        rintro rfl
        have hv := ((h.defined w).mp hwsome).1
        have hlt := InputUnit.lt_of_larger hx
        have hlt' := InputUnit.lt_of_larger hlarger
        omega
      exact h.below w x hx (((isSome_update x).mp hsome).resolve_left hxu) p hpw
  rest := by
    have hnone : o u = none := by
      rw [← Option.not_isSome_iff_eq_none, h.defined u]
      have hlt := InputUnit.lt_of_larger hlarger
      omega
    have hdiv := Int.mul_tdiv_add_tmod (d.tmod v.millis) u.millis
    have hdvd : (u.millis : ℤ) ∣ v.millis := by exact_mod_cast InputUnit.dvd_of_larger hlarger
    rw [Int.tmod_tmod_of_dvd _ hdvd] at hdiv
    rw [millis_update hnone, h.rest]
    linarith

/-! ## The loop -/

section Loop

variable {L : Luxon} {millis : L.Duration → ℚ} (h : L.IsFixed millis) {x : L.Duration} {d : ℤ}
  (hx : millis x = d)

include h hx

theorem addUnit_eq (o : DurationLikeObject) (u : InputUnit) :
    addUnit L x o u = Function.update o u (some ((d - o.millis).tdiv u.millis)) := by
  have hleft : millis (L.minus x o) = ((d - o.millis : ℤ) : ℚ) := by
    rw [h.millis_minus, hx]
    push_cast
    rfl
  rw [addUnit, h.trunc_as _ _ u hleft, trunc_div _ InputUnit.millis_pos]

theorem splitTo_foldl {maxUnit v : InputUnit} (hmax : v.millis ≤ maxUnit.millis) (us : List InputUnit)
    (hchain : (v :: us).IsChain fun v u => u.larger = some v) (ho : SplitTo d maxUnit v o) :
    SplitTo d maxUnit ((v :: us).getLast (List.cons_ne_nil _ _)) (us.foldl (addUnit L x) o) := by
  induction us generalizing v o with
  | nil => exact ho
  | cons u us ih =>
    obtain ⟨hlarger, hrest⟩ := List.isChain_cons_cons.mp hchain
    have hleft : d - o.millis = d.tmod v.millis := by
      rw [ho.rest]
      ring
    rw [List.foldl_cons, List.getLast_cons (List.cons_ne_nil _ _), addUnit_eq h hx, hleft]
    have hle := (InputUnit.lt_of_larger hlarger).le.trans hmax
    exact ih hle hrest (ho.step hlarger hmax)

end Loop

theorem slice_units (maxUnit minUnit : InputUnit) (hle : minUnit.millis ≤ maxUnit.millis) :
    ∃ us, slice (units.idxOf maxUnit) (units.idxOf minUnit + 1) units = maxUnit :: us ∧
      (maxUnit :: us).IsChain (fun v u => u.larger = some v) ∧
        (maxUnit :: us).getLast (List.cons_ne_nil _ _) = minUnit := by
  cases maxUnit <;> cases minUnit <;> first
    | exact absurd hle (by decide)
    | exact ⟨_, rfl, by decide, rfl⟩

/-- **A duration is split** over the units from one down to another, whatever its sign. -/
theorem splits_duration {L : Luxon} {millis : L.Duration → ℚ} (h : L.IsFixed millis)
    {value : L.DurationLike} {d : ℤ} (hd : millis (L.fromDurationLike value) = d)
    {maxUnit minUnit : InputUnit} (hle : minUnit.millis ≤ maxUnit.millis) :
    ∃ parts : DurationLikeObject, SplitsDuration d maxUnit minUnit parts ∧
      ∀ unit, L.toObject (convertToInputDuration L value maxUnit minUnit) unit =
        (parts unit).map Int.cast := by
  obtain ⟨us, hslice, hchain, hlast⟩ := slice_units maxUnit minUnit hle
  have hstart : addUnit L (L.fromDurationLike value) (fun _ => none) maxUnit =
      Function.update (fun _ => none) maxUnit (some (d.tdiv maxUnit.millis)) := by
    rw [addUnit_eq h hd]
    simp [DurationLikeObject.millis]
  have hsplit := splitTo_foldl h hd le_rfl us hchain (hstart ▸ splitTo_start d maxUnit)
  rw [hlast] at hsplit
  refine ⟨_, ⟨hsplit.defined, ?_, hsplit.below, ?_⟩, fun unit => ?_⟩
  · rcases le_total 0 d with hpos | hneg
    · exact .inl (hsplit.nonneg hpos)
    · exact .inr (hsplit.nonpos hneg)
  · have hdiv := Int.mul_tdiv_add_tmod d minUnit.millis
    rw [hsplit.rest]
    linarith
  · rw [convertToInputDuration, h.toObject_fromObject]
    simp only [Option.getD_some, hslice, List.foldl_cons]

/-! ## Exact durations -/

/-- Durations that are how many there are of each unit, counted exactly. -/
def exactLuxon : Luxon where
  Duration := DurationLikeObject
  DurationLike := DurationLikeObject
  fromDurationLike o := o
  fromObject o := o
  minus x o unit := if x unit = none ∧ o unit = none then none
    else some ((x unit).getD 0 - (o unit).getD 0)
  as x unit := x.millis / unit.millis
  toObject x unit := (x unit).map Int.cast

theorem isFixed_exactLuxon : exactLuxon.IsFixed fun x => (DurationLikeObject.millis x : ℚ) where
  millis_minus x o := by
    have hget : ∀ unit, (exactLuxon.minus x o unit).getD 0 = (x unit).getD 0 - (o unit).getD 0 := by
      intro unit
      unfold exactLuxon
      dsimp only
      split_ifs with hnone
      · simp [hnone]
      · rfl
    have hmillis : DurationLikeObject.millis (exactLuxon.minus x o) =
        DurationLikeObject.millis x - DurationLikeObject.millis o := by
      simp only [DurationLikeObject.millis, hget]
      ring
    rw [hmillis]
    push_cast
    rfl
  trunc_as x d unit hd := by
    rw [← hd]
    rfl
  toObject_fromObject o unit := rfl

/-- A day, an hour and a half second less, backwards, in hours, minutes and seconds. -/
theorem splits_duration_backwards :
    ∃ parts : DurationLikeObject, SplitsDuration (-89999500) .hours .seconds parts ∧
      ∀ unit, exactLuxon.toObject (convertToInputDuration exactLuxon
        (fun u => if u = .milliseconds then some (-89999500) else none) (some .hours)
          (some .seconds)) unit = (parts unit).map Int.cast :=
  splits_duration isFixed_exactLuxon (congrArg Int.cast (by decide)) (by decide)

end Mss.Ui
