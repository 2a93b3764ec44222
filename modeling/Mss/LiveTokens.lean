import Mss.Services.Lifespans

/-!
# Uses of app tokens that do not raise

A token's lifespan is any float, and its user may move its end to any datetime. Whoever uses it adds
the lifespan to when it was created, which raises beyond the years 1 to 9999, and the datetime that
ends it cannot be told from when it was created unless it knows its offset from UTC.

* `IsUsable`: a lifespan that ends within the datetimes; **`isUsable_spanOf`**: that of a datetime
  with an offset, a millisecond from the first and the last at least.
* `Holds`, `Lacks`: a token is stored, or was deleted; **`run_findUnexpiredToken`**: finding it.
* `Use`, `runUses`: the uses of a token, one after another.
* **`neverRaises_iff`**: when none of them raises.
-/

namespace Mss.Lifespans

open Atomic Storage Prog
open Handshake (Number nearestDouble microsOf)

/-! ## Lifespans that end -/

/-- **The lifespan ends within the datetimes.** -/
def IsUsable (createdAt : ℤ) (lifespan : Number) : Prop :=
  ∃ seconds, lifespan = .finite seconds ∧ IsDatetime (createdAt + microsOf seconds)

/-- The microseconds of a lifespan. -/
def lifeOf : Number → ℤ
  | .finite seconds => microsOf seconds
  | _ => 0

/-- The lifespan of a token that is to end at a datetime. -/
def spanOf (createdAt : ℤ) (expiresAt : DateTime) : Number :=
  .finite (totalSeconds (expiresAt.utcMicros - createdAt))

variable {createdAt : ℤ} {lifespan : Number} {expiresAt : DateTime}

theorem end_of_isUsable (hcreated : IsDatetime createdAt) (h : IsUsable createdAt lifespan) :
    timedelta lifespan = .ok (lifeOf lifespan) ∧
      addTo createdAt (lifeOf lifespan) = .ok (createdAt + lifeOf lifespan) := by
  obtain ⟨seconds, rfl, hend⟩ := h
  refine ⟨?_, if_pos hend⟩
  have hdays : -999999999 ≤ microsOf seconds / dayMicros ∧
      microsOf seconds / dayMicros ≤ 999999999 := by
    simp only [IsDatetime, minDatetime, maxDatetime, dayMicros] at hcreated hend ⊢
    omega
  exact if_pos hdays

theorem end_of_not_isUsable (h : ¬ IsUsable createdAt lifespan) :
    (∃ e, timedelta lifespan = .error e) ∨
      ∃ micros, timedelta lifespan = .ok micros ∧ addTo createdAt micros = .error .overflowError := by
  cases lifespan with
  | infinite isNegative => exact .inl ⟨_, rfl⟩
  | nan => exact .inl ⟨_, rfl⟩
  | finite seconds =>
    by_cases hdays : -999999999 ≤ microsOf seconds / dayMicros ∧
        microsOf seconds / dayMicros ≤ 999999999
    · refine .inr ⟨microsOf seconds, if_pos hdays, if_neg fun hend => ?_⟩
      exact h ⟨seconds, rfl, hend⟩
    · exact .inl ⟨_, if_neg hdays⟩

/-! ### The rounding of a lifespan -/

theorem roundsToNearest_round : Doubles.RoundsToNearest Mss.round := by
  intro q
  have hbelow : (q.floor : ℚ) ≤ q := Int.floor_le q
  have habove : q < q.floor + 1 := Int.lt_floor_add_one q
  unfold Mss.round
  dsimp only
  split_ifs with hless hmore heven
  · rw [abs_le]
    constructor <;> linarith
  · rw [abs_le]
    push_cast
    constructor <;> linarith
  · rw [abs_le]
    constructor <;> linarith
  · rw [abs_le]
    push_cast
    constructor <;> linarith

theorem abs_sub_trunc_le (q : ℚ) : |q - Script.trunc q| ≤ 1 := by
  unfold Script.trunc
  split_ifs
  · rw [abs_le]
    constructor
    · linarith [Int.floor_le q]
    · linarith [Int.lt_floor_add_one q]
  · rw [abs_le]
    constructor
    · linarith [Int.ceil_lt_add_one q]
    · linarith [Int.le_ceil q]

theorem abs_microsOf_sub_le (seconds : ℚ) : |(microsOf seconds : ℚ) - 1000000 * seconds| ≤ 1 := by
  have hround := roundsToNearest_round (Script.trunc seconds * 1000000 +
    nearestDouble (1000000 * (seconds - Script.trunc seconds)))
  have hpart : |1000000 * (seconds - Script.trunc seconds)| ≤ 1000000 := by
    rw [abs_mul, abs_of_pos (by norm_num : (0 : ℚ) < 1000000)]
    linarith [abs_sub_trunc_le seconds]
  have hdouble := Doubles.abs_nearest_sub_le_of_le roundsToNearest_round hpart (by norm_num)
  norm_num at hdouble
  rw [microsOf]
  rw [abs_le] at hround hdouble ⊢
  constructor <;> linarith

/-- **A datetime with an offset is one that a token goes on with**, a millisecond from the first and
the last at least. -/
theorem isUsable_spanOf (hcreated : IsDatetime createdAt)
    (hfirst : minDatetime + 1000 ≤ expiresAt.utcMicros)
    (hlast : expiresAt.utcMicros ≤ maxDatetime - 1000) :
    IsUsable createdAt (spanOf createdAt expiresAt) := by
  refine ⟨_, rfl, ?_⟩
  have hrange : |((expiresAt.utcMicros - createdAt : ℤ) : ℚ)| ≤ 400000000000000000 := by
    rw [abs_le]
    simp only [IsDatetime, minDatetime, maxDatetime] at hcreated hfirst hlast
    constructor
    · exact_mod_cast (by omega : -400000000000000000 ≤ expiresAt.utcMicros - createdAt)
    · exact_mod_cast (by omega : expiresAt.utcMicros - createdAt ≤ 400000000000000000)
  generalize hmicros : expiresAt.utcMicros - createdAt = micros at hrange ⊢
  have hseconds : |(micros : ℚ) / 1000000| ≤ 400000000000 := by
    rw [abs_div, abs_of_pos (by norm_num : (0 : ℚ) < 1000000), div_le_iff₀ (by norm_num)]
    linarith
  have hdouble := Doubles.abs_nearest_sub_le_of_le roundsToNearest_round hseconds (by norm_num)
  norm_num at hdouble
  have hback := abs_microsOf_sub_le (totalSeconds micros)
  have hnear : |(microsOf (totalSeconds micros) : ℚ) - micros| ≤ 101 := by
    change |totalSeconds micros - (micros : ℚ) / 1000000| ≤ _ at hdouble
    rw [abs_le] at hback hdouble ⊢
    constructor <;> linarith
  have hint : -101 ≤ microsOf (totalSeconds micros) - micros ∧
      microsOf (totalSeconds micros) - micros ≤ 101 := by
    rw [abs_le] at hnear
    exact_mod_cast hnear
  simp only [IsDatetime, minDatetime, maxDatetime] at hcreated hfirst hlast ⊢
  omega

/-! ## A token that is stored -/

/-- **The token is stored**, and no other of its string. -/
structure Holds (w : World) (t : AppToken) : Prop where
  get : w.tokens.get t.id = some t
  alone : ∀ r ∈ w.tokens.rows, r.token = t.token → r = t

/-- The token was deleted. -/
structure Lacks (w : World) (t : AppToken) : Prop where
  get : w.tokens.get t.id = none
  none : ∀ r ∈ w.tokens.rows, r.token ≠ t.token

/-- The filters that its uses find a token by. -/
def TokenFilter.IsOf (filter : TokenFilter) (t : AppToken) : Prop :=
  filter = .ofToken t.token ∨ filter = .ofOwner t.id t.userId

variable {w w' : World} {t : AppToken} {filter : TokenFilter}

theorem find_of_holds (h : Holds w t) (hfilter : filter.IsOf t) :
    w.tokens.rows.find? filter.matches = some t := by
  obtain ⟨hmem, -⟩ := Table.get_eq_some.mp h.get
  have hmatches : filter.matches t = true := by
    obtain rfl | rfl := hfilter <;> simp [TokenFilter.matches]
  cases hfind : w.tokens.rows.find? filter.matches with
  | none => exact absurd hmatches (List.find?_eq_none.mp hfind t hmem)
  | some r =>
    have hr := List.mem_of_find?_eq_some hfind
    have hsome := List.find?_some hfind
    obtain rfl | rfl := hfilter
    · rw [h.alone r hr (by simpa [TokenFilter.matches] using hsome)]
    · have hid : r.id = t.id := by
        have : r.id = t.id ∧ r.userId = t.userId := by simpa [TokenFilter.matches] using hsome
        exact this.1
      exact (Table.get_eq_some.mpr ⟨hr, hid⟩).symm.trans h.get

theorem find_of_lacks (h : Lacks w t) (hfilter : filter.IsOf t) :
    w.tokens.rows.find? filter.matches = none := by
  refine List.find?_eq_none.mpr fun r hr hmatches => ?_
  obtain rfl | rfl := hfilter
  · exact h.none r hr (by simpa [TokenFilter.matches] using hmatches)
  · have : r.id = t.id ∧ r.userId = t.userId := by simpa [TokenFilter.matches] using hmatches
    exact Table.get_eq_none.mp h.get r hr this.1

theorem lacks_deleteToken (h : Holds w t) : Lacks (exec (.deleteToken t.id) w).2 t := by
  refine ⟨(Table.get_erase _ _ _).trans (if_pos rfl), fun r hr htoken => ?_⟩
  obtain ⟨hr, hid⟩ := Table.mem_eraseWhere.mp hr
  rw [h.alone r hr htoken] at hid
  simp at hid

theorem holds_setLifespan (h : Holds w t) (lifespanSeconds : Number) :
    Holds (exec (.setLifespan t.id lifespanSeconds) w).2 { t with lifespanSeconds } := by
  have hget : (exec (.setLifespan t.id lifespanSeconds) w).2.tokens.get t.id =
      (w.tokens.get t.id).map fun t => { t with lifespanSeconds } := by
    rw [exec, Table.get_modify, if_pos rfl]
  refine ⟨by rw [hget, h.get]; rfl, fun r hr htoken => ?_⟩
  obtain ⟨q, hq, rfl⟩ := List.mem_map.mp hr
  split_ifs at htoken ⊢ with hid
  · rw [h.alone q hq htoken]
  · rw [h.alone q hq htoken] at hid
    exact absurd rfl hid

/-- **Finding a token that is usable**: it is there until it ends, and then it is deleted. -/
theorem run_findUnexpiredToken (h : Holds w t) (hfilter : filter.IsOf t)
    (hcreated : IsDatetime t.createdAt) (husable : IsUsable t.createdAt t.lifespanSeconds) :
    (findUnexpiredToken filter).run exec w =
      if t.createdAt + lifeOf t.lifespanSeconds ≤ w.now then
        (.ok none, (exec (.deleteToken t.id) w).2)
      else (.ok (some t), w) := by
  have hread : w.store.read t = .ok t := by
    obtain ⟨seconds, hseconds, -⟩ := husable
    rw [Store.read, hseconds, if_neg (by simp)]
  obtain ⟨hlife, hend⟩ := end_of_isUsable hcreated husable
  unfold findUnexpiredToken
  simp only [call, perform_bind, run_call, exec, find_of_holds h hfilter, readToken, hread,
    Except.map, ofExcept_ok, ret_bind, hlife, hend]
  by_cases hnow : t.createdAt + lifeOf t.lifespanSeconds ≤ w.now
  · simp only [hnow, if_true]
    rfl
  · simp only [hnow, if_false]
    rfl

theorem raises_findUnexpiredToken (h : Holds w t) (hfilter : filter.IsOf t)
    (husable : ¬ IsUsable t.createdAt t.lifespanSeconds) :
    ∃ e, (findUnexpiredToken filter).run exec w = (.error e, w) := by
  unfold findUnexpiredToken
  simp only [call, perform_bind, run_call, exec, find_of_holds h hfilter, readToken]
  cases hread : w.store.read t with
  | error e => exact ⟨e, rfl⟩
  | ok t' =>
    obtain rfl : t = t' := by
      unfold Store.read at hread
      split_ifs at hread
      exact Except.ok.inj hread
    simp only [Except.map, ofExcept_ok, ret_bind]
    obtain ⟨e, hlife⟩ | ⟨micros, hlife, hend⟩ := end_of_not_isUsable husable
    · exact ⟨e, by rw [hlife]; rfl⟩
    · exact ⟨.overflowError, by rw [hlife, ofExcept_ok, ret_bind, hend]; rfl⟩

theorem run_findUnexpiredToken_lacks (h : Lacks w t) (hfilter : filter.IsOf t) :
    (findUnexpiredToken filter).run exec w = (.ok none, w) := by
  unfold findUnexpiredToken
  simp only [call, perform_bind, run_call, exec, find_of_lacks h hfilter, readToken]
  rfl

/-! ## Uses -/

/-- **A use of a token**: its owner is asked for, or its expiry is moved. -/
inductive Use
  | get
  | update (expiresAt : DateTime)
  deriving DecidableEq, Repr

/-- The filter of a use. -/
def Use.tokenFilter (t : AppToken) : Use → TokenFilter
  | .get => .ofToken t.token
  | .update _ => .ofOwner t.id t.userId

/-- The service of a use. -/
def Use.service (t : AppToken) : Use → Service Unit
  | .get => getTokenOwner t.token >>= fun _ => pure ()
  | .update expiresAt => updateAppTokenExpiry t.id t.userId expiresAt >>= fun _ => pure ()

/-- **The uses of a token**, each some time after the one before, up to the first that raises. -/
def runUses (t : AppToken) : List (ℕ × Use) → World → Except Exc World
  | [], w => .ok w
  | (micros, use) :: uses, w =>
    match (use.service t).run exec { w with now := w.now + micros } with
    | (.ok _, w') => runUses t uses w'
    | (.error e, _) => .error e

/-- Whether an expiry is one that the token goes on with. -/
def IsGood (createdAt : ℤ) (expiresAt : DateTime) : Prop :=
  expiresAt.isAware = true ∧ IsUsable createdAt (spanOf createdAt expiresAt)

theorem isOf_tokenFilter (use : Use) (t : AppToken) : (use.tokenFilter t).IsOf t := by
  cases use with
  | get => exact .inl rfl
  | update expiresAt => exact .inr rfl

theorem run_use (use : Use) (t : AppToken) (w w' : World) :
    ((findUnexpiredToken (use.tokenFilter t)).run exec w = (.ok none, w') →
      (use.service t).run exec w = (.ok (), w')) ∧
    ∀ e, (findUnexpiredToken (use.tokenFilter t)).run exec w = (.error e, w') →
      (use.service t).run exec w = (.error e, w') := by
  cases use with
  | get =>
    refine ⟨fun h => ?_, fun e h => ?_⟩
    · rw [Use.service, getTokenOwner, Prog.bind_assoc, run_bind]
      rw [show (findUnexpiredToken (.ofToken t.token)).run exec w = _ from h]
      rfl
    · rw [Use.service, getTokenOwner, Prog.bind_assoc, run_bind]
      rw [show (findUnexpiredToken (.ofToken t.token)).run exec w = _ from h]
  | update expiresAt =>
    refine ⟨fun h => ?_, fun e h => ?_⟩
    · rw [Use.service, updateAppTokenExpiry, Prog.bind_assoc, run_bind]
      rw [show (findUnexpiredToken (.ofOwner t.id t.userId)).run exec w = _ from h]
      rfl
    · rw [Use.service, updateAppTokenExpiry, Prog.bind_assoc, run_bind]
      rw [show (findUnexpiredToken (.ofOwner t.id t.userId)).run exec w = _ from h]

theorem run_get_live (h : (findUnexpiredToken (.ofToken t.token)).run exec w = (.ok (some t), w)) :
    (Use.get.service t).run exec w = (.ok (), w) := by
  rw [Use.service, getTokenOwner, Prog.bind_assoc, run_bind, h]
  simp only [call, perform_bind, call_bind, run_call, exec]
  cases w.users t.userId with
  | none => rfl
  | some user => cases w.projects t.projectId t.userId <;> rfl

/-- **Moving the expiry** of a token that is found: it raises where the datetime knows no offset. -/
theorem run_update_live
    (h : (findUnexpiredToken (.ofOwner t.id t.userId)).run exec w = (.ok (some t), w))
    (hholds : Holds w t) :
    (Use.service t (.update expiresAt)).run exec w =
      if expiresAt.isAware then
        (.ok (), (exec (.setLifespan t.id (spanOf t.createdAt expiresAt)) w).2)
      else (.error .typeError, w) := by
  rw [Use.service, updateAppTokenExpiry, Prog.bind_assoc, run_bind, h]
  dsimp only
  cases haware : expiresAt.isAware with
  | false =>
    have hsubtract : subtract expiresAt t.createdAt = .error .typeError := by
      rw [subtract, DateTime.sub, haware, if_neg (by simp [DateTime.isAware])]
    rw [hsubtract]
    rfl
  | true =>
    have hsubtract :
        subtract expiresAt t.createdAt = .ok (expiresAt.utcMicros - t.createdAt) := by
      rw [subtract, DateTime.sub, haware, if_pos (by simp [DateTime.isAware])]
      simp [DateTime.utcMicros]
    have hread : (exec (.setLifespan t.id (spanOf t.createdAt expiresAt)) w).1 =
        .ok (some { t with lifespanSeconds := spanOf t.createdAt expiresAt }) := by
      have hget := (holds_setLifespan hholds (spanOf t.createdAt expiresAt)).get
      change readToken _ ((exec (.setLifespan t.id (spanOf t.createdAt expiresAt)) w).2.tokens.get
        t.id) = _
      rw [show (exec (.setLifespan t.id (spanOf t.createdAt expiresAt)) w).2.tokens.get t.id = _
        from hget, readToken, Store.read, if_neg (by simp [spanOf])]
      rfl
    rw [hsubtract]
    simp only [ofExcept_ok, ret_bind, call, perform_bind, call_bind, run_call]
    rw [show (exec (.setLifespan t.id (.finite (totalSeconds (expiresAt.utcMicros - t.createdAt)))) w).1
      = _ from hread]
    rfl

/-! ## Runs -/

/-- **The token ends as it says**: it is found until its lifespan after it was created, then it is
deleted, and never found again. -/
def EndsInTime (w : World) (t : AppToken) : Prop :=
  ∀ filter : TokenFilter, filter.IsOf t →
    (findUnexpiredToken filter).run exec w =
      match w.tokens.get t.id with
      | none => (.ok none, w)
      | some stored =>
        if stored.createdAt + lifeOf stored.lifespanSeconds ≤ w.now then
          (.ok none, (exec (.deleteToken t.id) w).2)
        else (.ok (some stored), w)

/-- **Uses of a token with some expiries never raise**, and it ends as it says after each. -/
def NeverRaises (t : AppToken) (expiries : Set DateTime) (w : World) : Prop :=
  ∀ uses : List (ℕ × Use), (∀ x ∈ uses, ∀ expiresAt, x.2 = .update expiresAt → expiresAt ∈ expiries) →
    ∃ w', runUses t uses w = .ok w' ∧ EndsInTime w' t

/-- **The invariant**: the token was deleted, or it is stored with a usable lifespan, which is its own
unless it was live at first. -/
structure Inv (now : ℤ) (t : AppToken) (w : World) : Prop where
  later : now ≤ w.now
  stored : Lacks w t ∨ ∃ l, Holds w { t with lifespanSeconds := l } ∧ IsUsable t.createdAt l ∧
    (l = t.lifespanSeconds ∨ now < t.createdAt + lifeOf t.lifespanSeconds)

variable {now : ℤ}

theorem endsInTime_of_inv (hcreated : IsDatetime t.createdAt) (h : Inv now t w) :
    EndsInTime w t := by
  intro filter hfilter
  obtain hlacks | ⟨l, hholds, husable, -⟩ := h.stored
  · rw [hlacks.get]
    exact run_findUnexpiredToken_lacks hlacks hfilter
  · have hget : w.tokens.get t.id = some { t with lifespanSeconds := l } := hholds.get
    rw [hget]
    exact run_findUnexpiredToken hholds hfilter hcreated husable

/-- **A use keeps the invariant** and does not raise, where the expiries of a token that was live at
first are good. -/
theorem inv_use (hcreated : IsDatetime t.createdAt) {use : Use}
    (hgood : now < t.createdAt + lifeOf t.lifespanSeconds →
      ∀ expiresAt, use = .update expiresAt → IsGood t.createdAt expiresAt) (h : Inv now t w) :
    ∃ w', (use.service t).run exec w = (.ok (), w') ∧ Inv now t w' := by
  have hfind := endsInTime_of_inv hcreated h _ (isOf_tokenFilter use t)
  obtain hlacks | ⟨l, hholds, husable, hlive⟩ := h.stored
  · rw [hlacks.get] at hfind
    exact ⟨w, (run_use use t w w).1 hfind, h⟩
  · have hget : w.tokens.get t.id = some { t with lifespanSeconds := l } := hholds.get
    rw [hget] at hfind
    dsimp only at hfind
    split_ifs at hfind with hended
    · have hdeleted := lacks_deleteToken hholds
      exact ⟨_, (run_use use t w _).1 hfind, h.later, .inl ⟨hdeleted.get, hdeleted.none⟩⟩
    · cases use with
      | get => exact ⟨w, @run_get_live w { t with lifespanSeconds := l } hfind, h⟩
      | update expiresAt =>
        have hstart : now < t.createdAt + lifeOf t.lifespanSeconds := by
          obtain rfl | hstart := hlive
          · exact lt_of_le_of_lt h.later (not_le.mp hended)
          · exact hstart
        obtain ⟨haware, hspan⟩ := hgood hstart expiresAt rfl
        have hrun := @run_update_live expiresAt w { t with lifespanSeconds := l } hfind hholds
        rw [if_pos haware] at hrun
        exact ⟨_, hrun, h.later, .inr ⟨_, holds_setLifespan hholds _, hspan, .inr hstart⟩⟩

theorem Inv.wait (h : Inv now t w) (micros : ℕ) : Inv now t { w with now := w.now + micros } := by
  refine ⟨h.later.trans (Int.le_add_of_nonneg_right (Int.natCast_nonneg _)), ?_⟩
  obtain hlacks | ⟨l, hholds, hrest⟩ := h.stored
  · exact .inl ⟨hlacks.get, hlacks.none⟩
  · exact .inr ⟨l, ⟨hholds.get, hholds.alone⟩, hrest⟩

theorem inv_runUses (hcreated : IsDatetime t.createdAt) {uses : List (ℕ × Use)}
    (hgood : now < t.createdAt + lifeOf t.lifespanSeconds →
      ∀ x ∈ uses, ∀ expiresAt, x.2 = .update expiresAt → IsGood t.createdAt expiresAt)
    (h : Inv now t w) : ∃ w', runUses t uses w = .ok w' ∧ Inv now t w' := by
  induction uses generalizing w with
  | nil => exact ⟨w, rfl, h⟩
  | cons x uses ih =>
    obtain ⟨w', hrun, hinv⟩ := inv_use hcreated
      (fun hstart => hgood hstart x List.mem_cons_self) (h.wait x.1)
    obtain ⟨w'', hrest, hinv'⟩ := ih
      (fun hstart y hy => hgood hstart y (List.mem_cons_of_mem _ hy)) hinv
    refine ⟨w'', ?_, hinv'⟩
    rw [runUses, hrun]
    exact hrest

theorem neverRaises_of_holds (hcreated : IsDatetime t.createdAt) (h : Holds w t)
    (expiries : Set DateTime) :
    NeverRaises t expiries w ↔ IsUsable t.createdAt t.lifespanSeconds ∧
      (w.now < t.createdAt + lifeOf t.lifespanSeconds →
        ∀ expiresAt ∈ expiries, IsGood t.createdAt expiresAt) := by
  have hwait (w : World) : ({ w with now := w.now + (0 : ℕ) } : World) = w := by
    rw [Nat.cast_zero, add_zero]
  constructor
  · intro hnever
    have husable : IsUsable t.createdAt t.lifespanSeconds := by
      by_contra hnot
      obtain ⟨e, hraises⟩ := raises_findUnexpiredToken h (.inl rfl) hnot
      obtain ⟨w', hrun, -⟩ := hnever [(0, .get)] fun x hx _ hupdate => by
        rw [List.mem_singleton.mp hx] at hupdate
        cases hupdate
      rw [runUses, hwait, (run_use .get t w w).2 e hraises] at hrun
      cases hrun
    refine ⟨husable, fun hlive expiresAt hin => ?_⟩
    have hfound := run_findUnexpiredToken h (.inr rfl) hcreated husable
    rw [if_neg (not_le.mpr hlive)] at hfound
    have hupdate := @run_update_live expiresAt w t hfound h
    obtain ⟨w', hrun, -⟩ := hnever [(0, .update expiresAt), (0, .get)] fun x hx e he => by
      simp only [List.mem_cons, List.not_mem_nil, or_false] at hx
      obtain rfl | rfl := hx
      · cases he
        exact hin
      · cases he
    rw [runUses, hwait, hupdate] at hrun
    cases haware : expiresAt.isAware with
    | false =>
      rw [haware, if_neg (by decide)] at hrun
      cases hrun
    | true =>
      rw [haware, if_pos rfl] at hrun
      dsimp only at hrun
      refine ⟨haware, ?_⟩
      by_contra hnot
      have hholds := holds_setLifespan h (spanOf t.createdAt expiresAt)
      obtain ⟨e, hraises⟩ := raises_findUnexpiredToken hholds (.inl rfl) hnot
      rw [runUses, hwait] at hrun
      rw [(run_use .get t _ _).2 e hraises] at hrun
      cases hrun
  · rintro ⟨husable, hgood⟩ uses hin
    have hinv : Inv w.now t w := ⟨le_rfl, .inr ⟨_, h, husable, .inl rfl⟩⟩
    obtain ⟨w', hrun, hinv'⟩ := inv_runUses hcreated
      (fun hstart x hx expiresAt hupdate => hgood hstart _ (hin x hx _ hupdate)) hinv
    exact ⟨w', hrun, endsInTime_of_inv hcreated hinv'⟩

/-! ## Tokens that were created -/

variable {w₁ : World} {g : Generated} {payload : AppTokenCreate} {userId : Id}

theorem holds_createAppToken
    (hcreate : (createAppToken g payload userId).run exec w = (.ok t, w₁)) :
    w₁.now = w.now ∧ t.lifespanSeconds = payload.lifespanSeconds ∧
      Holds w₁ { t with createdAt := w.store.instant w.now } := by
  unfold createAppToken at hcreate
  simp only [call, perform_bind, run_call, exec] at hcreate
  split at hcreate
  · cases hcreate
  · split_ifs at hcreate
    · cases hcreate
    · simp only [run_call, exec] at hcreate
      split at hcreate
      · rename_i tokens hinsert
        cases hcreate
        refine ⟨rfl, rfl, (Table.get_insert? hinsert _).trans (if_pos rfl), fun r hr htoken => ?_⟩
        rw [show tokens.rows = _ from Table.rows_insert? hinsert, List.mem_append,
          List.mem_singleton] at hr
        obtain hr | rfl := hr
        · unfold Table.insert? at hinsert
          split_ifs at hinsert with hfree hclash
          exact absurd ⟨r, hr, htoken⟩ hclash
        · rfl
      · cases hcreate

theorem runUses_createdAt (uses : List (ℕ × Use)) (w : World) (micros : ℤ) :
    runUses { t with createdAt := micros } uses w = runUses t uses w := by
  induction uses generalizing w with
  | nil => rfl
  | cons x uses ih =>
    have hservice : x.2.service { t with createdAt := micros } = x.2.service t := by
      cases x.2 <;> rfl
    rw [runUses, runUses, hservice]
    split
    · exact ih _
    · rfl

theorem isDatetime_instant (store : Store) (h : IsDatetime now) :
    IsDatetime (store.instant now) := by
  cases store with
  | postgresql | sqlite => exact h
  | mongodb =>
    simp only [IsDatetime, minDatetime, maxDatetime, Store.instant] at h ⊢
    omega

/-- **When the uses of an app token never raise.** Its lifespan ends within the datetimes, and each
expiry that it is given while it lives knows its offset and, as a lifespan, ends within them too. -/
theorem neverRaises_iff (hnow : IsDatetime w.now)
    (hcreate : (createAppToken g payload userId).run exec w = (.ok t, w₁))
    (expiries : Set DateTime) :
    NeverRaises t expiries w₁ ↔
      IsUsable (w.store.instant w.now) payload.lifespanSeconds ∧
        (w.now < w.store.instant w.now + lifeOf payload.lifespanSeconds →
          ∀ expiresAt ∈ expiries, IsGood (w.store.instant w.now) expiresAt) := by
  obtain ⟨hsame, hlifespan, hholds⟩ := holds_createAppToken hcreate
  have hstored : NeverRaises { t with createdAt := w.store.instant w.now } expiries w₁ ↔
      NeverRaises t expiries w₁ := by
    refine forall_congr' fun uses => imp_congr_right fun _ => exists_congr fun w' => ?_
    rw [runUses_createdAt]
    exact Iff.rfl
  rw [← hstored, neverRaises_of_holds (isDatetime_instant _ hnow) hholds, hsame, hlifespan]

/-! ## A token of an hour, and one of many years -/

/-- A project that its members may use. -/
def openProject : Project where
  id := "project"
  name := "project"
  adminId := "ann"
  userIds := ["ann"]
  createdAt := ""
  updatedAt := ""

/-- The store at the start of 1970, in which the user is a member of the project. -/
def openWorld : World where
  store := .postgresql
  now := 0
  projects := fun _ _ => some openProject

/-- The payload of a token of some seconds. -/
def payloadOf (lifespanSeconds : Number) : AppTokenCreate :=
  { title := "token", projectId := "project", lifespanSeconds }

/-- A token is created. -/
def created (lifespanSeconds : Number) : Except Exc AppToken × World :=
  (createAppToken ⟨"id", "string"⟩ (payloadOf lifespanSeconds) "ann").run exec openWorld

/-- The token that is created. -/
def createdToken (lifespanSeconds : Number) : AppToken :=
  { payloadOf lifespanSeconds with id := "id", token := "string", userId := "ann", createdAt := 0 }

theorem created_ok (lifespanSeconds : Number) :
    created lifespanSeconds = (.ok (createdToken lifespanSeconds), (created lifespanSeconds).2) :=
  rfl

/-- A token of an hour is used, and its expiry moved, without raising. -/
theorem neverRaises_iff_hour : NeverRaises (createdToken (.finite 3600))
    { e | e.isAware = true ∧ 0 ≤ e.utcMicros ∧ e.utcMicros ≤ 4102444800000000 }
    (created (.finite 3600)).2 := by
  refine (neverRaises_iff (by decide) (created_ok _) _).mpr ⟨⟨3600, rfl, by decide +kernel⟩, ?_⟩
  rintro - expiresAt ⟨haware, hfirst, hlast⟩
  refine ⟨haware, isUsable_spanOf (by decide) ?_ ?_⟩
  · exact le_trans (by decide) hfirst
  · exact le_trans hlast (by decide)

/-- **A token of thirty million years is created, and raises at its first use**; and so does one of an
hour where its expiry is moved to a datetime without an offset. -/
theorem use_raises :
    (created (.finite 1000000000000000)).1 = .ok (createdToken (.finite 1000000000000000)) ∧
      ((getTokenOwner "string").run exec (created (.finite 1000000000000000)).2).1.toOption.isNone ∧
      (created (.finite 3600)).1 = .ok (createdToken (.finite 3600)) ∧
      ((updateAppTokenExpiry "id" "ann" ⟨1893456000000000, none⟩).run exec
        (created (.finite 3600)).2).1.toOption.isNone ∧
      ¬ NeverRaises (createdToken (.finite 1000000000000000)) ∅
        (created (.finite 1000000000000000)).2 ∧
      ¬ NeverRaises (createdToken (.finite 3600)) {⟨1893456000000000, none⟩}
        (created (.finite 3600)).2 := by
  have hget : (runUses (createdToken (.finite 1000000000000000)) [(0, .get)]
      (created (.finite 1000000000000000)).2).toOption.isNone := by decide +kernel
  have hupdate : (runUses (createdToken (.finite 3600)) [(0, .update ⟨1893456000000000, none⟩)]
      (created (.finite 3600)).2).toOption.isNone := by decide +kernel
  refine ⟨rfl, by decide +kernel, rfl, by decide +kernel, fun hnever => ?_, fun hnever => ?_⟩
  · obtain ⟨w', hrun, -⟩ := hnever [(0, .get)] (by simp)
    rw [hrun] at hget
    cases hget
  · obtain ⟨w', hrun, -⟩ := hnever [(0, .update ⟨1893456000000000, none⟩)] (by simp)
    rw [hrun] at hupdate
    cases hupdate

end Mss.Lifespans
