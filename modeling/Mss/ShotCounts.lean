import Mathlib.Tactic.IntervalCases
import Mss.Ui.Counts

/-!
# Counts account for every shot

Each shot adds one to the count of its outcome: its number in binary, filled up with zeros to the
number of bits. Outcomes of one number of bits are told apart by their numbers. A number that needs
more bits has a longer outcome, so that the outcomes are in the order of texts.

* `IsHex`, `hexValue`, `binaryValue`: a shot in hexadecimal, and the numbers of shots and outcomes.
* `CountsShots`: what it is for counts to account for some shots.
* `countOutcomes_hex`: the counts are the sorted tally of the outcomes.
* **`counts_every_shot`**: the counts account for every shot.
-/

namespace Mss.Ui

open Collation Script OrderedMap

/-! ## Shots and outcomes -/

/-- **A shot's bits in hexadecimal.** -/
def IsHex (shot : String) : Prop :=
  ∃ x digits, shot.toList = '0' :: x :: digits ∧ (x = 'x' ∨ x = 'X') ∧ digits ≠ [] ∧
    ∀ c ∈ digits, digitValue c < 16

/-- The number that a shot in hexadecimal is. -/
def hexValue (shot : String) : ℕ := natOf 16 (shot.toList.drop 2)

/-- The number that an outcome spells in binary. -/
def binaryValue (outcome : String) : ℕ := Nat.ofDigitChars 2 outcome.toList 0

/-- **The counts account for the shots.** -/
structure CountsShots (localeCompare : String → String → ℤ) (shots : List String) (numClbits : ℕ)
    (counts : List OutcomeCount) : Prop where
  increasing : counts.Pairwise fun a b => a.outcome < b.outcome
  collated : counts.Pairwise fun a b => localeCompare a.outcome b.outcome < 0
  positive : ∀ c ∈ counts, 0 < c.count
  total : (counts.map (·.count)).sum = shots.length
  binary : ∀ c ∈ counts, ∀ bit ∈ c.outcome.toList, bit = '0' ∨ bit = '1'
  padded : ∀ c ∈ counts, numClbits ≤ c.outcome.length
  counted : ∀ c ∈ counts,
    c.count = shots.countP fun shot => hexValue shot = binaryValue c.outcome
  seen : ∀ shot ∈ shots, ∃ c ∈ counts, binaryValue c.outcome = hexValue shot
  numbered : (∀ shot ∈ shots, hexValue shot < 2 ^ numClbits) →
    counts.Pairwise fun a b => binaryValue a.outcome < binaryValue b.outcome

/-- The outcome of a shot. -/
def outcomeOf (numClbits : ℕ) (shot : String) : String :=
  String.ofList ((Nat.toDigits 2 (hexValue shot)).leftpad numClbits '0')

variable {numClbits : ℕ} {shots : List String} {shot : String}

theorem toList_outcomeOf :
    (outcomeOf numClbits shot).toList =
      (Nat.toDigits 2 (hexValue shot)).leftpad numClbits '0' := String.toList_ofList

theorem bigInt_shot (h : IsHex shot) : bigInt shot.toList = some (hexValue shot : ℤ) := by
  obtain ⟨x, digits, hshot, hx, hne, hdigits⟩ := h
  rw [hexValue, hshot]
  exact bigInt_hex hx hne hdigits

theorem binaryValue_outcomeOf : binaryValue (outcomeOf numClbits shot) = hexValue shot := by
  rw [binaryValue, toList_outcomeOf, Numeral.ofDigitChars_leftpad_toDigits (by decide) (by decide)]

theorem outcomeOf_inj {shot' : String} :
    outcomeOf numClbits shot = outcomeOf numClbits shot' ↔ hexValue shot = hexValue shot' := by
  rw [← String.toList_inj, toList_outcomeOf, toList_outcomeOf,
    Numeral.leftpad_toDigits_inj (by decide) (by decide)]

theorem isDigitOf_outcomeOf :
    ∀ bit ∈ (outcomeOf numClbits shot).toList, Numeral.IsDigitOf 2 bit := by
  rw [toList_outcomeOf]
  exact Numeral.isDigitOf_of_mem_leftpad (by decide) fun c hc =>
    Numeral.isDigitOf_of_mem_toDigits (by decide) hc

theorem length_outcomeOf (h : hexValue shot < 2 ^ numClbits) :
    (outcomeOf numClbits shot).toList.length = max numClbits 1 := by
  have hpos : 0 < (Nat.toDigits 2 (hexValue shot)).length := Nat.length_toDigits_pos
  have hle : (Nat.toDigits 2 (hexValue shot)).length ≤ max numClbits 1 := by
    refine (Nat.length_toDigits_le_iff (by decide) (by omega)).mpr (h.trans_le ?_)
    exact Nat.pow_le_pow_right (by decide) (by omega)
  rw [toList_outcomeOf, List.length_leftpad]
  omega

/-! ## The counts -/

theorem countShot_hex (h : IsHex shot) (counts : List (String × ℕ)) :
    countShot numClbits counts shot = some (bump counts (outcomeOf numClbits shot)) := by
  rw [countShot, bigInt_shot h]
  simp only [Option.bind_eq_bind, Option.bind_some, radixText_natCast]
  rfl

theorem foldlM_countShot (h : ∀ shot ∈ shots, IsHex shot) (counts : List (String × ℕ)) :
    shots.foldlM (countShot numClbits) counts =
      some ((shots.map (outcomeOf numClbits)).foldl bump counts) := by
  induction shots generalizing counts with
  | nil => rfl
  | cons shot shots ih =>
    rw [List.foldlM_cons, countShot_hex (h shot List.mem_cons_self), Option.bind_eq_bind,
      Option.bind_some, ih (fun shot hshot => h shot (List.mem_cons_of_mem _ hshot)),
      List.map_cons, List.foldl_cons]

variable (localeCompare : String → String → ℤ)

/-- The outcomes of shots with their counts, in the order of the locale. -/
def sortedTally (shots : List String) (numClbits : ℕ) : List (String × ℕ) :=
  sortBy (fun left right => localeCompare left.1 right.1) (tally (shots.map (outcomeOf numClbits)))

/-- **The counts are the sorted tally** of the shots' outcomes. -/
theorem countOutcomes_hex (h : ∀ shot ∈ shots, IsHex shot) :
    countOutcomes localeCompare shots numClbits =
      some ((sortedTally localeCompare shots numClbits).map fun x => ⟨x.1, x.2⟩) := by
  rw [countOutcomes, foldlM_countShot h]
  rfl

variable {localeCompare} {κ : Type} [LinearOrder κ]

theorem mem_sortedTally {x : String × ℕ} :
    x ∈ sortedTally localeCompare shots numClbits ↔
      (∃ shot ∈ shots, outcomeOf numClbits shot = x.1) ∧
        x.2 = shots.countP fun shot => hexValue shot = binaryValue x.1 := by
  rw [sortedTally, (sortBy_perm _ _).mem_iff, mem_tally, List.mem_map]
  refine and_congr_right fun ⟨shot, _, hx⟩ => ?_
  have hcount : (shots.map (outcomeOf numClbits)).count x.1 =
      shots.countP fun shot => hexValue shot = binaryValue x.1 := by
    rw [List.count, List.countP_map, ← hx, binaryValue_outcomeOf]
    refine List.countP_congr fun shot' _ => ?_
    rw [Function.comp_apply, beq_iff_eq, outcomeOf_inj, decide_eq_true_iff]
  rw [hcount]

theorem sum_sortedTally :
    ((sortedTally localeCompare shots numClbits).map Prod.snd).sum = shots.length := by
  rw [sortedTally, ((sortBy_perm _ _).map Prod.snd).sum_eq, sum_tally, List.length_map]

/-- **The outcomes are strictly increasing**, as the locale and the texts have it. -/
theorem pairwise_sortedTally {w : Weights κ} (h : Collates w localeCompare) :
    (sortedTally localeCompare shots numClbits).Pairwise fun a b =>
      localeCompare a.1 b.1 < 0 ∧ a.1 < b.1 := by
  have hsorted : (sortedTally localeCompare shots numClbits).Pairwise fun a b =>
      localeCompare a.1 b.1 ≤ 0 := pairwise_sortBy (h.toIsConsistent.comap Prod.fst) _
  have hapart : (sortedTally localeCompare shots numClbits).Pairwise fun a b => a.1 ≠ b.1 := by
    refine List.pairwise_map.mp ?_
    exact ((sortBy_perm _ _).map Prod.fst).nodup_iff.mpr (nodup_tally _)
  refine (hsorted.and hapart).imp_of_mem fun {a b} ha hb hab => ?_
  obtain ⟨⟨shot, -, hshot⟩, -⟩ := mem_sortedTally.mp ha
  obtain ⟨⟨shot', -, hshot'⟩, -⟩ := mem_sortedTally.mp hb
  have hdigit : ∀ shot : String, ∀ c ∈ (outcomeOf numClbits shot).toList, c.isDigit = true :=
    fun shot c hc => (isDigitOf_outcomeOf c hc).isDigit (by decide)
  have hkeys : ∀ {a b : String × ℕ}, (∀ c ∈ a.1.toList, c.isDigit = true) →
      (∀ c ∈ b.1.toList, c.isDigit = true) → a.1 < b.1 → localeCompare a.1 b.1 < 0 := by
    intro a b ha hb hlt
    exact h.lt _ _ (w.covers_of_digits ha) (w.covers_of_digits hb)
      ((w.keys_lt_iff_of_digits ha hb).mpr (String.lt_iff_toList_lt.mp hlt))
  have hda := hshot ▸ hdigit shot
  have hdb := hshot' ▸ hdigit shot'
  rcases lt_trichotomy a.1 b.1 with hlt | heq | hgt
  · exact ⟨hkeys hda hdb hlt, hlt⟩
  · exact absurd heq hab.2
  · have hneg := hkeys hdb hda hgt
    have hswap := h.swap b.1 a.1
    omega

theorem countsShots_sortedTally {w : Weights κ} (h : Collates w localeCompare) :
    CountsShots localeCompare shots numClbits
      ((sortedTally localeCompare shots numClbits).map fun x => ⟨x.1, x.2⟩) where
  increasing := List.pairwise_map.mpr ((pairwise_sortedTally h).imp fun hab => hab.2)
  collated := List.pairwise_map.mpr ((pairwise_sortedTally h).imp fun hab => hab.1)
  positive := by
    refine List.forall_mem_map.mpr fun x hx => ?_
    obtain ⟨⟨shot, hshot, hout⟩, hcount⟩ := mem_sortedTally.mp hx
    have hvalue : hexValue shot = binaryValue x.1 := by rw [← hout, binaryValue_outcomeOf]
    change 0 < x.2
    rw [hcount]
    exact List.countP_pos_iff.mpr ⟨shot, hshot, decide_eq_true hvalue⟩
  total := by
    rw [List.map_map]
    exact sum_sortedTally
  binary := by
    refine List.forall_mem_map.mpr fun x hx bit hbit => ?_
    obtain ⟨⟨shot, -, hout⟩, -⟩ := mem_sortedTally.mp hx
    obtain ⟨n, hn, rfl⟩ := isDigitOf_outcomeOf bit (hout ▸ hbit)
    interval_cases n
    · exact .inl rfl
    · exact .inr rfl
  padded := by
    refine List.forall_mem_map.mpr fun x hx => ?_
    obtain ⟨⟨shot, -, hout⟩, -⟩ := mem_sortedTally.mp hx
    change numClbits ≤ x.1.length
    rw [← hout, ← String.length_toList, toList_outcomeOf, List.length_leftpad]
    exact le_max_left _ _
  counted := List.forall_mem_map.mpr fun x hx => (mem_sortedTally.mp hx).2
  seen shot hshot := by
    have hmem : (outcomeOf numClbits shot, shots.countP fun shot' =>
        hexValue shot' = binaryValue (outcomeOf numClbits shot)) ∈
          sortedTally localeCompare shots numClbits := mem_sortedTally.mpr ⟨⟨shot, hshot, rfl⟩, rfl⟩
    exact ⟨_, List.mem_map_of_mem hmem, binaryValue_outcomeOf⟩
  numbered hroom := by
    refine List.pairwise_map.mpr ((pairwise_sortedTally h).imp_of_mem fun {a b} ha hb hab => ?_)
    obtain ⟨⟨shot, hshot, houta⟩, -⟩ := mem_sortedTally.mp ha
    obtain ⟨⟨shot', hshot', houtb⟩, -⟩ := mem_sortedTally.mp hb
    have hlt := String.lt_iff_toList_lt.mp hab.2
    rw [← houta, ← houtb] at hlt
    rw [← houta, ← houtb]
    refine (Numeral.ofDigitChars_lt_iff (by decide) isDigitOf_outcomeOf isDigitOf_outcomeOf ?_).mp hlt
    rw [length_outcomeOf (hroom shot hshot), length_outcomeOf (hroom shot' hshot')]

/-! ## Main results -/

/-- **The counts account for every shot**: each outcome comes once, with a positive count, in strictly
increasing order, the counts add up to the number of shots, and each is the number of shots whose
value the outcome spells in binary. -/
theorem counts_every_shot {w : Weights κ} (h : Collates w localeCompare)
    (hshots : ∀ shot ∈ shots, IsHex shot) (numClbits : ℕ) :
    ∃ counts, countOutcomes localeCompare shots numClbits = some counts ∧
      CountsShots localeCompare shots numClbits counts :=
  ⟨_, countOutcomes_hex localeCompare hshots, countsShots_sortedTally h⟩

/-- Four shots of two bits. -/
theorem counts_every_shot_bell :
    ∃ counts, countOutcomes rootCompare ["0x0", "0x3", "0x3", "0x1"] 2 = some counts ∧
      CountsShots rootCompare ["0x0", "0x3", "0x3", "0x1"] 2 counts := by
  refine counts_every_shot collates_root ?_ 2
  intro shot hshot
  simp only [List.mem_cons, List.not_mem_nil, or_false] at hshot
  rcases hshot with rfl | rfl | rfl | rfl
  · exact ⟨'x', ['0'], rfl, .inl rfl, by decide, List.forall_mem_singleton.mpr (by decide)⟩
  · exact ⟨'x', ['3'], rfl, .inl rfl, by decide, List.forall_mem_singleton.mpr (by decide)⟩
  · exact ⟨'x', ['3'], rfl, .inl rfl, by decide, List.forall_mem_singleton.mpr (by decide)⟩
  · exact ⟨'x', ['1'], rfl, .inl rfl, by decide, List.forall_mem_singleton.mpr (by decide)⟩

example : countOutcomes rootCompare ["0x0", "0x3", "0x3", "0x1"] 2 =
    some [⟨"00", 1⟩, ⟨"01", 1⟩, ⟨"11", 2⟩] := by decide +kernel

end Mss.Ui
