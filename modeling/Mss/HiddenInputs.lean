import Mss.Ui.MultiInput

/-!
# What a hidden input keeps

The text of several values has commas between them, but it is read letter by letter.

* `comma_mem_intercalate`: a text of several values has a comma.
* `readsTexts_iff`, `readsNumbers_iff`: which values are read back.
* **`hidden_input_iff`**: the value of a hidden input is read back just when it is one text of one
  code unit, or one whole number from zero to nine.
-/

namespace Mss.Ui

open Script

theorem comma_mem_intercalate {l : List Units} (hl : 2 ≤ l.length) :
    comma ∈ [comma].intercalate l := by
  match l, hl with
  | a :: b :: l, _ =>
    rw [List.intercalate_cons_cons]
    simp

/-! ## Texts -/

theorem toinputValue_text {type : Option String} (htype : type ≠ some "number") (s : Units) :
    toinputValue type (some s) = some (s.map fun u => .text [u]) := by
  rw [toinputValue, if_neg htype]
  simp [split]

theorem toStringValue_texts (l : List Units) :
    toStringValue (some (l.map .text)) = some ([comma].intercalate l) := by
  have hunits : (l.map InputItem.text).map InputItem.units = l := by
    rw [List.map_map]
    exact List.map_id l
  rw [toStringValue, Option.map_some, hunits]

theorem readsTexts_iff {l : List Units} (hne : l ≠ []) (hcomma : ∀ s ∈ l, comma ∉ s) :
    ([comma].intercalate l).map (fun u => InputItem.text [u]) = l.map .text ↔ ∃ u, l = [[u]] := by
  constructor
  · intro h
    have hsingle : ([comma].intercalate l).map (fun u => [u]) = l := by
      have hinj : Function.Injective InputItem.text := fun a b hab => InputItem.text.inj hab
      refine hinj.list_map ?_
      rw [List.map_map]
      exact h
    match l, hne with
    | [s], _ =>
      rw [List.intercalate_singleton] at hsingle
      match s, hsingle with
      | [u], _ => exact ⟨u, rfl⟩
    | a :: b :: l, _ =>
      -- the comma between two values would be a value
      have hmem := List.mem_map_of_mem (f := fun u => [u])
        (comma_mem_intercalate (l := a :: b :: l) (by simp))
      rw [hsingle] at hmem
      exact absurd List.mem_cons_self (hcomma _ hmem)
  · rintro ⟨u, rfl⟩
    rfl

/-! ## Numbers -/

/-- The number that is read from a code unit. -/
def readUnit (u : UInt16) : Number := parseFloat [letterOf u]

theorem toinputValue_number (s : Units) :
    toinputValue (some "number") (some s) = some (s.map fun u => .number (readUnit u)) := by
  rw [toinputValue, if_pos rfl]
  simp [split, readUnit]

theorem toStringValue_numbers (l : List FiniteDouble) :
    toStringValue (some (l.map fun d => .number (.finite d))) =
      some ([comma].intercalate (l.map fun d => unitsOf (Number.finite d).text)) := by
  rw [toStringValue, Option.map_some, List.map_map]
  rfl

theorem readUnit_comma : readUnit comma = .nan := rfl

theorem of_readUnit {u : UInt16} {d : FiniteDouble} (h : readUnit u = .finite d) :
    ∃ n : ℕ, n < 10 ∧ d.value = n := by
  rw [readUnit, parseFloat_singleton] at h
  split_ifs at h with hdigit
  have hrange : 48 ≤ (letterOf u).toNat ∧ (letterOf u).toNat ≤ 57 := by
    simpa [Char.isDigit, UInt32.le_iff_toNat_le] using hdigit
  exact ⟨(letterOf u).toNat - 48, by omega, Number.value_of_ofRat (by omega) h⟩

theorem readUnit_digit {d : FiniteDouble} {n : ℕ} (hd : d.value = n) (hn : n < 10) :
    (unitsOf (Number.finite d).text).map readUnit = [.finite d] := by
  have hletter : ∀ n < 10, letterOf (Nat.digitChar n).toNat.toUInt16 = Nat.digitChar n := by decide
  have hdigit : (Nat.digitChar n).isDigit = true := by
    rw [Nat.isDigit_digitChar]
    exact decide_eq_true hn
  have hvalue : (Nat.digitChar n).toNat - 48 = n := by
    rw [Nat.toNat_digitChar_of_lt_ten hn]
    omega
  rw [text_digit hd hn, unitsOf, List.map_singleton, List.map_singleton, readUnit, hletter n hn,
    parseFloat_singleton, if_pos hdigit, hvalue, ← hd, Number.ofRat_value]

theorem readsNumbers_iff {l : List FiniteDouble} (hne : l ≠ []) :
    ([comma].intercalate (l.map fun d => unitsOf (Number.finite d).text)).map
        (fun u => InputItem.number (readUnit u)) = l.map (fun d => .number (.finite d)) ↔
      ∃ d, l = [d] ∧ ∃ n : ℕ, n < 10 ∧ d.value = n := by
  constructor
  · intro h
    have hread : ([comma].intercalate (l.map fun d => unitsOf (Number.finite d).text)).map readUnit =
        l.map .finite := by
      have hinj : Function.Injective InputItem.number := fun a b hab => InputItem.number.inj hab
      refine hinj.list_map ?_
      rw [List.map_map, List.map_map]
      exact h
    match l, hne with
    | [d], _ =>
      rw [List.map_singleton, List.map_singleton, List.intercalate_singleton] at hread
      obtain ⟨u, -, hu⟩ := List.map_eq_singleton_iff.mp hread
      exact ⟨d, rfl, of_readUnit hu⟩
    | a :: b :: l, _ =>
      -- the comma between two values would be no number
      have hmem := List.mem_map_of_mem (f := readUnit) (comma_mem_intercalate
        (l := (a :: b :: l).map fun d => unitsOf (Number.finite d).text) (by simp))
      rw [hread, readUnit_comma] at hmem
      simp at hmem
  · rintro ⟨d, rfl, n, hn, hd⟩
    have hread := readUnit_digit hd hn
    rw [List.map_singleton, List.map_singleton, List.intercalate_singleton]
    simpa using congrArg (List.map InputItem.number) hread

/-! ## The hidden input -/

/-- **The value of a hidden input is read back** just when it is one text of one code unit, or one
whole number from zero to nine. -/
theorem hidden_input_iff {type : Option String} (htype : type ≠ some "number") {texts : List Units}
    (htexts : texts ≠ []) (hcomma : ∀ s ∈ texts, comma ∉ s) {numbers : List FiniteDouble}
    (hnumbers : numbers ≠ []) :
    (toinputValue type (toStringValue (some (texts.map .text))) = some (texts.map .text) ↔
      ∃ u, texts = [[u]]) ∧
    (toinputValue (some "number")
          (toStringValue (some (numbers.map fun d => .number (.finite d)))) =
        some (numbers.map fun d => .number (.finite d)) ↔
      ∃ d, numbers = [d] ∧ ∃ n : ℕ, n < 10 ∧ d.value = n) := by
  constructor
  · rw [toStringValue_texts, toinputValue_text htype, Option.some_inj]
    exact readsTexts_iff htexts hcomma
  · rw [toStringValue_numbers, toinputValue_number, Option.some_inj]
    exact readsNumbers_iff hnumbers

/-- A letter is read back, and so is seven. -/
theorem hidden_input_iff_seven :
    toinputValue (some "text") (toStringValue (some [.text [97]])) = some [.text [97]] ∧
      toinputValue (some "number")
          (toStringValue (some [.number (.finite (.ofNat 7 (by decide)))])) =
        some [.number (.finite (.ofNat 7 (by decide)))] :=
  have h := @hidden_input_iff (some "text") (by decide) [[97]] (by decide) (by decide)
    [.ofNat 7 (by decide)] (List.cons_ne_nil _ _)
  ⟨h.1.mpr ⟨97, rfl⟩, h.2.mpr ⟨_, rfl, 7, by norm_num, rfl⟩⟩

/-- Two texts are read as the letters of both, and a comma. -/
theorem two_texts :
    [[97, 98], [99]] ≠ ([] : List Units) ∧ (∀ s ∈ ([[97, 98], [99]] : List Units), comma ∉ s) ∧
      toinputValue (some "text") (toStringValue (some [.text [97, 98], .text [99]])) =
        some [.text [97], .text [98], .text [44], .text [99]] ∧
      toinputValue (some "text") (toStringValue (some [.text [97, 98], .text [99]])) ≠
        some [.text [97, 98], .text [99]] := by
  decide

end Mss.Ui
