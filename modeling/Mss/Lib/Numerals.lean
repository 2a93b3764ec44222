import Mathlib.Tactic.Ring
import Mss.Lib.Digits

/-!
# Numbers written in a base

A number is written in as few digits of a base as it has, to the left of which zeros may stand.

* `ofDigitChars_leftpad`: zeros to the left of digits change nothing.
* **`leftpad_toDigits_inj`**: numbers are told apart by their digits with zeros to the left.
* **`ofDigitChars_lt_iff`**: texts of as many digits are in the order of their numbers.
-/

namespace Numeral

/-- The digits of a base. -/
def IsDigitOf (b : ℕ) (c : Char) : Prop := ∃ n < b, c = Nat.digitChar n

theorem isDigitOf_of_mem_toDigits {b n : ℕ} (hb : 1 < b) {c : Char} (hc : c ∈ Nat.toDigits b n) :
    IsDigitOf b c := by
  induction n using Nat.strongRecOn with
  | ind n ih =>
    rw [Nat.toDigits_eq_if hb] at hc
    split_ifs at hc with hn
    · obtain rfl := List.mem_singleton.mp hc
      exact ⟨n, hn, rfl⟩
    · rcases List.mem_append.mp hc with hc | hc
      · exact ih (n / b) (Nat.div_lt_self (by omega) hb) hc
      · obtain rfl := List.mem_singleton.mp hc
        exact ⟨n % b, Nat.mod_lt n (by omega), rfl⟩

theorem IsDigitOf.isDigit {b : ℕ} (hb : b ≤ 10) {c : Char} (hc : IsDigitOf b c) :
    c.isDigit = true := by
  obtain ⟨n, hn, rfl⟩ := hc
  rw [Nat.isDigit_digitChar]
  exact decide_eq_true (hn.trans_le hb)

theorem isDigitOf_of_isDigit {c : Char} (h : c.isDigit = true) : IsDigitOf 10 c := by
  have hrange : 48 ≤ c.toNat ∧ c.toNat ≤ 57 := by
    simpa [Char.isDigit, UInt32.le_iff_toNat_le] using h
  refine ⟨c.toNat - 48, by omega, Char.toNat_inj.mp ?_⟩
  rw [Nat.toNat_digitChar_of_lt_ten (by omega)]
  omega

theorem ofDigitChars_init (b : ℕ) (l : List Char) (init : ℕ) :
    Nat.ofDigitChars b l init = b ^ l.length * init + Nat.ofDigitChars b l 0 := by
  induction l generalizing init with
  | nil => simp
  | cons c l ih =>
    rw [Nat.ofDigitChars_cons, Nat.ofDigitChars_cons, ih, ih (b * 0 + _), List.length_cons,
      Nat.pow_succ]
    ring

theorem ofDigitChars_leftpad (b k : ℕ) (l : List Char) :
    Nat.ofDigitChars b (l.leftpad k '0') 0 = Nat.ofDigitChars b l 0 := by
  rw [List.leftpad, Nat.ofDigitChars_append, Nat.ofDigitChars_replicate_zero, Nat.mul_zero]

theorem ofDigitChars_leftpad_toDigits {b : ℕ} (hb : 1 < b) (hb' : b ≤ 10) (k n : ℕ) :
    Nat.ofDigitChars b ((Nat.toDigits b n).leftpad k '0') 0 = n := by
  rw [ofDigitChars_leftpad, Nat.ofDigitChars_toDigits hb hb']

/-- **Numbers are told apart** by their digits with zeros to the left. -/
theorem leftpad_toDigits_inj {b : ℕ} (hb : 1 < b) (hb' : b ≤ 10) {k m n : ℕ} :
    (Nat.toDigits b m).leftpad k '0' = (Nat.toDigits b n).leftpad k '0' ↔ m = n := by
  refine ⟨fun h => ?_, fun h => by rw [h]⟩
  rw [← ofDigitChars_leftpad_toDigits hb hb' k m, h, ofDigitChars_leftpad_toDigits hb hb']

theorem isDigitOf_of_mem_leftpad {b k : ℕ} (hb : 0 < b) {l : List Char}
    (hl : ∀ c ∈ l, IsDigitOf b c) : ∀ c ∈ l.leftpad k '0', IsDigitOf b c := by
  intro c hc
  rcases List.mem_append.mp hc with hc | hc
  · exact ⟨0, hb, List.eq_of_mem_replicate hc⟩
  · exact hl c hc

theorem ofDigitChars_lt {b : ℕ} (hb' : b ≤ 10) {l : List Char} (hl : ∀ c ∈ l, IsDigitOf b c) :
    Nat.ofDigitChars b l 0 < b ^ l.length := by
  induction l with
  | nil => simp
  | cons c l ih =>
    obtain ⟨n, hn, rfl⟩ := hl c List.mem_cons_self
    have hrest := ih fun c hc => hl c (List.mem_cons_of_mem _ hc)
    rw [Nat.ofDigitChars_cons_digitChar_of_lt_ten (hn.trans_le hb'), Nat.mul_zero, Nat.zero_add,
      ofDigitChars_init, List.length_cons]
    calc b ^ l.length * n + Nat.ofDigitChars b l 0 < b ^ l.length * n + b ^ l.length := by omega
      _ = b ^ l.length * (n + 1) := by ring
      _ ≤ b ^ l.length * b := Nat.mul_le_mul_left _ hn
      _ = b ^ (l.length + 1) := (Nat.pow_succ _ _).symm

/-- **Texts of as many digits** are in the order of their numbers. -/
theorem ofDigitChars_lt_iff {b : ℕ} (hb' : b ≤ 10) {s t : List Char} (hs : ∀ c ∈ s, IsDigitOf b c)
    (ht : ∀ c ∈ t, IsDigitOf b c) (hlength : s.length = t.length) :
    s < t ↔ Nat.ofDigitChars b s 0 < Nat.ofDigitChars b t 0 := by
  induction s generalizing t with
  | nil =>
    obtain rfl := List.length_eq_zero_iff.mp hlength.symm
    simp
  | cons c s ih =>
    cases t with
    | nil => simp at hlength
    | cons d t =>
      obtain ⟨m, hm, rfl⟩ := hs c List.mem_cons_self
      obtain ⟨n, hn, rfl⟩ := ht d List.mem_cons_self
      have hs' : ∀ c ∈ s, IsDigitOf b c := fun c hc => hs c (List.mem_cons_of_mem _ hc)
      have ht' : ∀ c ∈ t, IsDigitOf b c := fun c hc => ht c (List.mem_cons_of_mem _ hc)
      have hlength' : s.length = t.length := by simpa using hlength
      have hlts := ofDigitChars_lt hb' hs'
      have hltt := ofDigitChars_lt hb' ht'
      rw [List.cons_lt_cons_iff, Storage.digitChar_lt_iff (hm.trans_le hb') (hn.trans_le hb'),
        Storage.digitChar_inj (hm.trans_le hb') (hn.trans_le hb'), ih hs' ht' hlength',
        Nat.ofDigitChars_cons_digitChar_of_lt_ten (hm.trans_le hb'),
        Nat.ofDigitChars_cons_digitChar_of_lt_ten (hn.trans_le hb'), Nat.mul_zero, Nat.zero_add,
        Nat.zero_add, ofDigitChars_init b s m, ofDigitChars_init b t n, hlength']
      rw [hlength'] at hlts
      constructor
      · rintro (hlt | ⟨rfl, hlt⟩)
        · have hplaces : b ^ t.length * (m + 1) ≤ b ^ t.length * n := Nat.mul_le_mul_left _ hlt
          rw [Nat.mul_succ] at hplaces
          omega
        · omega
      · intro hlt
        rcases Nat.lt_trichotomy m n with hmn | rfl | hmn
        · exact .inl hmn
        · exact .inr ⟨rfl, by omega⟩
        · have hplaces : b ^ t.length * (n + 1) ≤ b ^ t.length * m := Nat.mul_le_mul_left _ hmn
          rw [Nat.mul_succ] at hplaces
          omega

end Numeral
