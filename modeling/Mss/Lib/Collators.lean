import Mathlib.Data.List.Lex
import Mathlib.Data.List.Sort
import Mathlib.Data.String.Basic
import Mss.Lib.Numerals

/-!
# Comparators, and texts compared by weights

A comparator answers with a negative number where the first of two comes first, with a positive one
where the second does, and else with zero. A collation compares texts by the weights of their letters
before all else. Some letters may have none.

* `IsConsistent`: the answers are those of an order; `sortBy`: a list sorted by them, stably.
* `orElse`: a comparator that decides where another does not.
* `Weights`: weights in the order of the digits; `Covers`, `keys`: a text of letters that have them, and
  its weights; `letterWeights`: the letters.
* **`keys_digits_lt_iff`**, `digits_append_lt_iff`: numbers written in one width are in their order.
* **`Collates`**: a comparator of texts by such weights; `collates_root`: one of them.
* `keys_lt_iff_of_digits`: texts of digits are in their own order.
-/

namespace Collation

variable {α β : Type} {cmp cmp' : α → α → ℤ}

/-! ## Comparators -/

/-- **A comparator is consistent**: what it answers is how an order has them. -/
structure IsConsistent (cmp : α → α → ℤ) : Prop where
  swap : ∀ a b, cmp a b < 0 ↔ 0 < cmp b a
  trans : ∀ a b c, cmp a b ≤ 0 → cmp b c ≤ 0 → cmp a c ≤ 0

namespace IsConsistent

theorem total (h : IsConsistent cmp) (a b : α) : cmp a b ≤ 0 ∨ cmp b a ≤ 0 := by
  have hswap := h.swap b a
  omega

theorem eq_zero_comm (h : IsConsistent cmp) (a b : α) : cmp a b = 0 ↔ cmp b a = 0 := by
  have hswap := h.swap a b
  have hswap' := h.swap b a
  omega

theorem comap (h : IsConsistent cmp) (f : β → α) : IsConsistent fun a b => cmp (f a) (f b) where
  swap a b := h.swap (f a) (f b)
  trans a b c := h.trans (f a) (f b) (f c)

end IsConsistent

theorem isConsistent_sub : IsConsistent fun a b : ℤ => a - b where
  swap a b := by omega
  trans a b c := by omega

/-- **A comparator that decides** where the first does not. -/
def orElse (cmp cmp' : α → α → ℤ) (a b : α) : ℤ := if cmp a b = 0 then cmp' a b else cmp a b

theorem IsConsistent.orElse (h : IsConsistent cmp) (h' : IsConsistent cmp') :
    IsConsistent (orElse cmp cmp') where
  swap a b := by
    have hzero := h.eq_zero_comm a b
    have hswap := h.swap a b
    have hswap' := h'.swap a b
    unfold Collation.orElse
    split_ifs <;> omega
  trans a b c hab hbc := by
    have hle : ∀ {a b : α}, Collation.orElse cmp cmp' a b ≤ 0 → cmp a b ≤ 0 := by
      intro a b h
      unfold Collation.orElse at h
      split_ifs at h <;> omega
    have hac := h.trans a b c (hle hab) (hle hbc)
    unfold Collation.orElse
    split_ifs with hzero
    · -- The first comparator has all three equal, so that the second decides.
      have hca : cmp c a ≤ 0 := by
        rw [(h.eq_zero_comm a c).mp hzero]
      have hab0 : cmp a b = 0 := by
        have hba := h.trans b c a (hle hbc) hca
        have hswap := h.swap a b
        have hab' := hle hab
        omega
      have hbc0 : cmp b c = 0 := by
        have hcb := h.trans c a b hca (hle hab)
        have hswap := h.swap b c
        have hbc' := hle hbc
        omega
      rw [Collation.orElse, if_pos hab0] at hab
      rw [Collation.orElse, if_pos hbc0] at hbc
      exact h'.trans a b c hab hbc
    · exact hac

/-- **A list sorted by a comparator**, where equal members stay in their order. -/
def sortBy (cmp : α → α → ℤ) (l : List α) : List α := l.insertionSort fun a b => cmp a b ≤ 0

theorem sortBy_perm (cmp : α → α → ℤ) (l : List α) : (sortBy cmp l).Perm l :=
  List.perm_insertionSort _ l

theorem pairwise_sortBy (h : IsConsistent cmp) (l : List α) :
    (sortBy cmp l).Pairwise fun a b => cmp a b ≤ 0 := by
  have : Std.Total fun a b : α => cmp a b ≤ 0 := ⟨h.total⟩
  have : IsTrans α fun a b => cmp a b ≤ 0 := ⟨h.trans⟩
  exact List.pairwise_insertionSort _ l

theorem sortBy_map (cmp : α → α → ℤ) (f : β → α) (l : List β) :
    sortBy cmp (l.map f) = (sortBy (fun a b => cmp (f a) (f b)) l).map f :=
  (List.map_insertionSort (r := fun a b => cmp (f a) (f b) ≤ 0) (s := fun a b => cmp a b ≤ 0) f l
    fun _ _ _ _ => Iff.rfl).symm

/-- Members of an order, by it. -/
def compareBy [LinearOrder β] (a b : β) : ℤ := if a < b then -1 else if b < a then 1 else 0

theorem compareBy_nonpos [LinearOrder β] {a b : β} : compareBy a b ≤ 0 ↔ a ≤ b := by
  unfold compareBy
  split_ifs with hlt hgt
  · simp [hlt.le]
  · simp [hgt]
  · simp [not_lt.mp hgt]

theorem compareBy_neg [LinearOrder β] {a b : β} : compareBy a b < 0 ↔ a < b := by
  unfold compareBy
  split_ifs with hlt hgt <;> simp [hlt]

theorem isConsistent_compareBy [LinearOrder β] : IsConsistent (compareBy : β → β → ℤ) where
  swap a b := by
    have hpos : 0 < compareBy b a ↔ ¬ b ≤ a := by rw [← compareBy_nonpos, not_le]
    rw [compareBy_neg, hpos, not_le]
  trans a b c hab hbc := by
    rw [compareBy_nonpos] at *
    exact hab.trans hbc

/-! ## Weights of letters -/

/-- **Weights of letters**, in the order of the digits. A letter is single if it is compared by itself,
by its weight or not at all; others are compared as two, or as one with the next. -/
structure Weights (κ : Type) [LinearOrder κ] where
  of : Char → Option κ
  isSingle : Char → Bool
  digit : ℕ → κ
  of_digit : ∀ n < 10, of (Nat.digitChar n) = some (digit n)
  single_digit : ∀ n < 10, isSingle (Nat.digitChar n) = true
  digit_lt : ∀ m n, m < n → n < 10 → digit m < digit n

variable {κ : Type} [LinearOrder κ]

theorem append_lt_append_iff (l s t : List κ) : l ++ s < l ++ t ↔ s < t := by
  induction l with
  | nil => rfl
  | cons k l ih =>
    rw [List.cons_append, List.cons_append, List.cons_lt_cons_iff, ih]
    simp

namespace Weights

variable (w : Weights κ)

theorem digit_lt_iff {m n : ℕ} (hm : m < 10) (hn : n < 10) : w.digit m < w.digit n ↔ m < n := by
  constructor
  · intro h
    by_contra hle
    rcases (not_lt.mp hle).eq_or_lt with rfl | hlt
    · exact lt_irrefl _ h
    · exact lt_asymm h (w.digit_lt n m hlt hm)
  · exact fun h => w.digit_lt m n h hn

theorem digit_inj {m n : ℕ} (hm : m < 10) (hn : n < 10) : w.digit m = w.digit n ↔ m = n := by
  refine ⟨fun h => ?_, fun h => by rw [h]⟩
  have hlt := w.digit_lt_iff hm hn
  have hgt := w.digit_lt_iff hn hm
  rw [h] at hlt hgt
  simp only [lt_irrefl, false_iff] at hlt hgt
  omega

/-- A text of single letters. -/
def Covers (s : List Char) : Prop := ∀ c ∈ s, w.isSingle c = true

theorem covers_append {s t : List Char} : w.Covers (s ++ t) ↔ w.Covers s ∧ w.Covers t :=
  List.forall_mem_append

theorem covers_of_digits {s : List Char} (hs : ∀ c ∈ s, c.isDigit = true) : w.Covers s := by
  intro c hc
  obtain ⟨n, hn, rfl⟩ := Numeral.isDigitOf_of_isDigit (hs c hc)
  exact w.single_digit n hn

theorem covers_digits (width n : ℕ) : w.Covers (Storage.digits width n) := by
  induction width generalizing n with
  | zero => exact List.forall_mem_nil _
  | succ width ih =>
    refine w.covers_append.mpr ⟨ih _, List.forall_mem_singleton.mpr ?_⟩
    exact w.single_digit _ (Nat.mod_lt n (by omega))

/-- The weights of the letters of a text that have any. -/
def keys (s : List Char) : List κ := s.filterMap w.of

theorem keys_append (s t : List Char) : w.keys (s ++ t) = w.keys s ++ w.keys t :=
  List.filterMap_append

theorem keys_cons {c : Char} {k : κ} (h : w.of c = some k) (s : List Char) :
    w.keys (c :: s) = k :: w.keys s := List.filterMap_cons_some h

/-- Numbers of one width are in the order of their digits' weights. -/
theorem keys_digits_lt_iff (width : ℕ) {m n : ℕ} (hm : m < 10 ^ width) (hn : n < 10 ^ width)
    (s t : List κ) :
    w.keys (Storage.digits width m) ++ s < w.keys (Storage.digits width n) ++ t ↔
      m < n ∨ m = n ∧ s < t := by
  induction width generalizing m n s t with
  | zero =>
    obtain rfl : m = 0 := by simpa using hm
    obtain rfl : n = 0 := by simpa using hn
    rw [append_lt_append_iff]
    simp
  | succ width ih =>
    have hlast : ∀ k, k % 10 < 10 := fun k => Nat.mod_lt k (by omega)
    have hkeys : ∀ k, w.keys (Storage.digits (width + 1) k) =
        w.keys (Storage.digits width (k / 10)) ++ [w.digit (k % 10)] := by
      intro k
      rw [Storage.digits, w.keys_append, w.keys_cons (w.of_digit _ (hlast k))]
      rfl
    have htens : m / 10 < n / 10 ∨ m / 10 = n / 10 ∧ m % 10 < n % 10 ↔ m < n := by omega
    have hsame : m / 10 = n / 10 ∧ m % 10 = n % 10 ↔ m = n := by omega
    rw [hkeys, hkeys, List.append_assoc, List.append_assoc, ih (by omega) (by omega),
      List.singleton_append, List.singleton_append, List.cons_lt_cons_iff,
      w.digit_lt_iff (hlast m) (hlast n), w.digit_inj (hlast m) (hlast n), ← htens, ← hsame]
    tauto

/-- **Texts of digits are in their own order.** -/
theorem keys_lt_iff_of_digits {s t : List Char} (hs : ∀ c ∈ s, c.isDigit = true)
    (ht : ∀ c ∈ t, c.isDigit = true) : w.keys s < w.keys t ↔ s < t := by
  induction s generalizing t with
  | nil =>
    cases t with
    | nil => simp
    | cons d t =>
      obtain ⟨n, hn, rfl⟩ := Numeral.isDigitOf_of_isDigit (ht d List.mem_cons_self)
      rw [w.keys_cons (w.of_digit n hn)]
      simp [keys]
  | cons c s ih =>
    obtain ⟨m, hm, rfl⟩ := Numeral.isDigitOf_of_isDigit (hs c List.mem_cons_self)
    cases t with
    | nil => simp [keys]
    | cons d t =>
      obtain ⟨n, hn, rfl⟩ := Numeral.isDigitOf_of_isDigit (ht d List.mem_cons_self)
      have hrest := ih (fun c hc => hs c (List.mem_cons_of_mem _ hc))
        fun c hc => ht c (List.mem_cons_of_mem _ hc)
      rw [w.keys_cons (w.of_digit m hm), w.keys_cons (w.of_digit n hn), List.cons_lt_cons_iff,
        List.cons_lt_cons_iff, hrest, w.digit_lt_iff hm hn, w.digit_inj hm hn,
        Storage.digitChar_lt_iff hm hn, Storage.digitChar_inj hm hn]

end Weights

/-- The letters, each of which weighs what it is. -/
def letterWeights : Weights Char where
  of := some
  isSingle _ := true
  digit := Nat.digitChar
  of_digit _ _ := rfl
  single_digit _ _ := rfl
  digit_lt _ _ h hn := (Storage.digitChar_lt_iff (h.trans hn) hn).mpr h

theorem keys_letterWeights (l : List Char) : letterWeights.keys l = l := List.filterMap_some

/-- **Texts that start with numbers of one width** are in the order of the numbers, and of what
follows them. -/
theorem digits_append_lt_iff (width : ℕ) {m n : ℕ} (hm : m < 10 ^ width) (hn : n < 10 ^ width)
    (s t : List Char) :
    Storage.digits width m ++ s < Storage.digits width n ++ t ↔ m < n ∨ m = n ∧ s < t := by
  have hkeys := letterWeights.keys_digits_lt_iff width hm hn s t
  rwa [keys_letterWeights, keys_letterWeights] at hkeys

/-! ## Collations -/

/-- **A comparator of texts by the weights of their letters**, before all else, where all are single. -/
structure Collates (w : Weights κ) (cmp : String → String → ℤ) : Prop extends IsConsistent cmp where
  lt : ∀ s t, w.Covers s.toList → w.Covers t.toList → w.keys s.toList < w.keys t.toList → cmp s t < 0

/-- Letters in the order of the root collation: punctuation, digits, letters. -/
def rootOrder : List Char := "_-,;:!?./+0123456789abcdefghijklmnopqrstuvwxyz".toList

/-- The weights of the root collation, for those letters in either case. -/
def rootWeights : Weights ℕ where
  of c := rootOrder.idxOf? c.toLower
  isSingle c := rootOrder.contains c.toLower
  digit n := n + 10
  of_digit := by decide
  single_digit := by decide
  digit_lt := by omega

/-- Compare texts by the root collation's weights, and where these are equal by the texts. -/
def rootCompare : String → String → ℤ :=
  orElse (fun s t => compareBy (rootWeights.keys s.toList) (rootWeights.keys t.toList)) compareBy

theorem collates_root : Collates rootWeights rootCompare where
  toIsConsistent :=
    (isConsistent_compareBy.comap fun s : String => rootWeights.keys s.toList).orElse
      isConsistent_compareBy
  lt s t _ _ h := by
    have hneg := compareBy_neg.mpr h
    rw [rootCompare, orElse, if_neg hneg.ne]
    exact hneg

end Collation
