import Mathlib.Data.List.Sort

/-!
# Sorted pages

A query filters records, sorts what it matched and answers with a page of that. Where the order
decides between any two of the records, every way to sort them gives one list, and so the pages of
several queries are slices of one list.

* `compareNulls`, `compareBy`: orders with nulls, and orders of several fields.
* **`Sorting`**: a way to sort; `Sorting.run_eq`: an order that decides has one.
* **`page`**, `Except.mapM_page`: consecutive pages are the list they are cut from.
-/

namespace Storage

open Std

variable {α β ε : Type}

/-! ## Orders -/

/-- The order of values that may be null, with the nulls before or after the others. -/
def compareNulls (nullsFirst : Bool) (cmp : α → α → Ordering) : Option α → Option α → Ordering
  | none, none => .eq
  | none, some _ => if nullsFirst then .lt else .gt
  | some _, none => if nullsFirst then .gt else .lt
  | some a, some b => cmp a b

instance (nullsFirst : Bool) (cmp : α → α → Ordering) [TransCmp cmp] :
    TransCmp (compareNulls nullsFirst cmp) where
  eq_swap := by
    intro a b
    cases a with
    | none => cases b <;> cases nullsFirst <;> rfl
    | some a =>
      cases b with
      | none => cases nullsFirst <;> rfl
      | some b =>
        have hswap : cmp a b = (cmp b a).swap := OrientedCmp.eq_swap
        exact hswap
  isLE_trans := by
    intro a b c hab hbc
    cases a <;> cases b <;> cases c
    case some.some.some a b c =>
      have htrans : (cmp a b).isLE → (cmp b c).isLE → (cmp a c).isLE := TransCmp.isLE_trans
      exact htrans hab hbc
    all_goals cases nullsFirst <;> simp_all [compareNulls]

/-- The order by the first that decides. -/
def compareBy : List (α → α → Ordering) → α → α → Ordering
  | [] => fun _ _ => .eq
  | cmp :: cmps => compareLex cmp (compareBy cmps)

theorem transCmp_compareBy {cmps : List (α → α → Ordering)} (h : ∀ cmp ∈ cmps, TransCmp cmp) :
    TransCmp (compareBy cmps) := by
  induction cmps with
  | nil => exact { eq_swap := rfl, isLE_trans := fun _ _ => rfl }
  | cons cmp cmps ih =>
    have := h cmp List.mem_cons_self
    have := ih fun c hc => h c (List.mem_cons_of_mem _ hc)
    exact inferInstanceAs (TransCmp (compareLex cmp (compareBy cmps)))

theorem eq_of_compareBy {cmps : List (α → α → Ordering)} {a b : α} (h : compareBy cmps a b = .eq) :
    ∀ cmp ∈ cmps, cmp a b = .eq := by
  induction cmps with
  | nil => simp
  | cons cmp cmps ih =>
    have hboth : cmp a b = .eq ∧ compareBy cmps a b = .eq := Ordering.then_eq_eq.mp h
    exact List.forall_mem_cons.mpr ⟨hboth.1, ih hboth.2⟩

/-! ## Sorting -/

/-- **A way to sort a list.** -/
structure Sorting (r : α → α → Prop) where
  run : List α → List α
  perm : ∀ l, (run l).Perm l
  sorted : ∀ l, (run l).Pairwise r

namespace Sorting

/-- The sorting by merging. -/
def byMerging (cmp : α → α → Ordering) [TransCmp cmp] : Sorting fun a b => (cmp a b).isLE where
  run l := l.mergeSort fun a b => (cmp a b).isLE
  perm l := List.mergeSort_perm l _
  sorted l := by
    refine List.pairwise_mergeSort (fun a b c => TransCmp.isLE_trans) (fun a b => ?_) l
    have hswap : cmp a b = (cmp b a).swap := OrientedCmp.eq_swap
    rw [hswap]
    cases cmp b a <;> rfl

variable {r : α → α → Prop}

/-- **Where the order decides, there is one sorted list.** -/
theorem run_eq (s t : Sorting r) {l : List α} (h : ∀ a ∈ l, ∀ b ∈ l, r a b → r b a → a = b) :
    s.run l = t.run l := by
  have hdecides : ∀ a b, a ∈ s.run l → b ∈ t.run l → r a b → r b a → a = b := fun a b ha hb =>
    h a ((s.perm l).mem_iff.mp ha) b ((t.perm l).mem_iff.mp hb)
  exact List.Perm.eq_of_pairwise hdecides (s.sorted l) (t.sorted l)
    ((s.perm l).trans (t.perm l).symm)

end Sorting

/-! ## Pages -/

/-- **The page at a place of a list**: as many members as the limit allows, or all that follow. -/
def page (skip : ℕ) (limit : Option ℕ) (l : List α) : List α :=
  match limit with
  | none => l.drop skip
  | some n => (l.drop skip).take n

theorem length_page_le (skip n : ℕ) (l : List α) : (page skip (some n) l).length ≤ n := by
  simp [page]

theorem page_zero (skip : ℕ) (l : List α) : page skip (some 0) l = [] := by
  simp [page]

theorem flatten_pages (l : List α) (n k : ℕ) :
    ((List.range k).map fun i => page (i * n) (some n) l).flatten = l.take (k * n) := by
  induction k with
  | zero => simp
  | succ k ih =>
    rw [List.range_succ, List.map_append, List.flatten_append, ih, Nat.succ_mul, List.take_add]
    simp [page]

theorem mapM_flatten (f : α → Except ε β) (ls : List (List α)) :
    (ls.mapM (List.mapM f)).map List.flatten = ls.flatten.mapM f := by
  induction ls with
  | nil => rfl
  | cons l ls ih =>
    rw [List.mapM_cons, List.flatten_cons, List.mapM_append, ← ih]
    cases l.mapM f with
    | error e => rfl
    | ok bs => cases ls.mapM (List.mapM f) <;> rfl

/-- **Pages read one after another are the list they are cut from.** -/
theorem mapM_page (f : α → Except ε β) {l : List α} {n k : ℕ} (h : l.length ≤ k * n) :
    ((List.range k).mapM fun i => (page (i * n) (some n) l).mapM f).map List.flatten =
      l.mapM f := by
  have hmap : ((List.range k).mapM fun i => (page (i * n) (some n) l).mapM f) =
      ((List.range k).map fun i => page (i * n) (some n) l).mapM (List.mapM f) := by
    rw [List.mapM_map]
    rfl
  rw [hmap, mapM_flatten, flatten_pages, List.take_of_length_le h]

theorem length_of_mapM {f : α → Except ε β} {l : List α} {bs : List β} (h : l.mapM f = .ok bs) :
    bs.length = l.length := by
  induction l generalizing bs with
  | nil =>
    cases h
    rfl
  | cons a l ih =>
    rw [List.mapM_cons] at h
    cases ha : f a with
    | error e =>
      rw [ha] at h
      cases h
    | ok b =>
      cases hl : l.mapM f with
      | error e =>
        rw [ha, hl] at h
        cases h
      | ok bs' =>
        rw [ha, hl] at h
        cases h
        rw [List.length_cons, List.length_cons, ih hl]

end Storage
