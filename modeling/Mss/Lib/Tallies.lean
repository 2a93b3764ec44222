import Mathlib.Algebra.BigOperators.Group.List.Basic
import Mathlib.Algebra.GroupWithZero.Nat
import Mathlib.Data.List.Count
import Mathlib.Data.List.Induction
import Mathlib.Data.List.Nodup

/-!
# Maps in the order of insertion, and counting with them

A map keeps its keys in the order in which they were set first. Counting the members of a list sets
each to one more than what it has.

* `OrderedMap.get`, `OrderedMap.set`: what a map has under a key, before and after it is set.
* `OrderedMap.tally`: how often each member of a list comes up.
* **`get_tally`**, `nodup_tally`, **`sum_tally`**: each member is a key once, under which is how often
  it is in the list, and the counts add up to the list's length.
-/

namespace OrderedMap

variable {K V : Type} [DecidableEq K]

/-- What a map has under a key. -/
def get : List (K × V) → K → Option V
  | [], _ => none
  | (k, v) :: m, k' => if k = k' then some v else get m k'

/-- **Set a key**, in its place, or at the end where the map has none. -/
def set : List (K × V) → K → V → List (K × V)
  | [], k', v' => [(k', v')]
  | (k, v) :: m, k', v' => if k = k' then (k, v') :: m else (k, v) :: set m k' v'

theorem get_set (m : List (K × V)) (k : K) (v : V) (k' : K) :
    get (set m k v) k' = if k = k' then some v else get m k' := by
  induction m with
  | nil => rfl
  | cons x m ih =>
    rw [set]
    split_ifs with hx hk hk
    · simp [get, hx, hk]
    · have hne : x.1 ≠ k' := fun h => hk (hx.symm.trans h)
      simp [get, hne]
    · have hne : x.1 ≠ k' := fun h => hx (h.trans hk.symm)
      rw [get, if_neg hne, ih, if_pos hk]
    · rw [get, get, ih, if_neg hk]

theorem mem_keys_set {m : List (K × V)} {k : K} {v : V} {k' : K} :
    k' ∈ (set m k v).map Prod.fst ↔ k' = k ∨ k' ∈ m.map Prod.fst := by
  induction m with
  | nil => simp [set]
  | cons x m ih =>
    rw [set]
    split_ifs with hx
    · subst hx
      simp
    · rw [List.map_cons, List.map_cons, List.mem_cons, List.mem_cons, ih]
      tauto

theorem nodup_set {m : List (K × V)} {k : K} {v : V} (hm : (m.map Prod.fst).Nodup) :
    ((set m k v).map Prod.fst).Nodup := by
  induction m with
  | nil => simp [set]
  | cons x m ih =>
    rw [List.map_cons, List.nodup_cons] at hm
    rw [set]
    split_ifs with hx
    · exact List.nodup_cons.mpr hm
    · refine List.nodup_cons.mpr ⟨fun hmem => ?_, ih hm.2⟩
      rcases mem_keys_set.mp hmem with h | h
      · exact hx h
      · exact hm.1 h

theorem get_of_mem {m : List (K × V)} (hm : (m.map Prod.fst).Nodup) {k : K} {v : V}
    (hmem : (k, v) ∈ m) : get m k = some v := by
  induction m with
  | nil => exact absurd hmem List.not_mem_nil
  | cons x m ih =>
    rw [List.map_cons, List.nodup_cons] at hm
    rcases List.mem_cons.mp hmem with rfl | hmem
    · simp [get]
    · have hne : x.1 ≠ k := fun h => hm.1 (h ▸ List.mem_map_of_mem hmem)
      simp [get, hne, ih hm.2 hmem]

theorem mem_of_get {m : List (K × V)} {k : K} {v : V} (h : get m k = some v) : (k, v) ∈ m := by
  induction m with
  | nil => cases h
  | cons x m ih =>
    rw [get] at h
    split_ifs at h with hx
    · cases h
      subst hx
      exact List.mem_cons_self
    · exact List.mem_cons_of_mem _ (ih h)

/-! ## Counting -/

/-- Count one more of a key. -/
def bump (m : List (K × ℕ)) (k : K) : List (K × ℕ) := set m k ((get m k).getD 0 + 1)

/-- **How often each member of a list comes up**, in the order in which they came up first. -/
def tally (l : List K) : List (K × ℕ) := l.foldl bump []

theorem sum_bump (m : List (K × ℕ)) (k : K) :
    ((bump m k).map Prod.snd).sum = (m.map Prod.snd).sum + 1 := by
  have hset : ∀ m : List (K × ℕ), ((set m k ((get m k).getD 0 + 1)).map Prod.snd).sum =
      (m.map Prod.snd).sum + 1 := by
    intro m
    induction m with
    | nil => rfl
    | cons x m ih =>
      rw [get, set]
      split_ifs with hx
      · simp only [Option.getD_some, List.map_cons, List.sum_cons]
        omega
      · rw [List.map_cons, List.sum_cons, ih, List.map_cons, List.sum_cons, Nat.add_assoc]
  exact hset m

theorem tally_concat (l : List K) (k : K) : tally (l ++ [k]) = bump (tally l) k := by
  rw [tally, List.foldl_append]
  rfl

theorem nodup_tally (l : List K) : ((tally l).map Prod.fst).Nodup := by
  induction l using List.reverseRecOn with
  | nil => exact List.nodup_nil
  | append_singleton l k ih =>
    rw [tally_concat]
    exact nodup_set ih

/-- **What is counted under a key** is how often the list has it. -/
theorem get_tally (l : List K) (k : K) :
    get (tally l) k = if k ∈ l then some (l.count k) else none := by
  induction l using List.reverseRecOn generalizing k with
  | nil => rfl
  | append_singleton l x hcounted =>
    have hbefore : (get (tally l) x).getD 0 = l.count x := by
      rw [hcounted x]
      split_ifs with hx
      · rfl
      · exact (List.count_eq_zero.mpr hx).symm
    rw [tally_concat, bump, get_set, hbefore, hcounted k]
    by_cases hx : x = k
    · simp [hx]
    · simp [hx, Ne.symm hx, List.count_append]

/-- **The counts add up** to the length of the list. -/
theorem sum_tally (l : List K) : ((tally l).map Prod.snd).sum = l.length := by
  induction l using List.reverseRecOn with
  | nil => rfl
  | append_singleton l k ih => rw [tally_concat, sum_bump, ih, List.length_append, List.length_singleton]

theorem mem_tally {l : List K} {k : K} {n : ℕ} : (k, n) ∈ tally l ↔ k ∈ l ∧ n = l.count k := by
  constructor
  · intro hmem
    have hget := get_of_mem (nodup_tally l) hmem
    rw [get_tally] at hget
    split_ifs at hget with hk
    exact ⟨hk, (Option.some.inj hget).symm⟩
  · rintro ⟨hk, rfl⟩
    exact mem_of_get (by rw [get_tally, if_pos hk])

end OrderedMap
