import Mathlib.Data.List.Nodup
import Mathlib.Data.List.Pairwise
import Mathlib.Data.List.Sort

/-!
# Child tables

A list kept in a table of its own: one row per element, with the key of the record it is of and
its position. The primary key is the record's key and the element together, so that no list holds
an element twice; positions need not be consecutive.

* `ChildTable`: the rows, their primary key, and the order of their positions.
* `ChildTable.elements`: a record's list, read in the order of its positions.
* **`elements_replace`**, **`elements_add`**, **`elements_remove`**: the list after each write.
* `ListWrite`: the writes as a plain list takes them.
-/

namespace Storage

/-- A row of a child table. -/
structure ChildRow (K V : Type) where
  parent : K
  value : V
  position : ℕ
  deriving DecidableEq, Repr

/-- **A child table**: no record has an element twice, and a record's rows, in the order they were
inserted, stand at growing positions. -/
structure ChildTable (K V : Type) where
  rows : List (ChildRow K V)
  primaryKey : (rows.map fun r => (r.parent, r.value)).Nodup
  ordered : rows.Pairwise fun r s => r.parent = s.parent → r.position < s.position

namespace ChildTable

variable {K V : Type}

/-- The table of no rows. -/
def empty : ChildTable K V := ⟨[], List.nodup_nil, .nil⟩

variable [DecidableEq K]

/-- The rows of a record. -/
def rowsOf (t : ChildTable K V) (k : K) : List (ChildRow K V) := t.rows.filter (·.parent = k)

/-- **A record's list**: its rows' elements, in the order of their positions. -/
def elements (t : ChildTable K V) (k : K) : List V :=
  ((t.rowsOf k).insertionSort fun r s => r.position ≤ s.position).map (·.value)

theorem pairwise_rowsOf (t : ChildTable K V) (k : K) :
    (t.rowsOf k).Pairwise fun r s => r.position < s.position := by
  refine List.Pairwise.imp_of_mem ?_ (t.ordered.filter _)
  intro r s hr hs h
  exact h ((by simpa using (List.mem_filter.mp hr).2 : r.parent = k).trans
    (by simpa using (List.mem_filter.mp hs).2 : s.parent = k).symm)

theorem elements_eq (t : ChildTable K V) (k : K) :
    t.elements k = (t.rowsOf k).map (·.value) := by
  unfold elements
  rw [List.Pairwise.insertionSort_eq]
  exact (t.pairwise_rowsOf k).imp fun h => Nat.le_of_lt h

theorem mem_elements {t : ChildTable K V} {k : K} {v : V} :
    v ∈ t.elements k ↔ ∃ r ∈ t.rows, r.parent = k ∧ r.value = v := by
  simp [elements_eq, rowsOf, and_assoc]

theorem nodup_elements (t : ChildTable K V) (k : K) : (t.elements k).Nodup := by
  rw [elements_eq]
  have hkeys := t.primaryKey.sublist ((List.filter_sublist (p := (·.parent = k))).map _)
  have hpairs : (t.rowsOf k).map (fun r => (r.parent, r.value)) =
      ((t.rowsOf k).map (·.value)).map (Prod.mk k) := by
    rw [List.map_map]
    refine List.map_congr_left fun r hr => ?_
    simp [(by simpa using (List.mem_filter.mp hr).2 : r.parent = k)]
  exact List.Nodup.of_map _ (hpairs ▸ hkeys)

/-! ## Writing -/

/-- Take away the rows that satisfy `p`. -/
def eraseWhere (t : ChildTable K V) (p : ChildRow K V → Bool) : ChildTable K V where
  rows := t.rows.filter fun r => !p r
  primaryKey := t.primaryKey.sublist (List.filter_sublist.map _)
  ordered := t.ordered.filter _

/-- Take away every row of a record. -/
def erase (t : ChildTable K V) (k : K) : ChildTable K V := t.eraseWhere (·.parent = k)

/-- Take an element out of a record's list. -/
def remove [DecidableEq V] (t : ChildTable K V) (k : K) (v : V) : ChildTable K V :=
  t.eraseWhere fun r => r.parent = k ∧ r.value = v

theorem mem_erase {t : ChildTable K V} {k : K} {r : ChildRow K V} :
    r ∈ (t.erase k).rows ↔ r ∈ t.rows ∧ r.parent ≠ k := by
  simp [erase, eraseWhere]

/-- The rows of a list, at the positions from 0 on. -/
def listRows (k : K) (vs : List V) : List (ChildRow K V) :=
  vs.zipIdx.map fun x => ⟨k, x.1, x.2⟩

omit [DecidableEq K] in
theorem parent_listRows {k : K} {vs : List V} {r : ChildRow K V} (h : r ∈ listRows k vs) :
    r.parent = k := by
  simp only [listRows, List.mem_map] at h
  obtain ⟨x, _, rfl⟩ := h
  rfl

omit [DecidableEq K] in
theorem value_listRows (k : K) (vs : List V) : (listRows k vs).map (·.value) = vs := by
  simp only [listRows, List.map_map, Function.comp_def]
  exact List.zipIdx_map_fst 0 vs

omit [DecidableEq K] in
theorem pairwise_listRows (k : K) (vs : List V) :
    (listRows k vs).Pairwise fun r s => r.position < s.position := by
  have hpos : ((listRows k vs).map (·.position)).Pairwise (· < ·) := by
    simp only [listRows, List.map_map, Function.comp_def]
    rw [show (vs.zipIdx.map fun x => x.2) = List.range vs.length by
      simp [List.range_eq_range']]
    exact List.pairwise_lt_range
  exact List.pairwise_map.mp hpos

/-- Insert the rows of a list for a record that has none. -/
def insertAll (t : ChildTable K V) (k : K) (vs : List V) (hk : ∀ r ∈ t.rows, r.parent ≠ k)
    (hvs : vs.Nodup) : ChildTable K V where
  rows := t.rows ++ listRows k vs
  primaryKey := by
    rw [List.map_append, List.nodup_append]
    refine ⟨t.primaryKey, ?_, ?_⟩
    · refine List.Nodup.of_map Prod.snd ?_
      rw [List.map_map]
      exact (value_listRows k vs).symm ▸ hvs
    · rintro x hx _ hy rfl
      obtain ⟨r, hr, hrx⟩ := List.mem_map.mp hx
      obtain ⟨s, hs, hsx⟩ := List.mem_map.mp hy
      exact hk r hr ((Prod.mk.inj (hrx.trans hsx.symm)).1.trans (parent_listRows hs))
  ordered := by
    rw [List.pairwise_append]
    refine ⟨t.ordered, ?_, fun r hr s hs h => ?_⟩
    · exact (pairwise_listRows k vs).imp fun {r s} (h : r.position < s.position) _ => h
    · exact absurd (h.trans (parent_listRows hs)) (hk r hr)

/-- Set a record's list: take its rows away, then insert those of the list. -/
def replace (t : ChildTable K V) (k : K) (vs : List V) (hvs : vs.Nodup) : ChildTable K V :=
  (t.erase k).insertAll k vs (fun _ hr => (mem_erase.mp hr).2) hvs

/-- The position after every one of a record's rows. -/
def nextPosition (t : ChildTable K V) (k : K) : ℕ :=
  (((t.rowsOf k).map (·.position)).max?.map (· + 1)).getD 0

theorem lt_nextPosition {t : ChildTable K V} {k : K} {r : ChildRow K V} (hr : r ∈ t.rows)
    (hk : r.parent = k) : r.position < t.nextPosition k := by
  have hmem : r.position ∈ (t.rowsOf k).map (·.position) :=
    List.mem_map.mpr ⟨r, List.mem_filter.mpr ⟨hr, by simpa using hk⟩, rfl⟩
  unfold nextPosition
  cases hmax : ((t.rowsOf k).map (·.position)).max? with
  | none =>
    rw [List.max?_eq_none_iff] at hmax
    rw [hmax] at hmem
    cases hmem
  | some m => exact Nat.lt_succ_of_le ((List.max?_eq_some_iff.mp hmax).2 _ hmem)

theorem nextPosition_le {t : ChildTable K V} {k : K} {n : ℕ}
    (h : ∀ r ∈ t.rowsOf k, r.position < n) : t.nextPosition k ≤ n := by
  unfold nextPosition
  cases hmax : ((t.rowsOf k).map (·.position)).max? with
  | none => exact Nat.zero_le n
  | some m =>
    obtain ⟨r, hr, rfl⟩ := List.mem_map.mp (List.max?_eq_some_iff.mp hmax).1
    exact h r hr

/-- Add an element to a record's list, unless it is there: the primary key refuses it then. -/
def add [DecidableEq V] (t : ChildTable K V) (k : K) (v : V) : ChildTable K V :=
  if h : ∃ r ∈ t.rows, r.parent = k ∧ r.value = v then t
  else
    { rows := t.rows ++ [⟨k, v, t.nextPosition k⟩]
      primaryKey := by
        rw [List.map_append, List.nodup_append]
        refine ⟨t.primaryKey, List.nodup_singleton _, ?_⟩
        rintro x hx _ hy rfl
        obtain ⟨r, hr, hrx⟩ := List.mem_map.mp hx
        simp only [List.map_cons, List.map_nil, List.mem_singleton] at hy
        exact h ⟨r, hr, (Prod.mk.inj (hrx.trans hy)).1, (Prod.mk.inj (hrx.trans hy)).2⟩
      ordered := by
        rw [List.pairwise_append]
        refine ⟨t.ordered, List.pairwise_singleton _ _, fun r hr s hs hk => ?_⟩
        rw [List.mem_singleton] at hs
        subst hs
        exact lt_nextPosition hr hk }

/-! ## Reading after a write -/

theorem elements_erase (t : ChildTable K V) (k k' : K) :
    (t.erase k).elements k' = if k' = k then [] else t.elements k' := by
  simp only [elements_eq, rowsOf, erase, eraseWhere, List.filter_filter]
  split_ifs with h
  · subst h
    simp
  · congr 1
    refine List.filter_congr fun r _ => ?_
    by_cases hr : r.parent = k' <;> simp [hr, h]

theorem elements_insertAll (t : ChildTable K V) (k : K) (vs : List V)
    (hk : ∀ r ∈ t.rows, r.parent ≠ k) (hvs : vs.Nodup) (k' : K) :
    (t.insertAll k vs hk hvs).elements k' = if k' = k then vs else t.elements k' := by
  simp only [elements_eq, rowsOf, insertAll, List.filter_append, List.map_append]
  split_ifs with h
  · subst h
    have h1 : t.rows.filter (·.parent = k') = [] := by
      simpa [List.filter_eq_nil_iff] using hk
    have h2 : (listRows k' vs).filter (·.parent = k') = listRows k' vs := by
      rw [List.filter_eq_self]
      exact fun r hr => by simpa using parent_listRows hr
    rw [h1, h2, value_listRows]
    rfl
  · have h2 : (listRows k vs).filter (·.parent = k') = [] := by
      rw [List.filter_eq_nil_iff]
      exact fun r hr hp => h ((by simpa using hp : r.parent = k').symm.trans (parent_listRows hr))
    rw [h2]
    exact List.append_nil _

/-- **The list after it is set.** -/
theorem elements_replace (t : ChildTable K V) (k : K) (vs : List V) (hvs : vs.Nodup) (k' : K) :
    (t.replace k vs hvs).elements k' = if k' = k then vs else t.elements k' := by
  rw [replace, elements_insertAll, elements_erase]
  split_ifs <;> rfl

/-- **The list after an element is added.** -/
theorem elements_add [DecidableEq V] (t : ChildTable K V) (k : K) (v : V) (k' : K) :
    (t.add k v).elements k' = if k' = k then
      if v ∈ t.elements k then t.elements k else t.elements k ++ [v] else t.elements k' := by
  unfold add
  by_cases hv : ∃ r ∈ t.rows, r.parent = k ∧ r.value = v
  · rw [dif_pos hv, if_pos (mem_elements.mpr hv)]
    split_ifs with h
    · rw [h]
    · rfl
  · rw [dif_neg hv, if_neg (mt mem_elements.mp hv)]
    simp only [elements_eq, rowsOf, List.filter_append, List.map_append]
    split_ifs with h
    · subst h
      simp
    · simp [Ne.symm h]

/-- **The list after an element is taken out.** -/
theorem elements_remove [DecidableEq V] (t : ChildTable K V) (k : K) (v : V) (k' : K) :
    (t.remove k v).elements k' =
      if k' = k then (t.elements k).filter (· ≠ v) else t.elements k' := by
  simp only [elements_eq, rowsOf, remove, eraseWhere, List.filter_filter]
  split_ifs with h
  · subst h
    rw [List.filter_map, List.filter_filter]
    congr 1
    refine List.filter_congr fun r _ => ?_
    by_cases hr : r.parent = k' <;> by_cases hv : r.value = v <;> simp [hr, hv]
  · congr 1
    refine List.filter_congr fun r _ => ?_
    by_cases hr : r.parent = k' <;> simp [hr, h]

end ChildTable

/-! ## Refining a list -/

/-- A write to a list: set it, add an element that is absent, or take out every equal one. -/
inductive ListWrite (V : Type) where
  | set (vs : List V)
  | add (v : V)
  | pull (v : V)

namespace ListWrite

variable {V W : Type}

/-- **The list after a write.** -/
def apply [DecidableEq V] (l : List V) : ListWrite V → List V
  | set vs => vs
  | add v => if v ∈ l then l else l ++ [v]
  | pull v => l.filter (· ≠ v)

/-- A list is set to distinct elements. -/
def Distinct : ListWrite V → Prop
  | set vs => vs.Nodup
  | _ => True

/-- How many elements it puts in the list. -/
def size : ListWrite V → ℕ
  | set vs => vs.length
  | add _ => 1
  | pull _ => 0

/-- The write of other elements. -/
def map (f : V → W) : ListWrite V → ListWrite W
  | set vs => set (vs.map f)
  | add v => add (f v)
  | pull v => pull (f v)

theorem apply_map [DecidableEq V] [DecidableEq W] {f : V → W} (hf : Function.Injective f)
    (l : List V) (w : ListWrite V) : (w.map f).apply (l.map f) = (w.apply l).map f := by
  cases w with
  | set vs => rfl
  | add v =>
    simp only [map, apply, List.mem_map_of_injective hf]
    split_ifs <;> simp
  | pull v =>
    simp only [map, apply, List.filter_map]
    congr 1
    refine List.filter_congr fun u _ => ?_
    simp [hf.eq_iff]

theorem nodup_apply [DecidableEq V] {l : List V} {w : ListWrite V} (hl : l.Nodup)
    (hw : w.Distinct) : (w.apply l).Nodup := by
  cases w with
  | set vs => exact hw
  | add v =>
    simp only [apply]
    split_ifs with hv
    · exact hl
    · exact List.nodup_append.mpr ⟨hl, List.nodup_singleton v, by
        rintro a ha b hb rfl
        exact hv (List.mem_singleton.mp hb ▸ ha)⟩
  | pull v => exact hl.filter _

end ListWrite

namespace ChildTable

variable {K V : Type} [DecidableEq K] [DecidableEq V]

/-- The table after a write to a record's list. -/
def write (t : ChildTable K V) (k : K) (w : ListWrite V) (hw : w.Distinct) : ChildTable K V :=
  match w with
  | .set vs => t.replace k vs hw
  | .add v => t.add k v
  | .pull v => t.remove k v

/-- **A write moves the next place by no more than the elements it names.** -/
theorem nextPosition_write (t : ChildTable K V) (k : K) (w : ListWrite V) (hw : w.Distinct) :
    (t.write k w hw).nextPosition k ≤ t.nextPosition k + w.size := by
  cases w with
  | set vs =>
    refine nextPosition_le fun r hr => ?_
    obtain ⟨hr, hparent⟩ := List.mem_filter.mp hr
    obtain hr | hr := List.mem_append.mp (show r ∈ (t.erase k).rows ++ listRows k vs from hr)
    · exact absurd (by simpa using hparent) (mem_erase.mp hr).2
    · obtain ⟨x, hx, rfl⟩ := List.mem_map.mp hr
      have hlt := List.snd_lt_of_mem_zipIdx hx
      simp only [ListWrite.size] at hlt ⊢
      omega
  | add v =>
    refine nextPosition_le fun r hr => ?_
    obtain ⟨hr, hparent⟩ := List.mem_filter.mp hr
    have hold (h : r ∈ t.rows) : r.position < t.nextPosition k + 1 :=
      Nat.lt_succ_of_lt (lt_nextPosition h (by simpa using hparent))
    change r ∈ (t.add k v).rows at hr
    unfold add at hr
    split_ifs at hr
    · exact hold hr
    · obtain hr | hr := List.mem_append.mp hr
      · exact hold hr
      · rw [List.mem_singleton] at hr
        rw [hr]
        exact Nat.lt_succ_self _
  | pull v =>
    refine nextPosition_le fun r hr => ?_
    obtain ⟨hr, hparent⟩ := List.mem_filter.mp hr
    exact lt_nextPosition (List.mem_filter.mp hr).1 (by simpa using hparent)

end ChildTable

end Storage
