import Mathlib.Data.List.Nodup
import Mathlib.Data.List.Pairwise
import Mathlib.Data.Option.Basic

/-!
# Tables of records under a key

A `Table` is a list of records, in the order they were inserted, no two of which share a key.
A `KeyedStore` is anything that behaves as a map from keys to records: what is read after an
insert, an update or an erasure is said once, as laws, so that two representations of one store
can be used for each other.

* `filter_eq_first`: a test that no two members of a list meet.
* `Table.get_insert`, `Table.get_modify`, `Table.get_eraseWhere`: reading after each write.
* `Table.insertInOrder`: records inserted one after another, up to the first refused.
* **`KeyedStore`**: the laws; `Table.keyedStore`: a table satisfies them.
-/

namespace Storage

/-! ## What one member meets -/

/-- A filter that no two members meet finds the first that does. -/
theorem filter_eq_first {A : Type} {p : A → Bool} {l : List A}
    (h : l.Pairwise fun a b => ¬ (p a = true ∧ p b = true)) : l.filter p = (l.find? p).toList := by
  induction l with
  | nil => rfl
  | cons a l ih =>
    obtain ⟨ha, hl⟩ := List.pairwise_cons.mp h
    cases hp : p a with
    | true =>
      rw [List.filter_cons_of_pos hp, List.find?_cons_of_pos hp,
        List.filter_eq_nil_iff.mpr fun b hb hpb => ha b hb ⟨hp, hpb⟩]
      rfl
    | false =>
      rw [List.filter_cons_of_neg (by simp [hp]), List.find?_cons_of_neg (by simp [hp]), ih hl]

theorem eq_of_apart {A : Type} {p : A → Bool} {l : List A}
    (h : l.Pairwise fun a b => ¬ (p a = true ∧ p b = true)) {a b : A} (ha : a ∈ l) (hb : b ∈ l)
    (hpa : p a = true) (hpb : p b = true) : a = b := by
  have hfirst {c : A} (hc : c ∈ l) (hpc : p c = true) : l.find? p = some c := by
    have hmem := List.mem_filter.mpr ⟨hc, hpc⟩
    rw [filter_eq_first h] at hmem
    exact Option.mem_toList.mp hmem
  exact Option.some.inj ((hfirst ha hpa).symm.trans (hfirst hb hpb))

/-! ## Tables -/

/-- **A table**: records in insertion order, with distinct keys. -/
structure Table (R : Type) {K : Type} (key : R → K) where
  rows : List R
  nodup : (rows.map key).Nodup

namespace Table

variable {R K : Type} {key : R → K}

/-- The table of no records. -/
def empty : Table R key := ⟨[], List.nodup_nil⟩

variable [DecidableEq K]

/-- The record of a key. -/
def get (t : Table R key) (k : K) : Option R := t.rows.find? fun r => key r = k

theorem get_eq_some {t : Table R key} {k : K} {r : R} :
    t.get k = some r ↔ r ∈ t.rows ∧ key r = k := by
  constructor
  · intro h
    exact ⟨List.mem_of_find?_eq_some h, by simpa using List.find?_some h⟩
  · rintro ⟨hr, rfl⟩
    cases hg : t.rows.find? fun q => key q = key r with
    | none => simpa using List.find?_eq_none.mp hg r hr
    | some q =>
      have hq : key q = key r := by simpa using List.find?_some hg
      have := List.inj_on_of_nodup_map t.nodup (List.mem_of_find?_eq_some hg) hr hq
      rw [get, hg, this]

theorem get_eq_none {t : Table R key} {k : K} : t.get k = none ↔ ∀ r ∈ t.rows, key r ≠ k := by
  simp [get]

theorem key_of_get {t : Table R key} {k : K} {r : R} (h : t.get k = some r) : key r = k :=
  (get_eq_some.mp h).2

theorem mem_rows_iff {t : Table R key} {r : R} : r ∈ t.rows ↔ t.get (key r) = some r := by
  rw [get_eq_some, and_iff_left rfl]

omit [DecidableEq K] in
@[simp] theorem rows_empty : (empty : Table R key).rows = [] := rfl

@[simp] theorem get_empty (k : K) : (empty : Table R key).get k = none := rfl

/-- Add a record whose key is free, at the end. -/
def insert (t : Table R key) (r : R) (h : t.get (key r) = none) : Table R key where
  rows := t.rows ++ [r]
  nodup := by
    rw [List.map_append, List.nodup_append]
    refine ⟨t.nodup, List.nodup_singleton _, ?_⟩
    simpa using get_eq_none.mp h

theorem get_insert (t : Table R key) (r : R) (h : t.get (key r) = none) (k : K) :
    (t.insert r h).get k = if k = key r then some r else t.get k := by
  simp only [get, insert, List.find?_append, List.find?_singleton, eq_comm (a := k)]
  by_cases hk : key r = k
  · subst hk
    have hn : t.rows.find? (fun q => decide (key q = key r)) = none := h
    simp [hn]
  · simp [hk]

theorem rows_insert (t : Table R key) (r : R) (h : t.get (key r) = none) :
    (t.insert r h).rows = t.rows ++ [r] := rfl

/-- Change the record of a key, leaving its key. -/
def modify (t : Table R key) (k : K) (f : R → R) (hf : ∀ r, key (f r) = key r) : Table R key where
  rows := t.rows.map fun r => if key r = k then f r else r
  nodup := by
    have : (fun r => key (if key r = k then f r else r)) = key := by
      funext r
      split_ifs <;> simp [hf]
    rw [List.map_map]
    simpa only [Function.comp_def, this] using t.nodup

theorem get_modify (t : Table R key) (k : K) (f : R → R) (hf : ∀ r, key (f r) = key r) (k' : K) :
    (t.modify k f hf).get k' = if k' = k then (t.get k).map f else t.get k' := by
  have hkey : ∀ r, key (if key r = k then f r else r) = key r := by
    intro r; split_ifs <;> simp [hf]
  simp only [get, modify, List.find?_map, Function.comp_def, hkey]
  by_cases hk : k' = k
  · subst hk
    rw [if_pos rfl]
    refine Option.map_congr fun r hr => ?_
    rw [if_pos (by simpa using List.find?_some hr)]
  · rw [if_neg hk]
    cases hr : t.rows.find? fun r => decide (key r = k') with
    | none => rfl
    | some r =>
      have : key r = k' := by simpa using List.find?_some hr
      simp [this, hk]

/-- Change every record, leaving its key. -/
def mapRows (t : Table R key) (f : R → R) (hf : ∀ r, key (f r) = key r) : Table R key where
  rows := t.rows.map f
  nodup := by
    rw [List.map_map, show key ∘ f = key from funext hf]
    exact t.nodup

theorem get_mapRows (t : Table R key) (f : R → R) (hf : ∀ r, key (f r) = key r) (k : K) :
    (t.mapRows f hf).get k = (t.get k).map f := by
  simp only [get, mapRows, List.find?_map, Function.comp_def, hf]

/-- Change the record of a key, or insert one if there is none. -/
def upsert (t : Table R key) (k : K) (f : R → R) (hf : ∀ r, key (f r) = key r) (new : R)
    (hnew : key new = k) : Table R key :=
  if h : t.get k = none then t.insert new (hnew ▸ h) else t.modify k f hf

theorem get_upsert (t : Table R key) (k : K) (f : R → R) (hf : ∀ r, key (f r) = key r) (new : R)
    (hnew : key new = k) (k' : K) : (t.upsert k f hf new hnew).get k' =
      if k' = k then some ((t.get k).elim new f) else t.get k' := by
  unfold upsert
  split_ifs with h hk hk
  · rw [get_insert, if_pos (hk.trans hnew.symm), h, Option.elim_none]
  · rw [get_insert, if_neg (hnew ▸ hk)]
  · rw [get_modify, if_pos hk]
    rcases Option.ne_none_iff_exists'.mp h with ⟨r, hr⟩
    rw [hr, Option.map_some, Option.elim_some]
  · rw [get_modify, if_neg hk]

/-- Take away every record that satisfies `p`. -/
def eraseWhere (t : Table R key) (p : R → Bool) : Table R key where
  rows := t.rows.filter fun r => !p r
  nodup := t.nodup.sublist (List.filter_sublist.map key)

omit [DecidableEq K] in
theorem mem_eraseWhere {t : Table R key} {p : R → Bool} {r : R} :
    r ∈ (t.eraseWhere p).rows ↔ r ∈ t.rows ∧ p r = false := by
  simp [eraseWhere]

theorem get_eraseWhere (t : Table R key) (p : R → Bool) (k : K) :
    (t.eraseWhere p).get k = (t.get k).filter fun r => !p r := by
  ext r
  simp only [get_eq_some, mem_eraseWhere, Option.filter_eq_some_iff, Bool.not_eq_true']
  exact ⟨fun ⟨⟨h1, h2⟩, h3⟩ => ⟨⟨h1, h3⟩, h2⟩, fun ⟨⟨h1, h3⟩, h2⟩ => ⟨⟨h1, h2⟩, h3⟩⟩

/-- Take away the record of a key. -/
def erase (t : Table R key) (k : K) : Table R key := t.eraseWhere fun r => key r = k

theorem get_erase (t : Table R key) (k k' : K) :
    (t.erase k).get k' = if k' = k then none else t.get k' := by
  rw [erase, get_eraseWhere]
  cases hr : t.get k' with
  | none => simp
  | some r => by_cases hk : k' = k <;> simp [key_of_get hr, hk]

end Table

/-! ## What any store of records under a key satisfies -/

/-- **A keyed store** reads as a map from keys to records. `apply` is what an update does to a
record, and `Clash` tells two records that may not be stored together; a store may also refuse a
record by itself. -/
class KeyedStore (S : Type) {R K U : outParam Type} (key : outParam (R → K))
    (apply : outParam (U → R → R)) (Clash : outParam (R → R → Prop)) where
  Storable : R → Prop
  get : S → K → Option R
  insert : S → R → Option S
  update : S → K → U → Option S
  erase : S → K → S
  key_of_get : ∀ {s k r}, get s k = some r → key r = k
  storable_of_get : ∀ {s k r}, get s k = some r → Storable r
  insert_eq_none : ∀ {s r}, insert s r = none ↔
    ¬ Storable r ∨ ∃ k q, get s k = some q ∧ (k = key r ∨ Clash q r)
  get_insert_self : ∀ {s r s'}, insert s r = some s' → get s' (key r) = some r
  get_insert_of_ne : ∀ {s r s' k}, insert s r = some s' → k ≠ key r → get s' k = get s k
  update_eq_none : ∀ {s k u}, update s k u = none ↔ ∃ r, get s k = some r ∧
    (¬ Storable (apply u r) ∨ ∃ k' q, k' ≠ k ∧ get s k' = some q ∧ Clash q (apply u r))
  get_update_self : ∀ {s k u s'}, update s k u = some s' → get s' k = (get s k).map (apply u)
  get_update_of_ne : ∀ {s k u s' k'}, update s k u = some s' → k' ≠ k → get s' k' = get s k'
  get_erase_self : ∀ {s k}, get (erase s k) k = none
  get_erase_of_ne : ∀ {s k k'}, k' ≠ k → get (erase s k) k' = get s k'

namespace KeyedStore

variable {S R K U : Type} {key : R → K} {apply : U → R → R} {Clash : R → R → Prop}
  [KeyedStore S key apply Clash] [DecidableEq K] {s s' : S}

theorem get_insert {r : R} (h : insert s r = some s') (k : K) :
    get s' k = if k = key r then some r else get s k := by
  split_ifs with hk
  · rw [hk, get_insert_self h]
  · exact get_insert_of_ne h hk

theorem get_update {k : K} {u : U} (h : update s k u = some s') (k' : K) :
    get s' k' = if k' = k then (get s k).map (apply u) else get s k' := by
  split_ifs with hk
  · rw [hk, get_update_self h]
  · exact get_update_of_ne h hk

theorem get_erase (s : S) (k k' : K) :
    get (erase s k) k' = if k' = k then none else get s k' := by
  split_ifs with hk
  · rw [hk, get_erase_self]
  · exact get_erase_of_ne hk

end KeyedStore

namespace Table

variable {R K U : Type} {key : R → K} {apply : U → R → R} {Clash : R → R → Prop} [DecidableEq K]
  [DecidableRel Clash]

/-- Insert a record, unless its key is taken or it clashes with a record of the table. -/
def insert? (Clash : R → R → Prop) [DecidableRel Clash] (t : Table R key) (r : R) :
    Option (Table R key) :=
  if h : t.get (key r) = none then
    if ∃ q ∈ t.rows, Clash q r then none else some (t.insert r h)
  else none

theorem get_insert? {t t' : Table R key} {r : R} (h : t.insert? Clash r = some t') (k : K) :
    t'.get k = if k = key r then some r else t.get k := by
  unfold insert? at h
  split_ifs at h with hr hc
  cases h
  exact get_insert t r hr k

theorem get_of_insert? {t t' : Table R key} {r : R} (h : t.insert? Clash r = some t') :
    t.get (key r) = none := by
  unfold insert? at h
  split_ifs at h with hr
  exact hr

theorem get_ne_none_of_insert? {t : Table R key} {r : R}
    (h : t.insert? (fun _ _ => False) r = none) : t.get (key r) ≠ none := by
  intro hfree
  unfold insert? at h
  rw [dif_pos hfree] at h
  simp at h

theorem rows_insert? {t t' : Table R key} {r : R} (h : t.insert? Clash r = some t') :
    t'.rows = t.rows ++ [r] := by
  unfold insert? at h
  split_ifs at h with hr
  cases h
  rfl

/-! ### Inserting one record after another -/

/-- Insert records in order up to the first one refused, and whether none was. -/
def insertInOrder (Clash : R → R → Prop) [DecidableRel Clash] (t : Table R key) :
    List R → Table R key × Bool
  | [] => (t, true)
  | r :: rs => match t.insert? Clash r with
    | some t' => insertInOrder Clash t' rs
    | none => (t, false)

variable (Clash) in
theorem insertInOrder_prefix (t : Table R key) (rs : List R) :
    ∃ n, insertInOrder Clash t (rs.take n) = ((insertInOrder Clash t rs).1, true) ∧
      (insertInOrder Clash t rs).1.rows = t.rows ++ rs.take n := by
  induction rs generalizing t with
  | nil => exact ⟨0, rfl, by simp [insertInOrder]⟩
  | cons r rs ih =>
    cases hr : t.insert? Clash r with
    | none => exact ⟨0, by simp [insertInOrder, hr], by simp [insertInOrder, hr]⟩
    | some t' =>
      rcases ih t' with ⟨n, hn, hrows⟩
      refine ⟨n + 1, ?_, ?_⟩
      · simpa only [List.take_succ_cons, insertInOrder, hr] using hn
      · simp only [List.take_succ_cons, insertInOrder, hr]
        rw [hrows, rows_insert? hr, List.append_assoc, List.singleton_append]

theorem mem_insertInOrder {t : Table R key} {rs : List R} {r : R}
    (hr : r ∈ (insertInOrder Clash t rs).1.rows) : r ∈ t.rows ∨ r ∈ rs := by
  obtain ⟨n, -, hrows⟩ := insertInOrder_prefix Clash t rs
  rw [hrows] at hr
  exact (List.mem_append.mp hr).imp_right List.mem_of_mem_take

theorem rows_insertInOrder {t t' : Table R key} {rs : List R}
    (hrs : insertInOrder Clash t rs = (t', true)) : t'.rows = t.rows ++ rs := by
  induction rs generalizing t with
  | nil =>
    cases hrs
    simp
  | cons r rs ih =>
    cases hr : t.insert? Clash r with
    | none =>
      simp only [insertInOrder, hr, Prod.mk.injEq, Bool.false_eq_true, and_false] at hrs
    | some t₁ =>
      simp only [insertInOrder, hr] at hrs
      rw [ih hrs, rows_insert? hr, List.append_assoc, List.singleton_append]

theorem insertInOrder_append {t t' : Table R key} {rs : List R}
    (hrs : insertInOrder Clash t rs = (t', true)) (later : List R) :
    insertInOrder Clash t (rs ++ later) = insertInOrder Clash t' later := by
  induction rs generalizing t with
  | nil =>
    cases hrs
    rfl
  | cons r rs ih =>
    cases hr : t.insert? Clash r with
    | none =>
      simp only [insertInOrder, hr, Prod.mk.injEq, Bool.false_eq_true, and_false] at hrs
    | some t₁ =>
      simp only [insertInOrder, hr] at hrs
      simp only [List.cons_append, insertInOrder, hr]
      exact ih hrs

theorem insertInOrder_clash {t : Table R key} {rs : List R} {q r : R} (hq : q ∈ t.rows)
    (hr : r ∈ rs) (hclash : Clash q r) : (insertInOrder Clash t rs).2 = false := by
  induction rs generalizing t with
  | nil => exact absurd hr List.not_mem_nil
  | cons s rs ih =>
    cases hs : t.insert? Clash s with
    | none => simp only [insertInOrder, hs]
    | some t' =>
      simp only [insertInOrder, hs]
      rcases List.mem_cons.mp hr with rfl | hrest
      · unfold insert? at hs
        split_ifs at hs with hfree hnone
        exact absurd ⟨q, hq, hclash⟩ hnone
      · refine ih ?_ hrest
        rw [rows_insert? hs]
        exact List.mem_append_left _ hq

theorem insertInOrder_apart {t : Table R key} {rs : List R}
    (hold : ∀ r ∈ rs, ∀ q ∈ t.rows, key q ≠ key r ∧ ¬ Clash q r)
    (hnew : rs.Pairwise fun q r => key q ≠ key r ∧ ¬ Clash q r) :
    (insertInOrder Clash t rs).2 = true := by
  induction rs generalizing t with
  | nil => rfl
  | cons r rs ih =>
    obtain ⟨hfirst, hrest⟩ := List.pairwise_cons.mp hnew
    have hfree : t.get (key r) = none :=
      get_eq_none.mpr fun q hq => (hold r List.mem_cons_self q hq).1
    have hclash : ¬ ∃ q ∈ t.rows, Clash q r := by
      rintro ⟨q, hq, hclash⟩
      exact (hold r List.mem_cons_self q hq).2 hclash
    have hinsert : t.insert? Clash r = some (t.insert r hfree) := by
      unfold insert?
      rw [dif_pos hfree, if_neg hclash]
    simp only [insertInOrder, hinsert]
    refine ih (fun s hs q hq => ?_) hrest
    rw [rows_insert? hinsert, List.mem_append, List.mem_singleton] at hq
    rcases hq with hq | rfl
    · exact hold s (List.mem_cons_of_mem _ hs) q hq
    · exact hfirst s hs

/-- Update the record of a key, unless it would clash with another record of the table. -/
def update? (apply : U → R → R) (Clash : R → R → Prop) [DecidableRel Clash]
    (hkey : ∀ u r, key (apply u r) = key r) (t : Table R key) (k : K) (u : U) :
    Option (Table R key) :=
  if ∃ r ∈ t.rows, key r = k ∧ ∃ q ∈ t.rows, key q ≠ k ∧ Clash q (apply u r) then none
  else some (t.modify k (apply u) (hkey u))

theorem get_update? {hkey : ∀ u r, key (apply u r) = key r} {t t' : Table R key} {k : K} {u : U}
    (h : t.update? apply Clash hkey k u = some t') (k' : K) :
    t'.get k' = if k' = k then (t.get k).map (apply u) else t.get k' := by
  unfold update? at h
  split_ifs at h
  cases h
  exact get_modify t k _ _ k'

/-- **A table is a keyed store**, which refuses no record by itself. -/
@[reducible] def keyedStore (hkey : ∀ u r, key (apply u r) = key r) :
    KeyedStore (Table R key) key apply Clash where
  Storable _ := True
  get := get
  insert := insert? Clash
  update := update? apply Clash hkey
  erase := erase
  key_of_get := key_of_get
  storable_of_get _ := trivial
  insert_eq_none {t r} := by
    simp only [not_true_eq_false, false_or, get_eq_some]
    unfold insert?
    split_ifs with h hc
    · simp only [true_iff]
      obtain ⟨q, hq, hqr⟩ := hc
      exact ⟨key q, q, ⟨hq, rfl⟩, .inr hqr⟩
    · simp only [false_iff]
      rintro ⟨k, q, ⟨hq, rfl⟩, he | hqr⟩
      · exact get_eq_none.mp h q hq he
      · exact hc ⟨q, hq, hqr⟩
    · simp only [true_iff]
      obtain ⟨q, hq⟩ := Option.ne_none_iff_exists'.mp h
      exact ⟨key r, q, get_eq_some.mp hq, .inl rfl⟩
  get_insert_self {t r t'} h := (get_insert? h _).trans (if_pos rfl)
  get_insert_of_ne {t r t' k} h hk := (get_insert? h k).trans (if_neg hk)
  update_eq_none {t k u} := by
    simp only [not_true_eq_false, false_or, get_eq_some]
    unfold update?
    split_ifs with h
    · simp only [true_iff]
      obtain ⟨r, hr, rfl, q, hq, hne, hc⟩ := h
      exact ⟨r, ⟨hr, rfl⟩, key q, q, hne, ⟨hq, rfl⟩, hc⟩
    · simp only [false_iff]
      rintro ⟨r, ⟨hr, hk⟩, k', q, hne, ⟨hq, rfl⟩, hc⟩
      exact h ⟨r, hr, hk, q, hq, hne, hc⟩
  get_update_self {t k u t'} h := (get_update? h k).trans (if_pos rfl)
  get_update_of_ne {t k u t' k'} h hk := (get_update? h k').trans (if_neg hk)
  get_erase_self {t k} := (get_erase t k k).trans (if_pos rfl)
  get_erase_of_ne {t k k'} hk := (get_erase t k k').trans (if_neg hk)

end Table

end Storage
