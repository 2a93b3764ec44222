import Mss.Database
import Mss.Lib.ChildTable

/-!
# Projects in SQL

A project is a row of the projects' table and, for each member, a row of its child table. An
update is translated into column values and child-table writes, which one transaction runs.

* `ProjectTables`: the two tables, with their unique columns and their foreign key.
* `Changes`, `translateUpdate`: an update as SQL runs it.
* `writeChanges`: the columns are written, then the child rows.
* **`ProjectTables.get_writeChanges`**: what is read afterwards is the record the update describes.
* The instance of `ProjectStore`: what the services do on documents they do on these tables.
-/

namespace Mss

open Storage

/-! ## The tables -/

/-- A row of the projects' table; its balance may be null, which means the default of zero. -/
structure ProjectRow where
  id : Id
  name : String
  qpuSeconds : Option ℚ
  description : String
  isPulseAllowed : Bool
  isActive : Bool
  adminId : Id
  isPersonal : Bool
  createdAt : String
  updatedAt : String
  deriving DecidableEq, Repr

/-- The row of a project. -/
def ProjectRow.ofProject (p : Project) : ProjectRow :=
  { p with qpuSeconds := some p.qpuSeconds }

@[simp] theorem ProjectRow.ofProject_id (p : Project) : (ProjectRow.ofProject p).id = p.id := rfl

@[simp] theorem ProjectRow.ofProject_name (p : Project) :
    (ProjectRow.ofProject p).name = p.name := rfl

/-- The project a row and its members' rows give. -/
def ProjectRow.toProject (row : ProjectRow) (userIds : List Id) : Project :=
  { row with qpuSeconds := row.qpuSeconds.getD 0, userIds }

/-- **The projects' tables**: names are unique, and members' rows are of stored projects. -/
structure ProjectTables where
  table : Table ProjectRow ProjectRow.id
  members : ChildTable Id Id
  uniqueName : ∀ r ∈ table.rows, ∀ s ∈ table.rows, r.name = s.name → r.id = s.id
  foreignKey : ∀ id, table.get id = none → members.elements id = []

namespace ProjectTables

/-- The tables of no projects. -/
def empty : ProjectTables where
  table := .empty
  members := .empty
  uniqueName _ hr := absurd hr List.not_mem_nil
  foreignKey _ _ := by simp [ChildTable.elements_eq, ChildTable.rowsOf, ChildTable.empty]

/-- The project of an id. -/
def get (t : ProjectTables) (id : Id) : Option Project :=
  (t.table.get id).map fun row => row.toProject (t.members.elements id)

theorem get_eq_some {t : ProjectTables} {id : Id} {p : Project} :
    t.get id = some p ↔ ∃ row, t.table.get id = some row ∧
      row.toProject (t.members.elements id) = p := by
  simp [get]

theorem get_eq_none {t : ProjectTables} {id : Id} : t.get id = none ↔ t.table.get id = none := by
  simp [get]

theorem parent_ne {t : ProjectTables} {id : Id} (h : t.table.get id = none) :
    ∀ r ∈ t.members.rows, r.parent ≠ id := by
  intro r hr hid
  have hmem : r.value ∈ t.members.elements id := ChildTable.mem_elements.mpr ⟨r, hr, hid, rfl⟩
  rw [t.foreignKey id h] at hmem
  cases hmem

/-! ## Inserting and deleting -/

/-- Insert a project's row, then its members' rows: its id and its name must be free, and no
member may be listed twice. -/
def insert (t : ProjectTables) (p : Project) : Option ProjectTables :=
  let row := ProjectRow.ofProject p
  if h : t.table.get row.id = none ∧ (∀ r ∈ t.table.rows, r.name ≠ row.name) ∧ p.userIds.Nodup then
    some
      { table := t.table.insert row h.1
        members := t.members.insertAll row.id p.userIds (parent_ne h.1) h.2.2
        uniqueName := by
          intro r hr s hs hrs
          rw [Table.rows_insert, List.mem_append, List.mem_singleton] at hr hs
          obtain hr | rfl := hr <;> obtain hs | rfl := hs
          · exact t.uniqueName r hr s hs hrs
          · exact absurd hrs (h.2.1 r hr)
          · exact absurd hrs.symm (h.2.1 s hs)
          · rfl
        foreignKey := by
          intro id hid
          rw [Table.get_insert] at hid
          rw [ChildTable.elements_insertAll]
          split_ifs at hid with hk
          rw [if_neg hk]
          exact t.foreignKey id hid }
  else none

/-- Delete a project's row, and with it its members' rows. -/
def erase (t : ProjectTables) (id : Id) : ProjectTables where
  table := t.table.erase id
  members := t.members.erase id
  uniqueName r hr s hs :=
    t.uniqueName r (Table.mem_eraseWhere.mp hr).1 s (Table.mem_eraseWhere.mp hs).1
  foreignKey id' h := by
    rw [Table.get_erase] at h
    rw [ChildTable.elements_erase]
    split_ifs at h ⊢
    · rfl
    · exact t.foreignKey id' h

end ProjectTables

/-! ## Updating -/

/-- A value a column is set to: a value, or `coalesce(column, 0)` plus one. -/
inductive ColumnValue
  | value (v : ℚ)
  | increased (v : ℚ)

/-- What the column holds afterwards. -/
def ColumnValue.write : ColumnValue → Option ℚ → Option ℚ
  | .value v, _ => some v
  | .increased v, x => some (x.getD 0 + v)

/-- **An update as SQL runs it**: column values, then the child-table writes. -/
structure Changes where
  name : Option String := none
  qpuSeconds : Option ColumnValue := none
  description : Option String := none
  isPulseAllowed : Option Bool := none
  isActive : Option Bool := none
  adminId : Option Id := none
  updatedAt : Option String := none
  listReplacement : Option (List Id) := none
  listAdditions : List Id := []
  listRemovals : List Id := []

/-- Translate an update into column values and child-table writes. -/
def translateUpdate (u : ProjectChanges) : Changes where
  name := u.name
  qpuSeconds := u.qpuSeconds.map fun change => match change with
    | .set v => .value v
    | .inc v => .increased v
  description := u.description
  isPulseAllowed := u.isPulseAllowed
  isActive := u.isActive
  adminId := u.adminId
  updatedAt := u.updatedAt
  listReplacement := match u.userIds with | some (.set l) => some l | _ => none
  listAdditions := match u.userIds with | some (.addToSet x) => [x] | _ => []
  listRemovals := match u.userIds with | some (.pull x) => [x] | _ => []

/-- The row after the columns are written. -/
def ProjectRow.write (c : Changes) (row : ProjectRow) : ProjectRow :=
  { row with
    name := c.name.getD row.name
    qpuSeconds := (c.qpuSeconds.map (·.write row.qpuSeconds)).getD row.qpuSeconds
    description := c.description.getD row.description
    isPulseAllowed := c.isPulseAllowed.getD row.isPulseAllowed
    isActive := c.isActive.getD row.isActive
    adminId := c.adminId.getD row.adminId
    updatedAt := c.updatedAt.getD row.updatedAt }

/-- Replace a record's list, if it is set; one that lists an element twice is refused. -/
def writeReplacement (id : Id) (members : ChildTable Id Id) :
    Option (List Id) → Option (ChildTable Id Id)
  | none => some members
  | some l => if hl : l.Nodup then some (members.replace id l hl) else none

/-- Write a record's child rows: the replacement, the additions, the removals. -/
def writeMembers (id : Id) (c : Changes) (members : ChildTable Id Id) :
    Option (ChildTable Id Id) :=
  (writeReplacement id members c.listReplacement).map fun members =>
    c.listRemovals.foldl (·.remove id ·) (c.listAdditions.foldl (·.add id ·) members)

theorem elements_writeMembers {u : ProjectChanges} {id : Id} {members members' : ChildTable Id Id}
    (h : writeMembers id (translateUpdate u) members = some members') (id' : Id) :
    members'.elements id' = if id' = id then
      (u.userIds.map (·.apply (members.elements id))).getD (members.elements id)
      else members.elements id' := by
  simp only [writeMembers, translateUpdate, Option.map_eq_some_iff] at h
  obtain ⟨m, hm, rfl⟩ := h
  cases hu : u.userIds with
  | none =>
    simp only [hu, writeReplacement, Option.some.injEq] at hm
    subst hm
    split_ifs with hid
    · rw [hid]; rfl
    · rfl
  | some change =>
    cases change with
    | set l =>
      simp only [hu, writeReplacement] at hm
      split_ifs at hm with hl
      cases hm
      exact ChildTable.elements_replace members id l hl id'
    | addToSet x =>
      simp only [hu, writeReplacement, Option.some.injEq] at hm
      subst hm
      exact ChildTable.elements_add members id x id'
    | pull x =>
      simp only [hu, writeReplacement, Option.some.injEq] at hm
      subst hm
      exact ChildTable.elements_remove members id x id'

theorem writeMembers_eq_none {u : ProjectChanges} (id : Id) (members : ChildTable Id Id) :
    writeMembers id (translateUpdate u) members = none ↔
      ∃ l, u.userIds = some (.set l) ∧ ¬ l.Nodup := by
  simp only [writeMembers, Option.map_eq_none_iff, translateUpdate]
  cases hu : u.userIds with
  | none => simp [writeReplacement]
  | some change => cases change <;> simp [writeReplacement]

namespace ProjectTables

theorem write_id (c : Changes) (row : ProjectRow) : (row.write c).id = row.id := rfl

/-- **Write the changes to a stored project's row and to its child rows**, unless another row has
the name written or the child rows are refused. -/
def writeChanges (t : ProjectTables) (row : ProjectRow) (hrow : t.table.get row.id = some row)
    (u : ProjectChanges) : Option ProjectTables :=
  if hname : ∀ r ∈ t.table.rows, r.name = (row.write (translateUpdate u)).name → r.id = row.id then
    match hm : writeMembers row.id (translateUpdate u) t.members with
    | none => none
    | some members => some
      { table := t.table.modify row.id (·.write (translateUpdate u)) (write_id _)
        members
        uniqueName := by
          have hmem : ∀ r ∈ (t.table.modify row.id (·.write (translateUpdate u)) (write_id _)).rows,
              (r = row.write (translateUpdate u)) ∨ (r ∈ t.table.rows ∧ r.id ≠ row.id) := by
            intro r hr
            rw [Table.mem_rows_iff, Table.get_modify] at hr
            split_ifs at hr with hid
            · rw [hrow] at hr
              exact .inl (Option.some.inj hr).symm
            · exact .inr ⟨Table.mem_rows_iff.mpr hr, hid⟩
          intro r hr s hs hrs
          obtain rfl | ⟨hr, hrid⟩ := hmem r hr <;> obtain rfl | ⟨hs, hsid⟩ := hmem s hs
          · rfl
          · exact (hname s hs hrs.symm).symm
          · exact hname r hr hrs
          · exact t.uniqueName r hr s hs hrs
        foreignKey := by
          intro id hid
          rw [Table.get_modify] at hid
          rw [elements_writeMembers hm]
          split_ifs at hid with hk
          · rw [hrow] at hid
            cases hid
          · rw [if_neg hk]
            exact t.foreignKey id hid }
  else none

/-- Update the project of an id; one that is not stored is left alone. -/
def update (t : ProjectTables) (id : Id) (u : ProjectChanges) : Option ProjectTables :=
  match hrow : t.table.get id with
  | none => some t
  | some row =>
    t.writeChanges row (by rw [Table.key_of_get hrow]; exact hrow) u

/-! ## Reading after a write -/

theorem get_insert {t t' : ProjectTables} {p : Project} (h : t.insert p = some t') (id : Id) :
    t'.get id = if id = p.id then some p else t.get id := by
  simp only [insert] at h
  split_ifs at h with hfree
  cases h
  simp only [get, Table.get_insert, ChildTable.elements_insertAll]
  by_cases hid : id = (ProjectRow.ofProject p).id
  · rw [if_pos hid, if_pos hid, if_pos (show id = p.id from hid)]; rfl
  · rw [if_neg hid, if_neg hid, if_neg (show id ≠ p.id from hid)]

theorem get_erase (t : ProjectTables) (id id' : Id) :
    (t.erase id).get id' = if id' = id then none else t.get id' := by
  simp only [get, erase, Table.get_erase, ChildTable.elements_erase]
  split_ifs <;> rfl

theorem toProject_write (u : ProjectChanges) (row : ProjectRow) (userIds : List Id) :
    (row.write (translateUpdate u)).toProject
      ((u.userIds.map (·.apply userIds)).getD userIds) = (row.toProject userIds).apply u := by
  simp only [ProjectRow.toProject, ProjectRow.write, translateUpdate, Project.apply,
    Project.mk.injEq, true_and, and_true]
  match u.qpuSeconds with
  | none => simp
  | some (.set v) => simp [ColumnValue.write, NumberChange.apply]
  | some (.inc v) => simp [ColumnValue.write, NumberChange.apply]

/-- **What is read after an update is the record the update describes**, and no other record
changes. -/
theorem get_writeChanges {t t' : ProjectTables} {row : ProjectRow}
    {hrow : t.table.get row.id = some row} {u : ProjectChanges}
    (h : t.writeChanges row hrow u = some t') (id : Id) :
    t'.get id = if id = row.id then (t.get row.id).map (·.apply u) else t.get id := by
  unfold writeChanges at h
  split_ifs at h with hname
  split at h
  · cases h
  · next members hm =>
    cases h
    simp only [get, Table.get_modify, elements_writeMembers hm, hrow]
    split_ifs with hid
    · simp [toProject_write]
    · rfl

theorem get_update {t t' : ProjectTables} {id : Id} {u : ProjectChanges}
    (h : t.update id u = some t') (id' : Id) :
    t'.get id' = if id' = id then (t.get id).map (·.apply u) else t.get id' := by
  unfold update at h
  split at h
  · next hrow =>
    cases h
    split_ifs with hid
    · rw [hid, get_eq_none.mpr hrow]; rfl
    · rfl
  · next row hrow =>
    have hid := Table.key_of_get hrow
    rw [get_writeChanges h, hid]

/-! ## When a write is refused -/

theorem exists_row {t : ProjectTables} {id : Id} {q : Project} (h : t.get id = some q) :
    ∃ row ∈ t.table.rows, row.id = id ∧ row.name = q.name := by
  obtain ⟨row, hrow, rfl⟩ := get_eq_some.mp h
  exact ⟨row, (Table.get_eq_some.mp hrow).1, Table.key_of_get hrow, rfl⟩

theorem exists_project {t : ProjectTables} {row : ProjectRow} (h : row ∈ t.table.rows) :
    ∃ q, t.get row.id = some q ∧ q.name = row.name :=
  ⟨_, get_eq_some.mpr ⟨row, Table.mem_rows_iff.mp h, rfl⟩, rfl⟩

theorem insert_eq_none {t : ProjectTables} {p : Project} : t.insert p = none ↔
    ¬ p.userIds.Nodup ∨ ∃ k q, t.get k = some q ∧ (k = p.id ∨ SharesName q p) := by
  simp only [insert]
  split_ifs with h
  · refine iff_of_false nofun ?_
    rintro (hn | ⟨k, q, hq, rfl | hclash⟩)
    · exact hn h.2.2
    · have hnone : t.get p.id = none := get_eq_none.mpr h.1
      rw [hnone] at hq
      cases hq
    · obtain ⟨row, hrow, _, hname⟩ := exists_row hq
      exact h.2.1 row hrow (hname.trans hclash)
  · refine iff_of_true rfl ?_
    by_contra hno
    rw [not_or, not_not] at hno
    refine h ⟨?_, fun r hr hname => ?_, hno.1⟩
    · rw [← get_eq_none, Option.eq_none_iff_forall_not_mem]
      exact fun q hq => hno.2 ⟨p.id, q, hq, .inl rfl⟩
    · obtain ⟨q, hq, hqr⟩ := exists_project hr
      exact hno.2 ⟨r.id, q, hq, .inr (hqr.trans hname)⟩

theorem nodup_apply {change : ListChange} {l : List Id} (hl : l.Nodup)
    (hset : ∀ l', change = .set l' → l'.Nodup) : (change.apply l).Nodup := by
  cases change with
  | set l' => exact hset l' rfl
  | addToSet x =>
    simp only [ListChange.apply]
    split_ifs with hx
    · exact hl
    · rw [List.nodup_append]
      refine ⟨hl, List.nodup_singleton x, ?_⟩
      rintro y hy z hz rfl
      exact hx (List.mem_singleton.mp hz ▸ hy)
  | pull x => exact hl.filter _

theorem not_nodup_apply {u : ProjectChanges} {p : Project} (hp : p.userIds.Nodup) :
    ¬ (p.apply u).userIds.Nodup ↔ ∃ l, u.userIds = some (.set l) ∧ ¬ l.Nodup := by
  simp only [Project.apply]
  cases u.userIds with
  | none => simpa using hp
  | some change =>
    constructor
    · intro hn
      by_contra hno
      refine hn (nodup_apply hp fun l hl => ?_)
      by_contra hdup
      exact hno ⟨l, by rw [hl], hdup⟩
    · rintro ⟨l, hl, hdup⟩
      cases hl
      exact hdup

theorem writeChanges_eq_none {t : ProjectTables} {row : ProjectRow}
    {hrow : t.table.get row.id = some row} {u : ProjectChanges} :
    t.writeChanges row hrow u = none ↔
      (∃ r ∈ t.table.rows, r.name = (row.write (translateUpdate u)).name ∧ r.id ≠ row.id) ∨
      ∃ l, u.userIds = some (.set l) ∧ ¬ l.Nodup := by
  unfold writeChanges
  split_ifs with hname
  · rw [← writeMembers_eq_none row.id t.members]
    have hno : ¬ ∃ r ∈ t.table.rows,
        r.name = (row.write (translateUpdate u)).name ∧ r.id ≠ row.id := by
      rintro ⟨r, hr, hrn, hid⟩
      exact hid (hname r hr hrn)
    split
    · next hm => simp [hm]
    · next members hm => simp [hm, hno]
  · refine iff_of_true rfl (.inl ?_)
    by_contra hno
    refine hname fun r hr hrn => ?_
    by_contra hid
    exact hno ⟨r, hr, hrn, hid⟩

theorem update_eq_none {t : ProjectTables} {id : Id} {u : ProjectChanges} :
    t.update id u = none ↔ ∃ r, t.get id = some r ∧ (¬ (r.apply u).userIds.Nodup ∨
      ∃ k q, k ≠ id ∧ t.get k = some q ∧ SharesName q (r.apply u)) := by
  unfold update
  split
  · next hrow =>
    refine iff_of_false nofun ?_
    rintro ⟨r, hr, _⟩
    rw [get_eq_none.mpr hrow] at hr
    cases hr
  · next row hrow =>
    have hid : row.id = id := Table.key_of_get hrow
    have hget : t.get id = some (row.toProject (t.members.elements id)) :=
      get_eq_some.mpr ⟨row, hrow, rfl⟩
    have hname : ∀ userIds, (row.write (translateUpdate u)).name =
        ((row.toProject userIds).apply u).name := fun _ => rfl
    rw [writeChanges_eq_none, hget]
    simp only [Option.some.injEq, exists_eq_left']
    rw [not_nodup_apply (t.members.nodup_elements id), or_comm]
    refine or_congr Iff.rfl ⟨?_, ?_⟩
    · rintro ⟨r, hr, hrn, hne⟩
      obtain ⟨q, hq, hqn⟩ := exists_project hr
      exact ⟨r.id, q, hid ▸ hne, hq, hqn.trans (hrn.trans (hname _))⟩
    · rintro ⟨k, q, hk, hq, hclash⟩
      obtain ⟨r, hr, rfl, hrn⟩ := exists_row hq
      exact ⟨r, hr, hrn.trans (hclash.trans (hname _).symm), hid ▸ hk⟩

end ProjectTables

/-- **The projects' tables are a store of projects.** -/
instance : ProjectStore ProjectTables where
  Storable p := p.userIds.Nodup
  get := ProjectTables.get
  insert := ProjectTables.insert
  update := ProjectTables.update
  erase := ProjectTables.erase
  key_of_get h := by
    obtain ⟨row, hrow, rfl⟩ := ProjectTables.get_eq_some.mp h
    exact (Table.get_eq_some.mp hrow).2
  storable_of_get {t id p} h := by
    obtain ⟨row, -, rfl⟩ := ProjectTables.get_eq_some.mp h
    exact t.members.nodup_elements id
  insert_eq_none := ProjectTables.insert_eq_none
  get_insert_self h := (ProjectTables.get_insert h _).trans (if_pos rfl)
  get_insert_of_ne h hk := (ProjectTables.get_insert h _).trans (if_neg hk)
  update_eq_none := ProjectTables.update_eq_none
  get_update_self h := (ProjectTables.get_update h _).trans (if_pos rfl)
  get_update_of_ne h hk := (ProjectTables.get_update h _).trans (if_neg hk)
  get_erase_self := (ProjectTables.get_erase _ _ _).trans (if_pos rfl)
  get_erase_of_ne hk := (ProjectTables.get_erase _ _ _).trans (if_neg hk)
  storable_of_nodup h := h
  storable_congr he h := he ▸ h

end Mss
