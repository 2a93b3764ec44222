import Mss.Lib.Table

/-!
# Rows that are not committed yet

A row is read in its newest version by the one who wrote that, and in its last committed version by
all others. A write that is committed at once has no writer.

* `Version`: the newest version of a row, its writer until it commits, and the version before.
* `Version.committed`, `Version.seenBy`: what all others read of it, and what one reads.
* `Version.update`, `Version.commit`: a write to what is seen, and its commit.
* **`Version.isSome_seenBy_update`, `Version.isSome_seenBy_commit`**: what is seen stays;
  `Version.isSome_committed_commit`: and is there for all once it is committed.
-/

namespace Storage

variable {ι R K : Type}

/-- **A row under concurrent writes**: its newest version, who wrote it and has not committed it,
and the version committed before that, which has the same key. -/
structure Version (ι : Type) {R K : Type} (key : R → K) where
  row : R
  writer : Option ι := none
  before : Option R := none
  key_before : ∀ r ∈ before, key r = key row := by exact fun _ h => by cases h

namespace Version

variable {key : R → K}

/-- The version that is committed, if any is. -/
def committed (v : Version ι key) : Option R :=
  match v.writer with
  | none => some v.row
  | some _ => v.before

theorem committed_of_writer {v : Version ι key} (h : v.writer = none) :
    v.committed = some v.row := by
  rw [committed, h]

theorem key_committed {v : Version ι key} {r : R} (h : v.committed = some r) :
    key r = key v.row := by
  unfold committed at h
  split at h
  · cases h
    rfl
  · exact v.key_before r h

variable [DecidableEq ι]

/-- The version that one reads. -/
def seenBy (i : ι) (v : Version ι key) : Option R :=
  if v.writer = some i then some v.row else v.committed

theorem key_seenBy {i : ι} {v : Version ι key} {r : R} (h : v.seenBy i = some r) :
    key r = key v.row := by
  unfold seenBy at h
  split_ifs at h
  · cases h
    rfl
  · exact key_committed h

/-- Change the version that one reads, under its writer or committed at once. -/
def update (writer : Option ι) (i : ι) (f : R → R) (hf : ∀ r, key (f r) = key r)
    (v : Version ι key) : Version ι key :=
  match h : v.seenBy i with
  | some r =>
    { row := f r
      writer := writer
      before := v.committed
      key_before := fun _ hq => by rw [key_committed hq, hf, key_seenBy h] }
  | none => v

/-- Commit what one wrote. -/
def commit (i : ι) (v : Version ι key) : Version ι key :=
  if v.writer = some i then { row := v.row } else v

variable {i j : ι} {v : Version ι key} {f : R → R} {hf : ∀ r, key (f r) = key r}
  {writer : Option ι}

theorem key_update : key (v.update writer i f hf).row = key v.row := by
  unfold update
  split
  · next r h => exact (hf r).trans (key_seenBy h)
  · rfl

@[simp] theorem commit_row : (v.commit i).row = v.row := by
  unfold commit
  split_ifs <;> rfl

theorem commit_writer : (v.commit i).writer = if v.writer = some i then none else v.writer := by
  unfold commit
  split_ifs with h
  · rfl
  · rfl

theorem isSome_seenBy_iff :
    (v.seenBy i).isSome = true ↔ v.writer = some i ∨ v.committed.isSome = true := by
  unfold seenBy
  split_ifs with h <;> simp [h]

theorem isSome_seenBy (h : v.committed.isSome = true) : (v.seenBy i).isSome = true :=
  isSome_seenBy_iff.mpr (.inr h)

/-- **What is committed stays committed** in a version, whoever writes another. -/
theorem isSome_committed_update (h : v.committed.isSome = true) :
    (v.update writer i f hf).committed.isSome = true := by
  unfold update
  split
  · cases writer with
    | none => rfl
    | some _ => exact h
  · exact h

theorem isSome_committed_of_commit (h : v.committed.isSome = true) :
    (v.commit i).committed.isSome = true := by
  unfold commit
  split_ifs
  · rfl
  · exact h

/-- **What one sees is seen by it after any write**: another cannot write over a version that it
does not see. -/
theorem isSome_seenBy_update (hwriter : ∀ k ∈ writer, k = j)
    (h : (v.seenBy i).isSome = true) : ((v.update writer j f hf).seenBy i).isSome = true := by
  by_cases hc : v.committed.isSome = true
  · exact isSome_seenBy (isSome_committed_update hc)
  · have hi : v.writer = some i := (isSome_seenBy_iff.mp h).resolve_right hc
    unfold update
    split
    · next r hr =>
      by_cases hj : j = i
      · subst hj
        cases writer with
        | none => exact isSome_seenBy rfl
        | some k =>
          have hk : k = j := hwriter k rfl
          exact isSome_seenBy_iff.mpr (.inl (congrArg some hk))
      · rw [seenBy, if_neg (by simpa [hi] using Ne.symm hj)] at hr
        rw [hr] at hc
        exact (hc rfl).elim
    · exact h

theorem isSome_seenBy_commit (h : (v.seenBy i).isSome = true) :
    ((v.commit j).seenBy i).isSome = true := by
  unfold commit
  split_ifs
  · exact isSome_seenBy rfl
  · exact h

/-- **What one sees is there for all once it commits.** -/
theorem isSome_committed_commit (h : (v.seenBy i).isSome = true) :
    (v.commit i).committed.isSome = true := by
  unfold commit
  split_ifs with hi
  · rfl
  · exact (isSome_seenBy_iff.mp h).resolve_left hi

end Version

end Storage
