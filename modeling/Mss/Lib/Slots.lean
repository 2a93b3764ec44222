import Mathlib.Logic.Function.Basic
import Mathlib.Logic.Relation

/-!
# Transactions that write one at a time

Any number of transactions run statement by statement. All write one thing, so the first that locks
or writes it holds it until it commits or rolls back, and a statement of another that would write it
waits until then. Every statement sees what is committed and what its own transaction wrote.

* `Effect`: what a statement comes to; `Sharing`, `Sharing.step`: the store, and one statement.
* `Serial`: one transaction after another, each as it would run alone.
* **`Rules`**: what a transaction knows while it does not hold the store, and while it does;
  **`Rules.inv_of_reach`**: every interleaving is one in the order of the commits.
* `Sharing.exists_step`: a transaction goes on where no other holds the store.
-/

namespace Storage

variable {ι T P A : Type}

/-- **What a statement comes to**: its transaction goes on to another phase, with new tables where it
writes, or rolls back, or commits and returns an answer. -/
inductive Effect (T P A : Type)
  | reads (phase : P)
  | writes (phase : P) (tables : T)
  | rollsBack (phase : P)
  | commits (phase : P) (answer : A)

/-- **A store that transactions share**: what is committed, the transaction that holds it with its
own tables, the phases, and the answers in the order of the commits. -/
structure Sharing (ι T P A : Type) where
  committed : T
  holder : Option (ι × T) := none
  phase : ι → P
  log : List (ι × A) := []

/-- One transaction after another. -/
inductive Serial (Does : ι → T → A → T → Prop) (s : T) : List (ι × A) → T → Prop
  | nil : Serial Does s [] s
  | snoc {log : List (ι × A)} {s' s'' : T} {i : ι} {a : A} (before : Serial Does s log s')
      (does : Does i s' a s'') : Serial Does s (log ++ [(i, a)]) s''

theorem Serial.invariant {Does : ι → T → A → T → Prop} {I : T → Prop} {s s' : T}
    {log : List (ι × A)} (h : Serial Does s log s') (hs : I s)
    (hdoes : ∀ i s a s', Does i s a s' → I s → I s') : I s' := by
  induction h with
  | nil => exact hs
  | snoc _ does ih => exact hdoes _ _ _ _ does ih

theorem Serial.of_any {Does : ι → T → A → T → Prop} {I : T → Prop} {s s' : T}
    {log : List (ι × A)} (h : Serial Does s log s') (hlog : log ≠ [])
    (hdoes : ∀ i s a s', Does i s a s' → I s') : I s' := by
  cases h with
  | nil => exact (hlog rfl).elim
  | snoc _ does => exact hdoes _ _ _ _ does

namespace Sharing

variable [DecidableEq ι] (next : ι → P → T → Effect T P A) (w : Sharing ι T P A) (i : ι)

/-- The tables that a transaction sees. -/
def sees : T :=
  match w.holder with
  | some (j, t) => if j = i then t else w.committed
  | none => w.committed

/-- Whether another transaction holds the store. -/
def isHeld : Bool := w.holder.any fun h => decide (h.1 ≠ i)

/-- A transaction lets go of the store. -/
def letGo : Option (ι × T) := w.holder.filter fun h => decide (h.1 ≠ i)

/-- **One statement of a transaction**, unless it has to wait. -/
def step : Option (Sharing ι T P A) :=
  match next i (w.phase i) (w.sees i) with
  | .reads p => some { w with phase := Function.update w.phase i p }
  | .writes p t =>
    if w.isHeld i then none
    else some { w with holder := some (i, t), phase := Function.update w.phase i p }
  | .rollsBack p => some { w with holder := w.letGo i, phase := Function.update w.phase i p }
  | .commits p a =>
    some { committed := w.sees i, holder := w.letGo i, phase := Function.update w.phase i p
           log := w.log ++ [(i, a)] }

variable {w i}

theorem sees_of_holder {t : T} (h : w.holder = some (i, t)) : w.sees i = t := by
  rw [sees, h]
  exact if_pos rfl

theorem sees_of_free (h : ∀ t, w.holder ≠ some (i, t)) : w.sees i = w.committed := by
  unfold sees
  split
  · next j t hj =>
    refine if_neg fun hji => h t ?_
    rw [hj, hji]
  · rfl

theorem letGo_of_holder {t : T} (h : w.holder = some (i, t)) : w.letGo i = none := by
  simp [letGo, h]

theorem letGo_of_free (h : ∀ t, w.holder ≠ some (i, t)) : w.letGo i = w.holder := by
  unfold letGo
  cases hj : w.holder with
  | none => rfl
  | some holder =>
    obtain ⟨j, t⟩ := holder
    have hne : j ≠ i := fun hji => h t (by rw [hj, hji])
    simp [hne]

theorem holder_of_not_isHeld (hfree : ∀ t, w.holder ≠ some (i, t)) (h : w.isHeld i = false) :
    w.holder = none := by
  cases hj : w.holder with
  | none => rfl
  | some holder =>
    obtain ⟨j, t⟩ := holder
    have hji : j = i := by simpa [isHeld, hj] using h
    exact (hfree t (by rw [hj, hji])).elim

theorem isHeld_of_holder {t : T} (h : w.holder = some (i, t)) : w.isHeld i = false := by
  simp [isHeld, h]

variable (w i)

/-- Every interleaving of the statements. -/
abbrev Reach : Sharing ι T P A → Sharing ι T P A → Prop :=
  Relation.ReflTransGen fun w w' => ∃ i, w.step next i = some w'

/-- A run on a schedule: whose statement is the next. -/
def run (schedule : List ι) (w : Sharing ι T P A) : Option (Sharing ι T P A) :=
  schedule.foldlM (fun w i => w.step next i) w

theorem reach_run (schedule : List ι) {w w' : Sharing ι T P A} (h : w.run next schedule = some w') :
    Reach next w w' := by
  induction schedule generalizing w with
  | nil =>
    cases h
    exact .refl
  | cons i schedule ih =>
    obtain ⟨w₁, hstep, hrest⟩ := Option.bind_eq_some_iff.mp h
    exact .head ⟨i, hstep⟩ (ih hrest)

end Sharing

/-- **What a statement may come to**: what holds of the phase after a read, after a write and after a
rollback, and what is done by a commit. Only a commit answers, once, and none writes after it. -/
def Effect.Obeys (answered : P → Option A) (phase : P) (Reads : P → Prop) (Writes : P → T → Prop)
    (Ends : P → Prop) (Does : A → Prop) : Effect T P A → Prop
  | .reads p => Reads p ∧ answered p = answered phase
  | .writes p t => Writes p t ∧ answered p = none ∧ answered phase = none
  | .rollsBack p => Ends p ∧ answered p = answered phase
  | .commits p a => (Ends p ∧ Does a) ∧ answered p = some a ∧ answered phase = none

/-- **What the transactions do**: what holds of a phase while its transaction does not hold the
store, and of its phase, what was committed when it took the store and its own tables while it does.
A transaction that commits has done what `Does` says, and what it answered is told by its phase. -/
structure Rules (next : ι → P → T → Effect T P A) (Does : ι → T → A → T → Prop) where
  Free : ι → P → Prop
  Holds : ι → P → T → T → Prop
  answered : P → Option A
  free : ∀ i p s, Free i p →
    (next i p s).Obeys answered p (Free i) (fun p t => Holds i p s t) (Free i) fun a => Does i s a s
  holds : ∀ i p s t, Holds i p s t →
    (next i p t).Obeys answered p (fun p => Holds i p s t) (fun p t => Holds i p s t) (Free i)
      fun a => Does i s a t

namespace Rules

variable [DecidableEq ι] {next : ι → P → T → Effect T P A} {Does : ι → T → A → T → Prop}
  (rules : Rules next Does) {s₀ : T} {w w' : Sharing ι T P A} {i : ι}

/-- **What holds in every interleaving**: what is committed is what the transactions did in the order
of the log, which holds each answer once; and every transaction knows what it should. -/
structure Inv (s₀ : T) (w : Sharing ι T P A) : Prop where
  serial : Serial Does s₀ w.log w.committed
  nodup : (w.log.map Prod.fst).Nodup
  answers : ∀ i a, (i, a) ∈ w.log ↔ rules.answered (w.phase i) = some a
  holds : ∀ i t, w.holder = some (i, t) → rules.Holds i (w.phase i) w.committed t
  free : ∀ i, (∀ t, w.holder ≠ some (i, t)) → rules.Free i (w.phase i)

variable {rules}

theorem answers_update {log : List (ι × A)} {phase : ι → P} {p : P}
    (h : ∀ j a, (j, a) ∈ log ↔ rules.answered (phase j) = some a)
    (hp : rules.answered p = rules.answered (phase i)) (j : ι) (a : A) :
    (j, a) ∈ log ↔ rules.answered (Function.update phase i p j) = some a := by
  by_cases hj : j = i
  · subst hj
    rw [Function.update_self, hp]
    exact h j a
  · rw [Function.update_of_ne hj]
    exact h j a

theorem answers_commit {log : List (ι × A)} {phase : ι → P} {p : P} {answer : A}
    (h : ∀ j a, (j, a) ∈ log ↔ rules.answered (phase j) = some a)
    (hbefore : rules.answered (phase i) = none) (hp : rules.answered p = some answer) (j : ι) (a : A) :
    (j, a) ∈ log ++ [(i, answer)] ↔ rules.answered (Function.update phase i p j) = some a := by
  rw [List.mem_append, List.mem_singleton, Prod.mk.injEq, h]
  by_cases hj : j = i
  · subst hj
    rw [Function.update_self, hbefore, hp, Option.some.injEq]
    simp [eq_comm]
  · rw [Function.update_of_ne hj]
    simp [hj]

omit [DecidableEq ι] in
theorem nodup_commit {log : List (ι × A)} {phase : ι → P} {answer : A}
    (h : ∀ j a, (j, a) ∈ log ↔ rules.answered (phase j) = some a) (hnodup : (log.map Prod.fst).Nodup)
    (hbefore : rules.answered (phase i) = none) :
    ((log ++ [(i, answer)]).map Prod.fst).Nodup := by
  rw [List.map_append, List.nodup_append]
  refine ⟨hnodup, List.nodup_cons.mpr ⟨List.not_mem_nil, List.nodup_nil⟩, ?_⟩
  rintro j hj _ hi rfl
  obtain ⟨⟨_, a⟩, hmem, rfl⟩ := List.mem_map.mp hj
  obtain rfl := List.mem_singleton.mp hi
  rw [h, hbefore] at hmem
  cases hmem

theorem Inv.step_of_holder (h : rules.Inv s₀ w) {t : T} (ht : w.holder = some (i, t))
    (hstep : w.step next i = some w') : rules.Inv s₀ w' := by
  have hothers {p : P} (j : ι) (hj : j ≠ i) : rules.Free j (Function.update w.phase i p j) := by
    rw [Function.update_of_ne hj]
    refine h.free j fun t' hj' => ?_
    rw [ht] at hj'
    cases hj'
    exact hj rfl
  -- once it has let go, it holds no more than the others
  have hfree {p : P} (hp : rules.Free i p) (j : ι) : rules.Free j (Function.update w.phase i p j) := by
    by_cases hj : j = i
    · subst hj
      rwa [Function.update_self]
    · exact hothers j hj
  have hrule := rules.holds i _ _ _ (h.holds i t ht)
  unfold Sharing.step at hstep
  rw [Sharing.sees_of_holder ht] at hstep
  cases heffect : next i (w.phase i) t with
  | reads p =>
    rw [heffect] at hrule hstep
    cases hstep
    refine ⟨h.serial, h.nodup, answers_update h.answers hrule.2, fun j t' hj => ?_,
      fun j hj => hothers j fun hji => hj t (by rw [hji]; exact ht)⟩
    rw [ht] at hj
    cases hj
    simpa using hrule.1
  | writes p t' =>
    rw [heffect] at hrule hstep
    dsimp only at hstep
    rw [Sharing.isHeld_of_holder ht, if_neg Bool.false_ne_true] at hstep
    cases hstep
    refine ⟨h.serial, h.nodup, answers_update h.answers (hrule.2.1.trans hrule.2.2.symm),
      fun j t'' hj => ?_, fun j hj => hothers j fun hji => hj t' (by rw [hji])⟩
    cases hj
    simpa using hrule.1
  | rollsBack p =>
    rw [heffect] at hrule hstep
    cases hstep
    refine ⟨h.serial, h.nodup, answers_update h.answers hrule.2, fun j t' hj => ?_,
      fun j _ => hfree hrule.1 j⟩
    rw [Sharing.letGo_of_holder ht] at hj
    cases hj
  | commits p a =>
    rw [heffect] at hrule hstep
    cases hstep
    refine ⟨h.serial.snoc hrule.1.2, nodup_commit h.answers h.nodup hrule.2.2,
      answers_commit h.answers hrule.2.2 hrule.2.1, fun j t' hj => ?_, fun j _ => hfree hrule.1.1 j⟩
    rw [Sharing.letGo_of_holder ht] at hj
    cases hj

theorem Inv.step_of_free (h : rules.Inv s₀ w) (hi : ∀ t, w.holder ≠ some (i, t))
    (hstep : w.step next i = some w') : rules.Inv s₀ w' := by
  have hholds {p : P} (j : ι) (t : T) (hj : w.holder = some (j, t)) :
      rules.Holds j (Function.update w.phase i p j) w.committed t := by
    have hne : j ≠ i := fun hji => hi t (by rw [← hji]; exact hj)
    rw [Function.update_of_ne hne]
    exact h.holds j t hj
  have hfree {p : P} (hp : rules.Free i p) (j : ι) (hj : ∀ t, w.holder ≠ some (j, t)) :
      rules.Free j (Function.update w.phase i p j) := by
    by_cases hji : j = i
    · subst hji
      rwa [Function.update_self]
    · rw [Function.update_of_ne hji]
      exact h.free j hj
  have hrule := rules.free i _ w.committed (h.free i hi)
  unfold Sharing.step at hstep
  rw [Sharing.sees_of_free hi] at hstep
  cases heffect : next i (w.phase i) w.committed with
  | reads p =>
    rw [heffect] at hrule hstep
    cases hstep
    exact ⟨h.serial, h.nodup, answers_update h.answers hrule.2, hholds, hfree hrule.1⟩
  | writes p t =>
    rw [heffect] at hrule hstep
    dsimp only at hstep
    cases hheld : w.isHeld i with
    | true =>
      -- a writer waits while another holds the slot
      rw [hheld, if_pos rfl] at hstep
      cases hstep
    | false =>
      rw [hheld, if_neg Bool.false_ne_true] at hstep
      cases hstep
      -- the slot was free, so that nobody else held it
      have hnone := Sharing.holder_of_not_isHeld hi hheld
      refine ⟨h.serial, h.nodup, answers_update h.answers (hrule.2.1.trans hrule.2.2.symm),
        fun j t' hj => ?_, fun j hj => ?_⟩
      · cases hj
        simpa using hrule.1
      · have hji : j ≠ i := fun hji => hj t (by rw [hji])
        show rules.Free j (Function.update w.phase i p j)
        rw [Function.update_of_ne hji]
        refine h.free j fun t' hj' => ?_
        rw [hnone] at hj'
        cases hj'
  | rollsBack p =>
    rw [heffect] at hrule hstep
    cases hstep
    rw [Sharing.letGo_of_free hi]
    exact ⟨h.serial, h.nodup, answers_update h.answers hrule.2, hholds, hfree hrule.1⟩
  | commits p a =>
    rw [heffect] at hrule hstep
    cases hstep
    rw [Sharing.letGo_of_free hi]
    exact ⟨h.serial.snoc hrule.1.2, nodup_commit h.answers h.nodup hrule.2.2,
      answers_commit h.answers hrule.2.2 hrule.2.1, hholds, hfree hrule.1.1⟩

/-- **Each statement keeps it.** -/
theorem Inv.step (h : rules.Inv s₀ w) (hstep : w.step next i = some w') : rules.Inv s₀ w' := by
  by_cases hi : ∃ t, w.holder = some (i, t)
  · obtain ⟨t, ht⟩ := hi
    exact h.step_of_holder ht hstep
  · exact h.step_of_free (fun t ht => hi ⟨t, ht⟩) hstep

variable (rules)

/-- **Every interleaving is one in the order of the commits.** -/
theorem inv_of_reach {phase : ι → P} (hfree : ∀ i, rules.Free i (phase i))
    (hnone : ∀ i, rules.answered (phase i) = none)
    (h : Sharing.Reach next { committed := s₀, phase } w) : rules.Inv s₀ w := by
  induction h with
  | refl =>
    refine ⟨.nil, List.nodup_nil, fun i a => ?_, nofun, fun i _ => hfree i⟩
    rw [hnone]
    simp
  | tail _ hstep ih =>
    obtain ⟨i, hstep⟩ := hstep
    exact ih.step hstep

end Rules

namespace Sharing

variable [DecidableEq ι] (next : ι → P → T → Effect T P A) {w : Sharing ι T P A} {i : ι}

/-- **A transaction goes on** where no other holds the store. -/
theorem exists_step (h : w.isHeld i = false) : ∃ w', w.step next i = some w' := by
  unfold step
  cases next i (w.phase i) (w.sees i) with
  | writes p t =>
    dsimp only
    rw [h, if_neg Bool.false_ne_true]
    exact ⟨_, rfl⟩
  | reads p | rollsBack p | commits p a => exact ⟨_, rfl⟩

theorem exists_isHeld_eq_false (w : Sharing ι T P A) (i : ι) :
    ∃ j, w.isHeld j = false ∧ (j = i ∨ ∃ t, w.holder = some (j, t)) := by
  cases hholder : w.holder with
  | none => exact ⟨i, by simp [isHeld, hholder], .inl rfl⟩
  | some holder =>
    obtain ⟨j, t⟩ := holder
    exact ⟨j, isHeld_of_holder hholder, .inr ⟨t, rfl⟩⟩

end Sharing

end Storage
