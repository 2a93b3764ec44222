import Mathlib.Data.Fintype.Basic
import Mathlib.Logic.Relation
import Mss.Lib.Prog

/-!
# Interleavings of programs

Any number of programs share one store; a step lets one of them call its next operation. An
interleaving is a chain of steps, and a guard may refuse some of them.

* `Config`, `StepBy`, `Reach`: the store, the programs' rests and the trace of events; one step;
  every chain of guarded steps.
* `Config.mine`, `Config.phase`: one program's own events, and the phase they move it to;
  `Config.phase_flag`, `Config.exists_of_phase`: what the phase tells of the events.
* **`Reach.invariant`**: the assume-guarantee rule. When every program follows its protocol and
  one guarded step both meets the protocol's assumptions and keeps an invariant, the invariant
  holds of every configuration reached, and every program still follows its protocol there.
* `Config.schedule`, `reach_schedule`, `reach_schedule_of_obeys`: an interleaving computed from a
  list of turns, and one that obeys a guard.
-/

namespace Atomic

variable {Op : Type} {Resp : Op → Type} {ε α σ ι M : Type}

/-- **A configuration**: the shared store, what is left of each program, and the events so far. -/
structure Config (σ ι : Type) {Op : Type} (Resp : Op → Type) (ε α : Type) where
  store : σ
  pool : ι → Prog Resp ε α
  trace : List (ι × Event Resp)

namespace Config

variable [DecidableEq ι]

/-- The events of one program. -/
def mine (c : Config σ ι Resp ε α) (i : ι) : List (Event Resp) :=
  c.trace.filterMap fun x => if x.1 = i then some x.2 else none

theorem mem_mine {c : Config σ ι Resp ε α} {i : ι} {e : Event Resp} :
    e ∈ c.mine i ↔ (i, e) ∈ c.trace := by
  simp only [mine, List.mem_filterMap, Option.ite_none_right_eq_some, Option.some.injEq]
  exact ⟨fun ⟨x, hx, hi, he⟩ => by rwa [← hi, ← he], fun hx => ⟨_, hx, rfl, rfl⟩⟩

/-- The phase a program's own events have moved it to. -/
def phase (P : ι → Protocol Resp ε α M) (m₀ : ι → M) (c : Config σ ι Resp ε α) (i : ι) : M :=
  (c.mine i).foldl (P i).next (m₀ i)

/-- **A flag of the phase that the events of one kind raise** tells whether there was one. -/
theorem phase_flag {P : ι → Protocol Resp ε α M} {m₀ : ι → M} {i : ι} {flag : M → Bool}
    {raises : Event Resp → Bool}
    (hnext : ∀ m e, flag ((P i).next m e) = (flag m || raises e)) (c : Config σ ι Resp ε α) :
    flag (c.phase P m₀ i) = (flag (m₀ i) || (c.mine i).any raises) := by
  unfold phase
  generalize m₀ i = m
  induction c.mine i generalizing m with
  | nil => simp
  | cons e l ih => rw [List.foldl_cons, ih, hnext, List.any_cons, Bool.or_assoc]

/-- **What holds of the phase** held at its start, or one of the program's events told it. -/
theorem exists_of_phase {P : ι → Protocol Resp ε α M} {m₀ : ι → M} {i : ι} (Q : M → Prop)
    (tells : Event Resp → Prop) {c : Config σ ι Resp ε α} (h : Q (c.phase P m₀ i))
    (hnext : ∀ m e, Q ((P i).next m e) → tells e ∨ Q m) : (∃ e ∈ c.mine i, tells e) ∨ Q (m₀ i) := by
  unfold phase at h
  generalize c.mine i = l, m₀ i = m at h ⊢
  induction l generalizing m with
  | nil => exact .inr h
  | cons e l ih =>
    obtain ⟨e', he', htells⟩ | hm := ih _ h
    · exact .inl ⟨e', List.mem_cons_of_mem _ he', htells⟩
    · exact (hnext m e hm).imp_left fun htells => ⟨e, List.mem_cons_self .., htells⟩

/-- Programs at their start, on a store. -/
def start (s : σ) (pool : ι → Prog Resp ε α) : Config σ ι Resp ε α := ⟨s, pool, []⟩

@[simp] theorem mine_start (s : σ) (pool : ι → Prog Resp ε α) (i : ι) :
    (start s pool).mine i = [] := rfl

@[simp] theorem phase_start (P : ι → Protocol Resp ε α M) (m₀ : ι → M) (s : σ)
    (pool : ι → Prog Resp ε α) (i : ι) : (start s pool).phase P m₀ i = m₀ i := rfl

/-- Every program has returned or raised. -/
def AllDone (c : Config σ ι Resp ε α) : Prop := ∀ i, (c.pool i).Done

instance [Fintype ι] (c : Config σ ι Resp ε α) : Decidable c.AllDone :=
  inferInstanceAs (Decidable (∀ i, (c.pool i).Done))

end Config

variable [DecidableEq ι] (exec : ∀ o : Op, σ → Resp o × σ)

/-- Program `i` calls its next operation, which is the event `e`. -/
inductive StepBy (i : ι) (e : Event Resp) (c : Config σ ι Resp ε α) :
    Config σ ι Resp ε α → Prop
  | call (k : Resp e.1 → Prog Resp ε α) (hcall : c.pool i = .call e.1 k)
      (hresp : (exec e.1 c.store).1 = e.2) :
      StepBy i e c
        ⟨(exec e.1 c.store).2, Function.update c.pool i (k e.2), c.trace ++ [(i, e)]⟩

/-- **An interleaving**: a chain of steps that the guard lets pass. -/
abbrev Reach (guard : Config σ ι Resp ε α → ι → Event Resp → Prop) :
    Config σ ι Resp ε α → Config σ ι Resp ε α → Prop :=
  Relation.ReflTransGen fun c c' => ∃ i e, guard c i e ∧ StepBy exec i e c c'

/-- The guard that lets every step pass. -/
def anyStep (_ : Config σ ι Resp ε α) (_ : ι) (_ : Event Resp) : Prop := True

section Step

variable {exec} {i : ι} {e : Event Resp} {c c' : Config σ ι Resp ε α}

theorem StepBy.store (h : StepBy exec i e c c') : c'.store = (exec e.1 c.store).2 := by
  cases h; rfl

theorem StepBy.resp (h : StepBy exec i e c c') : (exec e.1 c.store).1 = e.2 := by
  cases h; assumption

theorem StepBy.trace (h : StepBy exec i e c c') : c'.trace = c.trace ++ [(i, e)] := by
  cases h; rfl

theorem StepBy.pool_ne (h : StepBy exec i e c c') {j : ι} (hj : j ≠ i) :
    c'.pool j = c.pool j := by
  cases h; exact Function.update_of_ne hj _ _

theorem StepBy.not_done (h : StepBy exec i e c c') : ¬ (c.pool i).Done := by
  cases h with
  | call k hcall hresp => rw [hcall]; exact id

theorem StepBy.mine_self (h : StepBy exec i e c c') : c'.mine i = c.mine i ++ [e] := by
  simp [Config.mine, h.trace, List.filterMap_append]

theorem StepBy.mine_ne (h : StepBy exec i e c c') {j : ι} (hj : j ≠ i) :
    c'.mine j = c.mine j := by
  simp [Config.mine, h.trace, List.filterMap_append, Ne.symm hj]

variable (P : ι → Protocol Resp ε α M) (m₀ : ι → M)

theorem StepBy.phase_self (h : StepBy exec i e c c') :
    c'.phase P m₀ i = (P i).next (c.phase P m₀ i) e := by
  simp [Config.phase, h.mine_self]

theorem StepBy.phase_ne (h : StepBy exec i e c c') {j : ι} (hj : j ≠ i) :
    c'.phase P m₀ j = c.phase P m₀ j := by
  simp only [Config.phase, h.mine_ne hj]

/-- Every program follows its protocol from the phase it is in. -/
def Following (c : Config σ ι Resp ε α) : Prop :=
  ∀ i, Prog.Follows (P i) (c.phase P m₀ i) (c.pool i)

variable {P m₀}

theorem Following.step (hf : Following P m₀ c) (h : StepBy exec i e c c')
    (ha : (P i).assumes (c.phase P m₀ i) e) :
    (P i).allows (c.phase P m₀ i) e ∧ Following P m₀ c' := by
  have hi := hf i
  obtain ⟨k, hcall, hresp⟩ := id h
  rw [hcall] at hi
  obtain ⟨hallow, hrest⟩ := hi e.2 ha
  refine ⟨hallow, fun j => ?_⟩
  by_cases hj : j = i
  · subst hj
    rw [h.phase_self]
    simpa using hrest
  · rw [h.phase_ne P m₀ hj, h.pool_ne hj]
    exact hf j

theorem Following.ends (hf : Following P m₀ c) (hd : (c.pool i).Done) :
    ∃ res, (P i).ends (c.phase P m₀ i) res ∧
      (c.pool i = match res with | .ok a => .ret a | .error err => .raise err) := by
  have hi := hf i
  cases hp : c.pool i with
  | ret a => exact ⟨.ok a, by simpa [hp] using hi, rfl⟩
  | raise err => exact ⟨.error err, by simpa [hp] using hi, rfl⟩
  | call o k => rw [hp] at hd; exact hd.elim

end Step

variable {exec}

theorem last_or_before {A : Type} {trace before later : List A} {x y : A}
    (h : trace ++ [x] = before ++ y :: later) :
    (later = [] ∧ y = x) ∨ ∃ rest, later = rest ++ [x] ∧ trace = before ++ y :: rest := by
  obtain rfl | ⟨rest, z, rfl⟩ := List.eq_nil_or_concat later
  · obtain ⟨-, hlast⟩ := List.append_inj' h rfl
    exact .inl ⟨rfl, (List.singleton_inj.mp hlast).symm⟩
  · rw [List.concat_eq_append, ← List.cons_append, ← List.append_assoc] at h
    obtain ⟨htrace, hlast⟩ := List.append_inj' h rfl
    obtain rfl := List.singleton_inj.mp hlast
    exact .inr ⟨rest, List.concat_eq_append .., htrace⟩

/-- **The assume-guarantee rule**: an invariant that each guarded step keeps, together with the
protocols' assumptions, holds of every configuration reached. -/
theorem Reach.invariant {guard : Config σ ι Resp ε α → ι → Event Resp → Prop}
    {c₀ c : Config σ ι Resp ε α} (hr : Reach exec guard c₀ c) (P : ι → Protocol Resp ε α M)
    (m₀ : ι → M) (Inv : Config σ ι Resp ε α → Prop) (hf : Following P m₀ c₀) (h₀ : Inv c₀)
    (hassume : ∀ c i e c', Following P m₀ c → Inv c → guard c i e → StepBy exec i e c c' →
      (P i).assumes (c.phase P m₀ i) e)
    (hstep : ∀ c i e c', Following P m₀ c → Following P m₀ c' → Inv c → guard c i e →
      StepBy exec i e c c' → (P i).allows (c.phase P m₀ i) e → Inv c') :
    Following P m₀ c ∧ Inv c := by
  induction hr with
  | refl => exact ⟨hf, h₀⟩
  | tail _ hlast ih =>
    obtain ⟨i, e, hg, hs⟩ := hlast
    obtain ⟨hallow, hf'⟩ := ih.1.step hs (hassume _ i e _ ih.1 ih.2 hg hs)
    exact ⟨hf', hstep _ i e _ ih.1 hf' ih.2 hg hs hallow⟩

theorem Reach.calls_invariant {guard : Config σ ι Resp ε α → ι → Event Resp → Prop}
    {c₀ c : Config σ ι Resp ε α} (hr : Reach exec guard c₀ c) {P : Op → Prop} {I : σ → Prop}
    (hexec : ∀ o s, P o → I s → I (exec o s).2) (hcalls : ∀ i, (c₀.pool i).Calls P)
    (h₀ : I c₀.store) : (∀ i, (c.pool i).Calls P) ∧ I c.store := by
  induction hr with
  | refl => exact ⟨hcalls, h₀⟩
  | tail _ hlast ih =>
    obtain ⟨i, e, _, k, hcall, _⟩ := hlast
    have hi := ih.1 i
    rw [hcall, Prog.calls_call] at hi
    refine ⟨fun j => ?_, hexec e.1 _ hi.1 ih.2⟩
    by_cases hj : j = i
    · subst hj
      simpa using hi.2 e.2
    · simpa only [Function.update_of_ne hj] using ih.1 j

/-! ## Interleavings computed from a list of turns -/

section Schedule

variable (exec)

/-- Let program `i` take one step, if it has one. -/
def Config.turn (c : Config σ ι Resp ε α) (i : ι) : Config σ ι Resp ε α :=
  match c.pool i with
  | .call o k => ⟨(exec o c.store).2, Function.update c.pool i (k (exec o c.store).1),
      c.trace ++ [(i, ⟨o, (exec o c.store).1⟩)]⟩
  | _ => c

/-- Let the programs take the turns listed. -/
def Config.schedule (c : Config σ ι Resp ε α) (turns : List ι) : Config σ ι Resp ε α :=
  turns.foldl (Config.turn exec) c

variable {exec} {guard : Config σ ι Resp ε α → ι → Event Resp → Prop}

theorem reach_turn {c : Config σ ι Resp ε α} {i : ι}
    (hg : ∀ o k, c.pool i = .call o k → guard c i ⟨o, (exec o c.store).1⟩) :
    Reach exec guard c (c.turn exec i) := by
  unfold Config.turn
  split
  · next o k h =>
    have hs : StepBy exec i ⟨o, (exec o c.store).1⟩ c _ := StepBy.call k h rfl
    exact .single ⟨i, _, hg o k h, hs⟩
  · exact .refl

variable (exec) in
/-- **A list of turns is an interleaving.** -/
theorem reach_schedule (turns : List ι) (c : Config σ ι Resp ε α) :
    Reach exec anyStep c (c.schedule exec turns) := by
  induction turns generalizing c with
  | nil => exact .refl
  | cons i turns ih => exact (reach_turn fun _ _ _ => trivial).trans (ih _)

variable (exec guard) in
/-- Whether the guard lets every turn listed pass. -/
def Config.obeys [∀ c i e, Decidable (guard c i e)] (c : Config σ ι Resp ε α) : List ι → Bool
  | [] => true
  | i :: turns => (match c.pool i with
      | .call o _ => decide (guard c i ⟨o, (exec o c.store).1⟩)
      | _ => true) && (c.turn exec i).obeys turns

/-- **A list of turns that obeys a guard is a guarded interleaving.** -/
theorem reach_schedule_of_obeys [∀ c i e, Decidable (guard c i e)] {turns : List ι}
    {c : Config σ ι Resp ε α} (hg : c.obeys exec guard turns) :
    Reach exec guard c (c.schedule exec turns) := by
  induction turns generalizing c with
  | nil => exact .refl
  | cons i turns ih =>
    rw [Config.obeys, Bool.and_eq_true] at hg
    refine (reach_turn fun o k hcall => ?_).trans (ih hg.2)
    simpa [hcall] using hg.1

end Schedule

end Atomic
