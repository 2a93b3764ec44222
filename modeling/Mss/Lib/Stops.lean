import Mathlib.Data.Nat.Notation
import Mss.Lib.Prog

/-!
# Programs that stop

A program may stop at any of its operations, with its caller's process or because the operation
fails: before the operation, in the middle of it, or once it is done.

* **`Prog.Stops`**: the operations done when a program stops, and the store it leaves. What an
  operation leaves when it is stopped in the middle is a parameter, `torn`.
* `Prog.stopped`, `Prog.stops_stopped`: the stop after a number of operations, computed.
* `Prog.stops_bind`, `Prog.stops_tryCatch`: the rules that take a program apart.
* `Prog.stops_invariant`: what the operations keep, whole or torn, holds where the program stops.
-/

namespace Atomic

namespace Prog

variable {Op σ : Type} {Resp : Op → Type} {ε α β : Type} (exec : ∀ o : Op, σ → Resp o × σ)
  (torn : Op → σ → σ → Prop)

/-- **The program stops**, having done the operations of the events, and leaves a store. -/
inductive Stops : Prog Resp ε α → σ → List (Event Resp) → σ → Prop
  | here {p : Prog Resp ε α} {s : σ} : Stops p s [] s
  | torn {o : Op} {k : Resp o → Prog Resp ε α} {s s' : σ} (hs : torn o s s') :
      Stops (.call o k) s [] s'
  | call {o : Op} {k : Resp o → Prog Resp ε α} {s s' : σ} {es : List (Event Resp)}
      (hk : Stops (k (exec o s).1) (exec o s).2 es s') :
      Stops (.call o k) s (⟨o, (exec o s).1⟩ :: es) s'

/-- What the program has done after `n` operations, or when it ends before. -/
def stopped : Prog Resp ε α → ℕ → σ → List (Event Resp) × σ
  | .call o k, n + 1, s =>
    let rest := (k (exec o s).1).stopped n (exec o s).2
    (⟨o, (exec o s).1⟩ :: rest.1, rest.2)
  | _, _, s => ([], s)

variable {exec torn} {p : Prog Resp ε α} {s s' : σ} {es : List (Event Resp)}

theorem stops_stopped (p : Prog Resp ε α) (n : ℕ) (s : σ) :
    Stops exec torn p s (p.stopped exec n s).1 (p.stopped exec n s).2 := by
  induction p generalizing n s with
  | ret a => exact .here
  | raise e => exact .here
  | call o k ih =>
    cases n with
    | zero => exact .here
    | succ n => exact .call (ih _ n _)

theorem stops_ret {a : α} (h : Stops exec torn (.ret a : Prog Resp ε α) s es s') :
    es = [] ∧ s' = s := by
  cases h
  exact ⟨rfl, rfl⟩

theorem stops_raise {e : ε} (h : Stops exec torn (.raise e : Prog Resp ε α) s es s') :
    es = [] ∧ s' = s := by
  cases h
  exact ⟨rfl, rfl⟩

theorem stops_of_calls_nothing (hp : p.Calls fun _ => False) (h : Stops exec torn p s es s') :
    es = [] ∧ s' = s := by
  cases h with
  | here => exact ⟨rfl, rfl⟩
  | torn _ => exact hp.1.elim
  | call _ => exact hp.1.elim

theorem stops_call {o : Op} {k : Resp o → Prog Resp ε α}
    (h : Stops exec torn (.call o k) s es s') :
    (es = [] ∧ (s' = s ∨ torn o s s')) ∨
    ∃ es', es = ⟨o, (exec o s).1⟩ :: es' ∧ Stops exec torn (k (exec o s).1) (exec o s).2 es' s' := by
  cases h with
  | here => exact .inl ⟨rfl, .inl rfl⟩
  | torn hs => exact .inl ⟨rfl, .inr hs⟩
  | call hk => exact .inr ⟨_, rfl, hk⟩

/-- **A stop in the first part, or in the second** once the first has returned. -/
theorem stops_bind {f : α → Prog Resp ε β} (h : Stops exec torn (p >>= f) s es s') :
    Stops exec torn p s es s' ∨
    ∃ a s₁ es₁ es₂, p.run exec s = (.ok a, s₁) ∧ Stops exec torn p s es₁ s₁ ∧ es = es₁ ++ es₂ ∧
      Stops exec torn (f a) s₁ es₂ s' := by
  induction p generalizing s es with
  | ret a => exact .inr ⟨a, s, [], es, rfl, .here, rfl, h⟩
  | raise e =>
    obtain ⟨rfl, rfl⟩ := stops_raise h
    exact .inl .here
  | call o k ih =>
    rcases stops_call h with ⟨rfl, rfl | htorn⟩ | ⟨es', rfl, hk⟩
    · exact .inl .here
    · exact .inl (.torn htorn)
    · rcases ih _ hk with hfirst | ⟨a, s₁, es₁, es₂, hrun, hfirst, rfl, hsecond⟩
      · exact .inl (.call hfirst)
      · exact .inr ⟨a, s₁, _ :: es₁, es₂, hrun, .call hfirst, rfl, hsecond⟩

theorem stops_tryCatch {f : ε → Prog Resp ε α} (hf : ∀ e, ∃ e', f e = .raise e')
    (h : Stops exec torn (tryCatch p f) s es s') : Stops exec torn p s es s' := by
  induction p generalizing s es with
  | ret a => exact h
  | raise e =>
    obtain ⟨e', he'⟩ := hf e
    rw [tryCatch_raise, he'] at h
    obtain ⟨rfl, rfl⟩ := stops_raise h
    exact .here
  | call o k ih =>
    rcases stops_call h with ⟨rfl, rfl | htorn⟩ | ⟨es', rfl, hk⟩
    · exact .here
    · exact .torn htorn
    · exact .call (ih _ hk)

/-- **What every operation keeps, whole or torn, holds where the program stops.** -/
theorem stops_invariant {I : σ → Prop}
    (hp : p.Calls fun o => (∀ s, I s → I (exec o s).2) ∧ ∀ s s', I s → torn o s s' → I s')
    (hs : I s) (h : Stops exec torn p s es s') : I s' := by
  induction h with
  | here => exact hs
  | torn htorn => exact hp.1.2 _ _ hs htorn
  | call _ ih => exact ih (hp.2 _) (hp.1.1 _ hs)

theorem stops_events {Q : Op → Prop} (hp : p.Calls Q) (h : Stops exec torn p s es s') :
    ∀ e ∈ es, Q e.1 := by
  induction h with
  | here => exact fun _ he => absurd he List.not_mem_nil
  | torn _ => exact fun _ he => absurd he List.not_mem_nil
  | call _ ih =>
    intro e he
    rcases List.mem_cons.mp he with rfl | he
    · exact hp.1
    · exact ih (hp.2 _) e he

end Prog

end Atomic
