import Mathlib.Data.Nat.Notation
import Mathlib.Data.List.Forall2

/-!
# Computations to a depth

A recursion that is not structural is run to a depth of calls. It settles on a result where every
depth that is enough gives that result.

* `Settles`: the computation gives the result at every depth from some on.
* `Settles.unique`, `Settles.bind`, `settles_succ`: one result; two computations; one call.
* **`settles_mapM`**: the computations of a list's members settle together.
-/

namespace Storage

variable {ε A B : Type}

/-- **The computation gives the result** at every depth that is enough. -/
def Settles (f : ℕ → Except ε A) (a : A) : Prop := ∃ N, ∀ n ≥ N, f n = .ok a

theorem settles_const (a : A) : Settles (ε := ε) (fun _ => .ok a) a := ⟨0, fun _ _ => rfl⟩

theorem Settles.unique {f : ℕ → Except ε A} {a b : A} (h : Settles f a) (h' : Settles f b) : a = b := by
  obtain ⟨N, hN⟩ := h
  obtain ⟨M, hM⟩ := h'
  have ha := hN (N + M) (Nat.le_add_right N M)
  rw [hM (N + M) (Nat.le_add_left M N)] at ha
  exact (Except.ok.inj ha).symm

theorem Settles.bind {f : ℕ → Except ε A} {g : ℕ → A → Except ε B} {a : A} {b : B}
    (hf : Settles f a) (hg : Settles (fun n => g n a) b) : Settles (fun n => f n >>= g n) b := by
  obtain ⟨N, hN⟩ := hf
  obtain ⟨M, hM⟩ := hg
  refine ⟨N + M, fun n hn => ?_⟩
  show f n >>= g n = _
  rw [hN n (Nat.le_trans (Nat.le_add_right N M) hn)]
  exact hM n (Nat.le_trans (Nat.le_add_left M N) hn)

/-- A call takes one more. -/
theorem settles_succ {f : ℕ → Except ε A} {a : A} (h : Settles (fun n => f (n + 1)) a) :
    Settles f a := by
  obtain ⟨N, hN⟩ := h
  refine ⟨N + 1, fun n hn => ?_⟩
  obtain ⟨m, rfl⟩ := Nat.exists_eq_add_of_le' (Nat.le_trans (Nat.le_add_left 1 N) hn)
  exact hN m (Nat.le_of_succ_le_succ hn)

/-- **The computations of a list's members** settle together. -/
theorem settles_mapM {f : ℕ → A → Except ε B} {l : List A}
    (h : ∀ a ∈ l, ∃ b, Settles (fun n => f n a) b) :
    ∃ bs, Settles (fun n => l.mapM (f n)) bs ∧
      List.Forall₂ (fun a b => Settles (fun n => f n a) b) l bs := by
  induction l with
  | nil => exact ⟨[], settles_const [], .nil⟩
  | cons a l ih =>
    obtain ⟨b, hb⟩ := h a List.mem_cons_self
    obtain ⟨bs, hbs, hall⟩ := ih fun a' ha' => h a' (List.mem_cons_of_mem a ha')
    refine ⟨b :: bs, ?_, .cons hb hall⟩
    simp only [List.mapM_cons]
    exact hb.bind (hbs.bind (settles_const (b :: bs)))

end Storage
