import Mathlib.Data.List.Forall2

/-!
# Computations that may be refused

A computation gives a result or raises. Some of what it raises is a refusal, which its caller
expects; the rest is a failure.

* **`Yields`**: the computation gives a result with a property, or is refused.
* `Yields.bind`, `Yields.map`, `Yields.mapError`, `Yields.mapM`: the rules that take a computation
  apart.
* `Yields.exists_ok`: one that is not refused gives a result with the property.
-/

namespace Storage

variable {ε α β : Type} {refusal : ε → Prop}

/-- **The computation gives a result with the property, or is refused.** -/
def Yields (refusal : ε → Prop) (x : Except ε α) (p : α → Prop) : Prop :=
  match x with
  | .ok a => p a
  | .error e => refusal e

namespace Yields

variable {x : Except ε α} {p : α → Prop} {q : β → Prop}

theorem ok {a : α} (h : p a) : Yields refusal (.ok a) p := h

theorem mono {p' : α → Prop} (h : Yields refusal x p) (hp : ∀ a, p a → p' a) :
    Yields refusal x p' := by
  cases x with
  | ok a => exact hp a h
  | error e => exact h

theorem bind {f : α → Except ε β} (h : Yields refusal x p)
    (hf : ∀ a, p a → Yields refusal (f a) q) : Yields refusal (x >>= f) q := by
  cases x with
  | ok a => exact hf a h
  | error e => exact h

theorem map {f : α → β} (h : Yields refusal x p) (hf : ∀ a, p a → q (f a)) :
    Yields refusal (x.map f) q := by
  cases x with
  | ok a => exact hf a h
  | error e => exact h

theorem mapError {ε' : Type} {refusal' : ε' → Prop} {f : ε → ε'} (h : Yields refusal x p)
    (hf : ∀ e, refusal e → refusal' (f e)) : Yields refusal' (x.mapError f) p := by
  cases x with
  | ok a => exact h
  | error e => exact hf e h

/-- A list of computations yields a list of results, member by member. -/
theorem mapM {f : α → Except ε β} {r : α → β → Prop} {l : List α}
    (h : ∀ a ∈ l, Yields refusal (f a) (r a)) :
    Yields refusal (l.mapM f) (List.Forall₂ r l) := by
  induction l with
  | nil => exact .nil
  | cons a l ih =>
    rw [List.mapM_cons]
    refine (h a List.mem_cons_self).bind fun b hb => ?_
    refine (ih fun c hc => h c (List.mem_cons_of_mem _ hc)).bind fun bs hbs => ?_
    exact .cons hb hbs

/-- A computation that is not refused gives a result with the property. -/
theorem exists_ok (h : Yields refusal x p) (hx : ∀ e, refusal e → x ≠ .error e) :
    ∃ a, x = .ok a ∧ p a := by
  cases x with
  | ok a => exact ⟨a, rfl, h⟩
  | error e => exact absurd rfl (hx e h)

end Yields

theorem forall₂_imp_mem {r s : α → β → Prop} {l : List α} {m : List β} (h : List.Forall₂ r l m)
    (hs : ∀ a ∈ l, ∀ b, r a b → s a b) : List.Forall₂ s l m := by
  induction h with
  | nil => exact .nil
  | cons hab _ ih =>
    exact .cons (hs _ List.mem_cons_self _ hab) (ih fun a ha => hs a (List.mem_cons_of_mem _ ha))

theorem forall₂_trans {γ : Type} {r : α → β → Prop} {s : β → γ → Prop} {t : α → γ → Prop}
    {l : List α} {m : List β} {n : List γ} (h : List.Forall₂ r l m) (h' : List.Forall₂ s m n)
    (ht : ∀ a b c, r a b → s b c → t a c) : List.Forall₂ t l n := by
  induction h generalizing n with
  | nil =>
    cases h'
    exact .nil
  | cons hab _ ih =>
    cases h' with
    | cons hbc hrest => exact .cons (ht _ _ _ hab hbc) (ih hrest)

theorem forall_iff_of_forall₂ {r : α → β → Prop} {p : α → Prop} {q : β → Prop} {l : List α}
    {m : List β} (h : List.Forall₂ r l m) (hr : ∀ a ∈ l, ∀ b, r a b → (p a ↔ q b)) :
    (∀ a ∈ l, p a) ↔ ∀ b ∈ m, q b := by
  induction h with
  | nil => simp
  | cons hab _ ih =>
    rw [List.forall_mem_cons, List.forall_mem_cons, hr _ List.mem_cons_self _ hab,
      ih fun a ha => hr a (List.mem_cons_of_mem _ ha)]

theorem bind_ok {x : Except ε α} {f : α → Except ε β} {b : β} (h : (x >>= f) = .ok b) :
    ∃ a, x = .ok a ∧ f a = .ok b := by
  cases x with
  | ok a => exact ⟨a, rfl, h⟩
  | error e => cases h

theorem bind_error {x : Except ε α} {f : α → Except ε β} {e : ε} (h : (x >>= f) = .error e) :
    x = .error e ∨ ∃ a, x = .ok a ∧ f a = .error e := by
  cases x with
  | ok a => exact .inr ⟨a, rfl, h⟩
  | error e' =>
    cases h
    exact .inl rfl

theorem map_ok {x : Except ε α} {f : α → β} {b : β} (h : x.map f = .ok b) : ∃ a, x = .ok a := by
  cases x with
  | ok a => exact ⟨a, rfl⟩
  | error e => cases h

theorem mapError_ok {ε' : Type} {x : Except ε α} {f : ε → ε'} {a : α}
    (h : x.mapError f = .ok a) : x = .ok a := by
  cases x with
  | ok b =>
    cases h
    rfl
  | error e => cases h

theorem mapError_error {ε' : Type} {x : Except ε α} {f : ε → ε'} {e : ε'}
    (h : x.mapError f = .error e) : ∃ e', x = .error e' ∧ e = f e' := by
  cases x with
  | ok a => cases h
  | error e' =>
    cases h
    exact ⟨e', rfl, rfl⟩

theorem eq_ok_of_toOption {x : Except ε α} (h : x.toOption.isSome = true) :
    x = .ok (x.toOption.get h) := by
  cases x with
  | ok a => rfl
  | error e => cases h

theorem foldlM_invariant {A X : Type} {f : A → X → Except ε A} {p : A → Prop}
    (hstep : ∀ a x a', f a x = .ok a' → p a → p a') {xs : List X} {a a' : A}
    (h : xs.foldlM f a = .ok a') (ha : p a) : p a' := by
  induction xs generalizing a with
  | nil =>
    cases h
    exact ha
  | cons x xs ih =>
    rw [List.foldlM_cons] at h
    obtain ⟨a₁, hfirst, hrest⟩ := bind_ok h
    exact ih hrest (hstep a x a₁ hfirst ha)

theorem foldlM_error {A X : Type} {f : A → X → Except ε A} {xs : List X} {a : A} {e : ε}
    (h : xs.foldlM f a = .error e) : ∃ earlier x later a', xs = earlier ++ x :: later ∧
      earlier.foldlM f a = .ok a' ∧ f a' x = .error e := by
  induction xs generalizing a with
  | nil => cases h
  | cons x xs ih =>
    rw [List.foldlM_cons] at h
    cases hfirst : f a x with
    | error e' =>
      rw [hfirst] at h
      cases h
      exact ⟨[], x, xs, a, rfl, rfl, hfirst⟩
    | ok a₁ =>
      rw [hfirst] at h
      obtain ⟨earlier, y, later, a', rfl, hearlier, hy⟩ := ih h
      refine ⟨x :: earlier, y, later, a', rfl, ?_, hy⟩
      rw [List.foldlM_cons, hfirst]
      exact hearlier

theorem foldlM_of_error {A X : Type} {f : A → X → Except ε A} {earlier later : List X} {x : X}
    {a a' : A} {e : ε} (hearlier : earlier.foldlM f a = .ok a') (hx : f a' x = .error e) :
    (earlier ++ x :: later).foldlM f a = .error e := by
  rw [List.foldlM_append, hearlier]
  change (x :: later).foldlM f a' = .error e
  rw [List.foldlM_cons, hx]
  rfl

theorem forall₂_of_mapM {f : α → Except ε β} {l : List α} {bs : List β}
    (h : l.mapM f = .ok bs) : List.Forall₂ (fun a b => f a = .ok b) l bs := by
  induction l generalizing bs with
  | nil =>
    cases h
    exact .nil
  | cons a l ih =>
    rw [List.mapM_cons] at h
    obtain ⟨b, hb, h⟩ := bind_ok h
    obtain ⟨bs', hbs, h⟩ := bind_ok h
    cases h
    exact .cons hb (ih hbs)

theorem mapM_ok {f : α → Except ε β} {l : List α} {bs : List β} (h : l.mapM f = .ok bs) :
    ∀ a ∈ l, ∃ b, f a = .ok b := by
  induction l generalizing bs with
  | nil => simp
  | cons a l ih =>
    rw [List.mapM_cons] at h
    obtain ⟨b, hb, h⟩ := bind_ok h
    obtain ⟨bs', hbs, _⟩ := bind_ok h
    exact List.forall_mem_cons.mpr ⟨⟨b, hb⟩, ih hbs⟩

theorem exists_of_mapM_ok {f : α → Except ε β} {l : List α} {bs : List β} (h : l.mapM f = .ok bs) :
    ∀ a ∈ l, ∃ b ∈ bs, f a = .ok b := by
  induction l generalizing bs with
  | nil => simp
  | cons a l ih =>
    rw [List.mapM_cons] at h
    obtain ⟨b, hb, h⟩ := bind_ok h
    obtain ⟨bs', hbs, h⟩ := bind_ok h
    cases h
    refine List.forall_mem_cons.mpr ⟨⟨b, List.mem_cons_self, hb⟩, fun c hc => ?_⟩
    obtain ⟨d, hd, hcd⟩ := ih hbs c hc
    exact ⟨d, List.mem_cons_of_mem _ hd, hcd⟩

theorem forall_of_mapM_ok {f : α → Except ε β} {p : β → Prop} {l : List α} {bs : List β}
    (h : l.mapM f = .ok bs) (hp : ∀ a ∈ l, ∀ b, f a = .ok b → p b) : ∀ b ∈ bs, p b := by
  induction l generalizing bs with
  | nil =>
    cases h
    simp
  | cons a l ih =>
    rw [List.mapM_cons] at h
    obtain ⟨b, hb, h⟩ := bind_ok h
    obtain ⟨bs', hbs, h⟩ := bind_ok h
    cases h
    refine List.forall_mem_cons.mpr ⟨hp a List.mem_cons_self b hb, ?_⟩
    exact ih hbs fun c hc => hp c (List.mem_cons_of_mem _ hc)

theorem mapM_congr_mem {f g : α → Except ε β} {l : List α} (h : ∀ a ∈ l, f a = g a) :
    l.mapM f = l.mapM g := by
  induction l with
  | nil => rfl
  | cons a l ih =>
    rw [List.mapM_cons, List.mapM_cons, h a List.mem_cons_self,
      ih fun b hb => h b (List.mem_cons_of_mem _ hb)]

theorem mapM_eq_error {f : α → Except ε β} {l : List α} {e : ε} (h : ∃ a ∈ l, f a = .error e)
    (hall : ∀ a ∈ l, f a = .error e ∨ ∃ b, f a = .ok b) : l.mapM f = .error e := by
  induction l with
  | nil => simp at h
  | cons a l ih =>
    rw [List.mapM_cons]
    rcases hall a List.mem_cons_self with ha | ⟨b, ha⟩
    · rw [ha]
      rfl
    · obtain ⟨c, hc, herror⟩ := h
      rcases List.mem_cons.mp hc with rfl | hlater
      · rw [ha] at herror
        cases herror
      · rw [ha, ih ⟨c, hlater, herror⟩ fun d hd => hall d (List.mem_cons_of_mem _ hd)]
        rfl

theorem exists_mapM {f : α → Except ε β} {q : α → β → Prop} {l : List α}
    (h : ∀ a ∈ l, ∃ b, f a = .ok b ∧ q a b) :
    ∃ bs, l.mapM f = .ok bs ∧ List.Forall₂ (fun a b => f a = .ok b ∧ q a b) l bs := by
  induction l with
  | nil => exact ⟨[], rfl, .nil⟩
  | cons a l ih =>
    obtain ⟨b, hb, hq⟩ := h a List.mem_cons_self
    obtain ⟨bs, hbs, hall⟩ := ih fun a' ha' => h a' (List.mem_cons_of_mem a ha')
    refine ⟨b :: bs, ?_, .cons ⟨hb, hq⟩ hall⟩
    rw [List.mapM_cons, hb, hbs]
    rfl

theorem forM_eq_ok {f : α → Except ε PUnit} {l : List α} (h : l.forM f = .ok ⟨⟩) :
    ∀ a ∈ l, f a = .ok ⟨⟩ := by
  induction l with
  | nil => simp
  | cons a l ih =>
    change (f a >>= fun _ => l.forM f) = .ok ⟨⟩ at h
    cases ha : f a with
    | error e =>
      rw [ha] at h
      cases h
    | ok u =>
      rw [ha] at h
      exact List.forall_mem_cons.mpr ⟨ha, ih h⟩

end Storage
