import Mathlib.Data.List.Forall2

/-!
# What a list of checks says

A computation makes checks one after another and stops at the first that fails. Some failures are
refusals, which it means to raise, and the others are crashes. What it comes to is then said by the
list of its checks.

* `Verdict`, `overall`: what a check says, and what the first failed one of a list says.
* **`Says`**: the checks say what a computation comes to; `Says.bind`, `Says.mapM`, `Says.foldlM`:
  the rules that take a computation apart.
* `Harsher`: the same checks, of which more crash; `Harsher.overall_eq_or_crash`.
-/

namespace Storage

/-- What a check says: nothing, or how it fails. -/
inductive Verdict
  | pass
  | refuse
  | crash
  deriving DecidableEq, Repr

namespace Verdict

/-- What the first of some checks that fails says. -/
def overall : List Verdict → Verdict
  | [] => pass
  | pass :: vs => overall vs
  | v :: _ => v

/-- A check that crashes unless something holds. -/
def passIf (p : Prop) [Decidable p] : Verdict := if p then pass else crash

@[simp] theorem overall_nil : overall [] = pass := rfl

@[simp] theorem overall_pass_cons (vs : List Verdict) : overall (pass :: vs) = overall vs := rfl

@[simp] theorem overall_refuse_cons (vs : List Verdict) : overall (refuse :: vs) = refuse := rfl

@[simp] theorem overall_crash_cons (vs : List Verdict) : overall (crash :: vs) = crash := rfl

theorem passIf_congr {p q : Prop} [Decidable p] [Decidable q] (h : p ↔ q) : passIf p = passIf q := by
  unfold passIf
  exact if_congr h rfl rfl

theorem passIf_of {p : Prop} [Decidable p] (h : p) : passIf p = pass := if_pos h

theorem overall_append_of_pass {vs : List Verdict} (h : overall vs = pass) (ws : List Verdict) :
    overall (vs ++ ws) = overall ws := by
  induction vs with
  | nil => rfl
  | cons v vs ih =>
    cases v with
    | pass => exact ih h
    | refuse => cases h
    | crash => cases h

theorem overall_append_of_ne_pass {vs : List Verdict} (h : overall vs ≠ pass) (ws : List Verdict) :
    overall (vs ++ ws) = overall vs := by
  induction vs with
  | nil => exact absurd rfl h
  | cons v vs ih =>
    cases v with
    | pass => exact ih h
    | refuse => rfl
    | crash => rfl

/-- **The same checks, of which more crash.** -/
def Harsher (vs ws : List Verdict) : Prop :=
  List.Forall₂ (fun v w => v = w ∨ v = pass ∧ w = crash) vs ws

namespace Harsher

variable {vs ws vs' ws' : List Verdict}

theorem refl (vs : List Verdict) : Harsher vs vs := List.forall₂_same.mpr fun _ _ => .inl rfl

theorem append (h : Harsher vs ws) (h' : Harsher vs' ws') : Harsher (vs ++ vs') (ws ++ ws') :=
  List.rel_append h h'

theorem passIf {p q : Prop} [Decidable p] [Decidable q] (h : q → p) :
    passIf p = passIf q ∨ passIf p = pass ∧ passIf q = crash := by
  unfold Verdict.passIf
  by_cases hq : q
  · simp [hq, h hq]
  · by_cases hp : p
    · simp [hq, hp]
    · simp [hq, hp]

/-- **They say the same or crash.** -/
theorem overall_eq_or_crash (h : Harsher vs ws) : overall vs = overall ws ∨ overall ws = crash := by
  induction h with
  | nil => exact .inl rfl
  | @cons v w vs ws hvw _ ih =>
    rcases hvw with rfl | ⟨rfl, rfl⟩
    · cases v with
      | pass => exact ih
      | refuse => exact .inl rfl
      | crash => exact .inl rfl
    · exact .inr rfl

end Harsher

end Verdict

open Verdict

variable {ε α β : Type} {isRefusal : ε → Bool}

/-- **The checks say what the computation comes to**, and what it gives has a property. -/
def Says (isRefusal : ε → Bool) (x : Except ε α) (vs : List Verdict) (p : α → Prop) : Prop :=
  match x with
  | .ok a => overall vs = .pass ∧ p a
  | .error e => overall vs = if isRefusal e then .refuse else .crash

namespace Says

variable {x : Except ε α} {vs ws : List Verdict} {p : α → Prop} {q : β → Prop}

theorem ok {a : α} (ha : p a) : Says isRefusal (.ok a) [] p := ⟨rfl, ha⟩

theorem refuse {e : ε} (he : isRefusal e = true) : Says isRefusal (.error e) [.refuse] p := by
  simp [Says, he]

theorem passed {r : Prop} [Decidable r] (hr : r) {a : α} (ha : p a) :
    Says isRefusal (.ok a) [passIf r] p := by
  rw [passIf_of hr]
  exact ⟨rfl, ha⟩

theorem failed {r : Prop} [Decidable r] (hr : ¬ r) {e : ε} (he : isRefusal e = false) :
    Says isRefusal (.error e) [passIf r] p := by
  simp [Says, passIf, hr, he]

theorem mono {p' : α → Prop} (h : Says isRefusal x vs p) (hp : ∀ a, p a → p' a) :
    Says isRefusal x vs p' := by
  cases x with
  | ok a => exact ⟨h.1, hp a h.2⟩
  | error e => exact h

theorem map {f : α → β} (h : Says isRefusal x vs p) (hf : ∀ a, p a → q (f a)) :
    Says isRefusal (x.map f) vs q := by
  cases x with
  | ok a => exact ⟨h.1, hf a h.2⟩
  | error e => exact h

/-- **One computation after another** makes the checks of both. -/
theorem bind {f : α → Except ε β} (h : Says isRefusal x vs p)
    (hf : ∀ a, p a → Says isRefusal (f a) ws q) : Says isRefusal (x >>= f) (vs ++ ws) q := by
  cases x with
  | ok a =>
    have hws := hf a h.2
    change Says isRefusal (f a) (vs ++ ws) q
    unfold Says at hws ⊢
    rw [overall_append_of_pass h.1]
    exact hws
  | error e =>
    have hne : overall vs ≠ .pass := by
      rw [show overall vs = if isRefusal e then .refuse else .crash from h]
      split_ifs <;> simp
    change overall (vs ++ ws) = _
    rw [overall_append_of_ne_pass hne]
    exact h

theorem bind_ok {f : α → β} (h : Says isRefusal x vs p) (hf : ∀ a, p a → q (f a)) :
    Says isRefusal (x >>= fun a => .ok (f a)) vs q := by
  rw [← List.append_nil vs]
  exact h.bind fun a ha => ok (hf a ha)

/-- A computation for each of some things makes the checks of each. -/
theorem mapM {f : α → Except ε β} {v : α → List Verdict} {r : α → β → Prop} {l : List α}
    (h : ∀ a ∈ l, Says isRefusal (f a) (v a) (r a)) :
    Says isRefusal (l.mapM f) (l.flatMap v) (List.Forall₂ r l) := by
  induction l with
  | nil => exact ok .nil
  | cons a l ih =>
    rw [List.mapM_cons, List.flatMap_cons]
    refine (h a List.mem_cons_self).bind fun b hb => ?_
    exact (ih fun c hc => h c (List.mem_cons_of_mem _ hc)).bind_ok fun bs hbs => .cons hb hbs

theorem forall_mem {r : β → Prop} [DecidablePred r] {l : List β}
    (h : Says isRefusal x (l.flatMap fun b => [passIf (r b)]) p) :
    Says isRefusal x [passIf (∀ b ∈ l, r b)] p := by
  have hoverall : overall (l.flatMap fun b => [passIf (r b)]) = overall [passIf (∀ b ∈ l, r b)] := by
    clear h
    induction l with
    | nil => rfl
    | cons b l ih =>
      rw [List.flatMap_cons, passIf_congr List.forall_mem_cons]
      by_cases hb : r b
      · rw [passIf_of hb]
        exact ih.trans (congrArg (fun v => overall [v]) (passIf_congr (by simp [hb])))
      · simp [passIf, hb]
  unfold Says at h ⊢
  rw [← hoverall]
  exact h

/-- **A loop over some things** makes the checks of each, while what it goes on with keeps a
property. -/
theorem foldlM {f : β → α → Except ε β} {v : α → List Verdict} {l : List α}
    (h : ∀ b, q b → ∀ a ∈ l, Says isRefusal (f b a) (v a) q) {b : β} (hb : q b) :
    Says isRefusal (l.foldlM f b) (l.flatMap v) q := by
  induction l generalizing b with
  | nil => exact ok hb
  | cons a l ih =>
    rw [List.foldlM_cons, List.flatMap_cons]
    exact (h b hb a List.mem_cons_self).bind fun b' hb' =>
      ih (fun b hb c hc => h b hb c (List.mem_cons_of_mem _ hc)) hb'

end Says

end Storage
