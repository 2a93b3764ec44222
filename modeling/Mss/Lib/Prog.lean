import Mathlib.Logic.Function.Basic

/-!
# Programs over atomic operations

A program calls operations one at a time and goes on with each answer. Nothing here fixes the
operations: they are the elements of a type `Op`, and `Resp o` is what `o` answers.

* `Prog`: a program returns, raises, or calls an operation; `Prog.run` runs it alone on a store.
* `Prog.Calls`: every operation the program may call has a property, whatever the answers are;
  `Prog.run_invariant`: what every operation keeps, the program keeps.
* `Protocol`, **`Prog.Follows`**: a phase per program, moved by its events; under assumptions on
  the answers, every event is one the phase allows and the program ends as the phase says.
* `Prog.follows_bind`, `Prog.follows_tryCatch`, `Prog.follows_silent`: the rules that take a
  program apart.
-/

namespace Atomic

variable {Op : Type} {Resp : Op → Type} {ε α β : Type}

/-- An operation called, with its answer. -/
abbrev Event (Resp : Op → Type) : Type := Σ o, Resp o

/-- **A program**: it returns, raises, or calls an operation and goes on with the answer. -/
inductive Prog (Resp : Op → Type) (ε α : Type) : Type
  | ret (a : α)
  | raise (e : ε)
  | call (o : Op) (k : Resp o → Prog Resp ε α)

namespace Prog

/-- Go on with the value returned. -/
def bind : Prog Resp ε α → (α → Prog Resp ε β) → Prog Resp ε β
  | .ret a, f => f a
  | .raise e, _ => .raise e
  | .call o k, f => .call o fun r => (k r).bind f

/-- Go on with the error raised. -/
def handle : Prog Resp ε α → (ε → Prog Resp ε α) → Prog Resp ε α
  | .ret a, _ => .ret a
  | .raise e, h => h e
  | .call o k, h => .call o fun r => (k r).handle h

instance : Monad (Prog Resp ε) where
  pure := .ret
  bind := bind

instance : MonadExcept ε (Prog Resp ε) where
  throw := .raise
  tryCatch := handle

/-- Call one operation and return its answer. -/
def perform (o : Op) : Prog Resp ε (Resp o) := .call o .ret

@[simp] theorem ofExcept_ok (a : α) : (ofExcept (.ok a) : Prog Resp ε α) = .ret a := rfl
@[simp] theorem ofExcept_error (e : ε) : (ofExcept (.error e) : Prog Resp ε α) = .raise e := rfl

@[simp] theorem pure_eq (a : α) : (pure a : Prog Resp ε α) = .ret a := rfl
@[simp] theorem throw_eq (e : ε) : (throw e : Prog Resp ε α) = .raise e := rfl

@[simp] theorem ret_bind (a : α) (f : α → Prog Resp ε β) : (Prog.ret a >>= f) = f a := rfl

@[simp] theorem raise_bind (e : ε) (f : α → Prog Resp ε β) :
    (Prog.raise e >>= f) = .raise e := rfl

@[simp] theorem call_bind (o : Op) (k : Resp o → Prog Resp ε α) (f : α → Prog Resp ε β) :
    (Prog.call o k >>= f) = .call o fun r => k r >>= f := rfl

@[simp] theorem perform_bind (o : Op) (f : Resp o → Prog Resp ε β) :
    (perform o >>= f) = .call o f := rfl

@[simp] theorem tryCatch_ret (a : α) (h : ε → Prog Resp ε α) :
    tryCatch (.ret a) h = Prog.ret a := rfl

@[simp] theorem tryCatch_raise (e : ε) (h : ε → Prog Resp ε α) :
    tryCatch (.raise e) h = h e := rfl

@[simp] theorem tryCatch_call (o : Op) (k : Resp o → Prog Resp ε α) (h : ε → Prog Resp ε α) :
    tryCatch (.call o k) h = Prog.call o fun r => tryCatch (k r) h := rfl

theorem bind_assoc {γ : Type} (p : Prog Resp ε α) (f : α → Prog Resp ε β)
    (g : β → Prog Resp ε γ) : (p >>= f) >>= g = p >>= fun a => f a >>= g := by
  induction p with
  | ret a => rfl
  | raise e => rfl
  | call o k ih => simp only [call_bind, ih]

theorem bind_ret (p : Prog Resp ε α) : p >>= Prog.ret = p := by
  induction p with
  | ret a => rfl
  | raise e => rfl
  | call o k ih => simp only [call_bind, ih]

/-- The program has nothing left to call. -/
def Done : Prog Resp ε α → Prop
  | .ret _ => True
  | .raise _ => True
  | .call _ _ => False

instance : (p : Prog Resp ε α) → Decidable p.Done
  | .ret _ => .isTrue trivial
  | .raise _ => .isTrue trivial
  | .call _ _ => .isFalse id

/-- The program has returned. -/
def HasReturned : Prog Resp ε α → Prop
  | .ret _ => True
  | .raise _ => False
  | .call _ _ => False

instance : (p : Prog Resp ε α) → Decidable p.HasReturned
  | .ret _ => .isTrue trivial
  | .raise _ => .isFalse id
  | .call _ _ => .isFalse id

/-- The program never raises. -/
def Returns : Prog Resp ε α → Prop
  | .ret _ => True
  | .raise _ => False
  | .call _ k => ∀ r, (k r).Returns

theorem returns_perform (o : Op) : (perform o : Prog Resp ε (Resp o)).Returns := fun _ => trivial

theorem returns_bind {p : Prog Resp ε α} {f : α → Prog Resp ε β} (hp : p.Returns)
    (hf : ∀ a, (f a).Returns) : (p >>= f).Returns := by
  induction p with
  | ret a => exact hf a
  | raise e => exact hp.elim
  | call o k ih => exact fun r => ih r (hp r)

/-! ## Running alone -/

section Run

variable {σ : Type} (exec : ∀ o : Op, σ → Resp o × σ)

/-- Run the program on a store, with nothing else running. -/
def run : Prog Resp ε α → σ → Except ε α × σ
  | .ret a, s => (.ok a, s)
  | .raise e, s => (.error e, s)
  | .call o k, s => (k (exec o s).1).run (exec o s).2

@[simp] theorem run_ret (a : α) (s : σ) :
    (Prog.ret a : Prog Resp ε α).run exec s = (.ok a, s) := rfl

@[simp] theorem run_raise (e : ε) (s : σ) :
    (Prog.raise e : Prog Resp ε α).run exec s = (.error e, s) := rfl

@[simp] theorem run_call (o : Op) (k : Resp o → Prog Resp ε α) (s : σ) :
    (Prog.call o k).run exec s = (k (exec o s).1).run exec (exec o s).2 := rfl

@[simp] theorem run_perform (o : Op) (s : σ) :
    (perform o : Prog Resp ε (Resp o)).run exec s = (.ok (exec o s).1, (exec o s).2) := rfl

theorem run_bind (p : Prog Resp ε α) (f : α → Prog Resp ε β) (s : σ) :
    (p >>= f).run exec s = match p.run exec s with
      | (.ok a, s') => (f a).run exec s'
      | (.error e, s') => (.error e, s') := by
  induction p generalizing s with
  | ret a => rfl
  | raise e => rfl
  | call o k ih => rw [call_bind, run_call, ih, run_call]

theorem run_discard_snd (p : Prog Resp ε α) (b : β) (s : σ) :
    ((p >>= fun _ => Prog.ret b).run exec s).2 = (p.run exec s).2 := by
  rw [run_bind]
  rcases p.run exec s with ⟨res, s'⟩
  cases res <;> rfl

theorem run_tryCatch (p : Prog Resp ε α) (h : ε → Prog Resp ε α) (s : σ) :
    (tryCatch p h).run exec s = match p.run exec s with
      | (.ok a, s') => (.ok a, s')
      | (.error e, s') => (h e).run exec s' := by
  induction p generalizing s with
  | ret a => rfl
  | raise e => rfl
  | call o k ih => rw [tryCatch_call, run_call, ih, run_call]

theorem run_of_returns {p : Prog Resp ε α} (hp : p.Returns) (s : σ) :
    ∃ a, (p.run exec s).1 = .ok a := by
  induction p generalizing s with
  | ret a => exact ⟨a, rfl⟩
  | raise e => exact hp.elim
  | call o k ih => exact ih _ (hp _) _

end Run

/-! ## The operations a program may call -/

/-- Every operation the program may call satisfies `P`. -/
def Calls (P : Op → Prop) : Prog Resp ε α → Prop
  | .ret _ => True
  | .raise _ => True
  | .call o k => P o ∧ ∀ r, (k r).Calls P

section Calls

variable {P : Op → Prop}

@[simp] theorem calls_ret (a : α) : (Prog.ret a : Prog Resp ε α).Calls P := trivial
@[simp] theorem calls_raise (e : ε) : (Prog.raise e : Prog Resp ε α).Calls P := trivial

@[simp] theorem calls_call (o : Op) (k : Resp o → Prog Resp ε α) :
    (Prog.call o k).Calls P ↔ P o ∧ ∀ r, (k r).Calls P := Iff.rfl

@[simp] theorem calls_perform (o : Op) : (perform o : Prog Resp ε (Resp o)).Calls P ↔ P o :=
  ⟨fun h => h.1, fun h => ⟨h, fun _ => trivial⟩⟩

theorem calls_ofExcept (r : Except ε α) : (ofExcept r : Prog Resp ε α).Calls P := by
  cases r <;> trivial

theorem calls_bind {p : Prog Resp ε α} {f : α → Prog Resp ε β} (hp : p.Calls P)
    (hf : ∀ a, (f a).Calls P) : (p >>= f).Calls P := by
  induction p with
  | ret a => exact hf a
  | raise e => trivial
  | call o k ih => exact ⟨hp.1, fun r => ih r (hp.2 r)⟩

theorem calls_tryCatch {p : Prog Resp ε α} {h : ε → Prog Resp ε α} (hp : p.Calls P)
    (hh : ∀ e, (h e).Calls P) : (tryCatch p h).Calls P := by
  induction p with
  | ret a => trivial
  | raise e => exact hh e
  | call o k ih => exact ⟨hp.1, fun r => ih r (hp.2 r)⟩

theorem Calls.mono {Q : Op → Prop} (hPQ : ∀ o, P o → Q o) {p : Prog Resp ε α} (hp : p.Calls P) :
    p.Calls Q := by
  induction p with
  | ret a => trivial
  | raise e => trivial
  | call o k ih => exact ⟨hPQ o hp.1, fun r => ih r (hp.2 r)⟩

/-- **What every operation keeps, a program keeps.** -/
theorem run_invariant {σ : Type} {exec : ∀ o : Op, σ → Resp o × σ} {I : σ → Prop}
    {p : Prog Resp ε α} (hp : p.Calls fun o => ∀ s, I s → I (exec o s).2) {s : σ} (hs : I s) :
    I (p.run exec s).2 := by
  induction p generalizing s with
  | ret a => exact hs
  | raise e => exact hs
  | call o k ih => exact ih _ (hp.2 _) (hp.1 s hs)

/-- **Two runs from related stores** answer alike, if every operation does and keeps them related. -/
theorem run_congr {σ : Type} {exec : ∀ o : Op, σ → Resp o × σ} {R : σ → σ → Prop}
    {p : Prog Resp ε α} (hp : p.Calls fun o => ∀ s t, R s t →
      (exec o s).1 = (exec o t).1 ∧ R (exec o s).2 (exec o t).2) {s t : σ} (hst : R s t) :
    (p.run exec s).1 = (p.run exec t).1 ∧ R (p.run exec s).2 (p.run exec t).2 := by
  induction p generalizing s t with
  | ret a => exact ⟨rfl, hst⟩
  | raise e => exact ⟨rfl, hst⟩
  | call o k ih =>
    obtain ⟨hresp, hafter⟩ := hp.1 s t hst
    rw [run_call, run_call, hresp]
    exact ih _ (hp.2 _) hafter

theorem run_bind_invariant {σ : Type} {exec : ∀ o : Op, σ → Resp o × σ} {I : σ → Prop}
    {p : Prog Resp ε α} {f : α → Prog Resp ε β} {s : σ} (hp : I (p.run exec s).2)
    (hf : ∀ a, (f a).Calls fun o => ∀ s, I s → I (exec o s).2) :
    I ((p >>= f).run exec s).2 := by
  rw [run_bind]
  split
  · next a s' hs =>
    rw [hs] at hp
    exact run_invariant (hf a) hp
  · next e s' hs =>
    rw [hs] at hp
    exact hp

end Calls

end Prog

/-! ## Protocols -/

/-- **A protocol**: a phase moved by the program's events, the answers assumed in each phase, the
events allowed in it, and how the program may end in it. -/
structure Protocol (Resp : Op → Type) (ε α M : Type) where
  next : M → Event Resp → M
  assumes : M → Event Resp → Prop
  allows : M → Event Resp → Prop
  ends : M → Except ε α → Prop

namespace Prog

variable {M : Type}

/-- **The program follows the protocol** from phase `m` on, whatever the assumed answers are. -/
def Follows (P : Protocol Resp ε α M) : M → Prog Resp ε α → Prop
  | m, .ret a => P.ends m (.ok a)
  | m, .raise e => P.ends m (.error e)
  | m, .call o k => ∀ r, P.assumes m ⟨o, r⟩ →
      P.allows m ⟨o, r⟩ ∧ Follows P (P.next m ⟨o, r⟩) (k r)

variable {P : Protocol Resp ε α M} {m : M}

@[simp] theorem follows_ret {a : α} : Follows P m (.ret a) ↔ P.ends m (.ok a) := Iff.rfl
@[simp] theorem follows_raise {e : ε} : Follows P m (.raise e) ↔ P.ends m (.error e) := Iff.rfl

@[simp] theorem follows_call {o : Op} {k : Resp o → Prog Resp ε α} :
    Follows P m (.call o k) ↔ ∀ r, P.assumes m ⟨o, r⟩ →
      P.allows m ⟨o, r⟩ ∧ Follows P (P.next m ⟨o, r⟩) (k r) := Iff.rfl

theorem follows_perform_bind {P : Protocol Resp ε β M} {o : Op} {f : Resp o → Prog Resp ε β} :
    Follows P m (perform o >>= f) ↔ ∀ r, P.assumes m ⟨o, r⟩ →
      P.allows m ⟨o, r⟩ ∧ Follows P (P.next m ⟨o, r⟩) (f r) := Iff.rfl

/-- The protocol of a first part: it ends where the second part follows `P`. -/
def untilBind (P : Protocol Resp ε β M) (f : α → Prog Resp ε β) : Protocol Resp ε α M where
  next := P.next
  assumes := P.assumes
  allows := P.allows
  ends m
    | .ok a => Follows P m (f a)
    | .error e => P.ends m (.error e)

theorem follows_bind {P : Protocol Resp ε β M} {p : Prog Resp ε α} {f : α → Prog Resp ε β}
    (h : Follows (untilBind P f) m p) : Follows P m (p >>= f) := by
  induction p generalizing m with
  | ret a => exact h
  | raise e => exact h
  | call o k ih => exact fun r hr => ⟨(h r hr).1, ih r (h r hr).2⟩

theorem follows_ofExcept_bind {P : Protocol Resp ε β M} {r : Except ε α}
    {f : α → Prog Resp ε β} (hraise : ∀ e, P.ends m (.error e))
    (hf : ∀ a, r = .ok a → Follows P m (f a)) : Follows P m (ofExcept r >>= f) := by
  cases r with
  | ok a => exact hf a rfl
  | error e => exact hraise e

/-- The protocol of a handled part: it ends as `P` says, or where the handler follows `P`. -/
def untilHandle (P : Protocol Resp ε α M) (h : ε → Prog Resp ε α) : Protocol Resp ε α M where
  next := P.next
  assumes := P.assumes
  allows := P.allows
  ends m
    | .ok a => P.ends m (.ok a)
    | .error e => Follows P m (h e)

theorem follows_tryCatch {p : Prog Resp ε α} {h : ε → Prog Resp ε α}
    (hp : Follows (untilHandle P h) m p) : Follows P m (tryCatch p h) := by
  induction p generalizing m with
  | ret a => exact hp
  | raise e => exact hp
  | call o k ih => exact fun r hr => ⟨(hp r hr).1, ih r (hp r hr).2⟩

/-- **A handler that only raises may be put around a program** whose errors all end alike. -/
theorem follows_tryCatch_of_raises {p : Prog Resp ε α} {h : ε → Prog Resp ε α}
    (hp : Follows P m p) (hh : ∀ e, ∃ e', h e = .raise e')
    (hends : ∀ m e e', P.ends m (.error e) → P.ends m (.error e')) :
    Follows P m (tryCatch p h) := by
  refine follows_tryCatch ?_
  induction p generalizing m with
  | ret a => exact hp
  | raise e =>
    obtain ⟨e', he'⟩ := hh e
    change Follows P m (h e)
    rw [he']
    exact hends m e e' hp
  | call o k ih => exact fun r hr => ⟨(hp r hr).1, ih r (hp r hr).2⟩

/-- An operation that moves no phase and that every phase allows. -/
def Silent (P : Protocol Resp ε α M) (o : Op) : Prop :=
  ∀ m r, P.allows m ⟨o, r⟩ ∧ P.next m ⟨o, r⟩ = m

/-- **A program of silent operations follows the protocol** if its phase may end. -/
theorem follows_silent {p : Prog Resp ε α} (hp : p.Calls (Silent P))
    (hends : ∀ res, P.ends m res) : Follows P m p := by
  induction p with
  | ret a => exact hends _
  | raise e => exact hends _
  | call o k ih =>
    refine fun r _ => ⟨(hp.1 m r).1, ?_⟩
    rw [(hp.1 m r).2]
    exact ih r (hp.2 r)

theorem follows_silent_of_returns {p : Prog Resp ε α} (hp : p.Calls (Silent P)) (hr : p.Returns)
    (hends : ∀ a, P.ends m (.ok a)) : Follows P m p := by
  induction p with
  | ret a => exact hends a
  | raise e => exact hr.elim
  | call o k ih =>
    refine fun r _ => ⟨(hp.1 m r).1, ?_⟩
    rw [(hp.1 m r).2]
    exact ih r (hp.2 r) (hr r)

theorem Follows.imp_ends {ends : M → Except ε α → Prop} {p : Prog Resp ε α}
    (hp : Follows P m p) (hends : ∀ m res, P.ends m res → ends m res) :
    Follows { P with ends } m p := by
  induction p generalizing m with
  | ret a => exact hends _ _ hp
  | raise e => exact hends _ _ hp
  | call o k ih => exact fun r hr => ⟨(hp r hr).1, ih r (hp r hr).2⟩

/-- **Silent operations may go first.** -/
theorem follows_silent_bind {P : Protocol Resp ε β M} {p : Prog Resp ε α}
    {f : α → Prog Resp ε β} (hp : p.Calls (Silent P)) (hraise : ∀ e, P.ends m (.error e))
    (hf : ∀ a, Follows P m (f a)) : Follows P m (p >>= f) := by
  refine follows_bind (follows_silent (P := untilBind P f) hp fun res => ?_)
  cases res with
  | ok a => exact hf a
  | error e => exact hraise e

end Prog

end Atomic
