import Mss.Lib.Refusals

/-!
# Writes that may fail

A write returns or raises, and leaves its store in a state. In a transaction one that raises leaves
the state that it found. A bulk of writes, each on its own, stops at the first that raises and keeps
what those before it wrote.

* `Outcome`: what a write comes to; **`Outcome.Unchanged`**: an error of a kind changed nothing.
* `transact`: a transaction; `unchanged_transact`.
* `writeEach`: a bulk; **`writeEach_error`**: where it stopped; `unchanged_writeEach_iff`: it
  changed nothing if nothing before the write that raised had.
-/

namespace Storage

variable {ε ε' σ α β X : Type}

/-- What a write comes to: what it returns or raises, and the state that it leaves. -/
structure Outcome (ε σ α : Type) where
  result : Except ε α
  state : σ

namespace Outcome

/-- A write that was refused before it began. -/
def refuse (e : ε) (s : σ) : Outcome ε σ α := ⟨.error e, s⟩

/-- Rename the errors. -/
def mapError (f : ε → ε') (o : Outcome ε σ α) : Outcome ε' σ α := ⟨o.result.mapError f, o.state⟩

/-- **An error of a kind changed nothing.** -/
def Unchanged (kind : ε → Prop) (s : σ) (o : Outcome ε σ α) : Prop :=
  ∀ e, o.result = .error e → kind e → o.state = s

variable {kind : ε → Prop} {s : σ}

theorem unchanged_refuse (e : ε) : (refuse e s : Outcome ε σ α).Unchanged kind s :=
  fun _ _ _ => rfl

theorem unchanged_ok (a : α) (s' : σ) : (⟨.ok a, s'⟩ : Outcome ε σ α).Unchanged kind s :=
  fun _ h _ => by cases h

theorem unchanged_error_iff {e : ε} {s' : σ} :
    (⟨.error e, s'⟩ : Outcome ε σ α).Unchanged kind s ↔ (kind e → s' = s) :=
  ⟨fun h hkind => h e rfl hkind, fun h _ he hkind => by cases he; exact h hkind⟩

end Outcome

/-! ## Transactions -/

/-- **A transaction**: one that raises leaves the state that it found. -/
def transact (body : σ → Except ε (α × σ)) (s : σ) : Outcome ε σ α :=
  match body s with
  | .ok (a, s') => ⟨.ok a, s'⟩
  | .error e => .refuse e s

theorem unchanged_transact {kind : ε → Prop} (body : σ → Except ε (α × σ)) (s : σ) :
    (transact body s).Unchanged kind s := by
  unfold transact
  split
  · exact Outcome.unchanged_ok _ _
  · exact Outcome.unchanged_refuse _

theorem transact_ok {body : σ → Except ε (α × σ)} {s : σ} {a : α}
    (h : (transact body s).result = .ok a) : body s = .ok (a, (transact body s).state) := by
  unfold transact at h ⊢
  split at h
  · rename_i hbody
    cases h
    rw [hbody]
  · cases h

/-! ## Bulks -/

/-- **A bulk of writes**: one after another, up to the first that raises. -/
def writeEach (write : σ → X → Except ε σ) : List X → σ → Outcome ε σ Unit
  | [], s => ⟨.ok (), s⟩
  | x :: xs, s =>
    match write s x with
    | .ok s' => writeEach write xs s'
    | .error e => .refuse e s

section

variable {write : σ → X → Except ε σ}

theorem writeEach_ok {xs : List X} {s : σ} (h : (writeEach write xs s).result = .ok ()) :
    xs.foldlM write s = .ok (writeEach write xs s).state := by
  induction xs generalizing s with
  | nil => rfl
  | cons x xs ih =>
    rw [List.foldlM_cons]
    unfold writeEach at h ⊢
    cases hwrite : write s x with
    | ok s' =>
      rw [hwrite] at h
      exact ih h
    | error e =>
      rw [hwrite] at h
      cases h

/-- **Where a bulk stopped**: the writes before were done, and the next raised. -/
theorem writeEach_error {xs : List X} {s : σ} {e : ε}
    (h : (writeEach write xs s).result = .error e) :
    ∃ earlier x later, xs = earlier ++ x :: later ∧
      earlier.foldlM write s = .ok (writeEach write xs s).state ∧
      write (writeEach write xs s).state x = .error e := by
  induction xs generalizing s with
  | nil => cases h
  | cons x xs ih =>
    unfold writeEach at h ⊢
    cases hwrite : write s x with
    | ok s' =>
      rw [hwrite] at h
      obtain ⟨earlier, y, later, rfl, hearlier, hy⟩ := ih h
      refine ⟨x :: earlier, y, later, rfl, ?_, hy⟩
      rw [List.foldlM_cons, hwrite]
      exact hearlier
    | error e' =>
      rw [hwrite] at h
      cases h
      exact ⟨[], x, xs, rfl, rfl, hwrite⟩

theorem writeEach_invariant {p : σ → Prop} (hwrite : ∀ s x s', write s x = .ok s' → p s → p s')
    (xs : List X) {s : σ} (hs : p s) : p (writeEach write xs s).state := by
  induction xs generalizing s with
  | nil => exact hs
  | cons x xs ih =>
    unfold writeEach
    cases hx : write s x with
    | ok s' => exact ih (hwrite s x s' hx hs)
    | error e => exact hs

theorem writeEach_of_error (later : List X) {earlier : List X} {x : X} {s s' : σ} {e : ε}
    (hearlier : earlier.foldlM write s = .ok s') (hx : write s' x = .error e) :
    writeEach write (earlier ++ x :: later) s = ⟨.error e, s'⟩ := by
  induction earlier generalizing s with
  | nil =>
    cases hearlier
    rw [List.nil_append, writeEach, hx]
    rfl
  | cons y earlier ih =>
    rw [List.foldlM_cons] at hearlier
    obtain ⟨s₁, hy, hrest⟩ := bind_ok hearlier
    rw [List.cons_append, writeEach, hy]
    exact ih hrest

/-- **What a bulk has done**: the first of its writes, of which it has done no more before it
raised. -/
theorem writeEach_done (xs : List X) (s : σ) :
    ∃ done, done <+: xs ∧ done.foldlM write s = .ok (writeEach write xs s).state ∧
      ∀ done' s', done' <+: xs → done'.foldlM write s = .ok s' → done' <+: done := by
  cases hresult : (writeEach write xs s).result with
  | ok u => exact ⟨xs, List.prefix_rfl, writeEach_ok hresult, fun _ _ hprefix _ => hprefix⟩
  | error e =>
    obtain ⟨earlier, x, later, rfl, hearlier, hx⟩ := writeEach_error hresult
    refine ⟨earlier, List.prefix_append _ _, hearlier, fun done' s' hprefix hdone => ?_⟩
    obtain hshort | hlong := List.prefix_or_prefix_of_prefix hprefix (List.prefix_append _ _)
    · exact hshort
    · obtain ⟨rest, rfl⟩ := hlong
      cases rest with
      | nil => simp
      | cons y rest =>
        -- the bulk would go on past the write that raised
        rw [List.prefix_append_right_inj, List.cons_prefix_cons] at hprefix
        obtain rfl := hprefix.1
        rw [foldlM_of_error hearlier hx] at hdone
        cases hdone

/-- **A bulk that raises changed nothing** if the writes before the one that raised changed
nothing. -/
theorem unchanged_writeEach_iff {kind : ε → Prop} {xs : List X} {s : σ} :
    (writeEach write xs s).Unchanged kind s ↔
      ∀ earlier x later s' e, xs = earlier ++ x :: later → earlier.foldlM write s = .ok s' →
        write s' x = .error e → kind e → s' = s := by
  constructor
  · rintro h earlier x later s' e rfl hearlier hx hkind
    have hstop := writeEach_of_error later hearlier hx
    have := h e (by rw [hstop]) hkind
    rwa [hstop] at this
  · intro h e he hkind
    obtain ⟨earlier, x, later, hxs, hearlier, hx⟩ := writeEach_error he
    exact h earlier x later _ e hxs hearlier hx hkind

end

end Storage
