import Mathlib.Data.List.Basic

/-!
# Patterns of a backtracking matcher

A pattern is tried at each place of a text, from the first. There its ways to match are tried in order:
as many letters as there are before fewer, and something optional before nothing.

* `Pattern`, `Match`: a pattern with numbered groups, and one way to match.
* **`tries`**: the ways to match at the start of a text, in the order in which they are tried.
* **`exec`**: the first way to match at the first place where there is one.
* `First`, with a rule for each kind of pattern: what is tried first;
  **`exec_of_first`**: it is what is found, where the start of the text matches.
-/

namespace Regex

/-- **A pattern**: a letter of a kind, one letter or more of a kind, one pattern and another, a group
with its number, and an optional pattern. -/
inductive Pattern
  | letter (p : Char → Bool)
  | run (p : Char → Bool)
  | seq (r s : Pattern)
  | group (i : ℕ) (r : Pattern)
  | maybe (r : Pattern)

/-- **A way to match**: the text taken, the texts of groups, and what follows. -/
structure Match where
  text : List Char
  groups : List (ℕ × List Char)
  rest : List Char
  deriving DecidableEq, Repr

namespace Match

/-- One match, and another after it. -/
def andThen (m m' : Match) : Match := ⟨m.text ++ m'.text, m.groups ++ m'.groups, m'.rest⟩

/-- The text of a group, if it took part. -/
def group (m : Match) (i : ℕ) : Option (List Char) := m.groups.lookup i

end Match

/-- The letters of a kind at the start of a text, as many as there are first, and what follows. -/
def runs (p : Char → Bool) : List Char → List (List Char × List Char)
  | [] => []
  | c :: l => if p c then (runs p l).map (fun x => (c :: x.1, x.2)) ++ [([c], l)] else []

/-- **The ways to match** at the start of a text, in the order in which they are tried. -/
def tries : Pattern → List Char → List Match
  | .letter _, [] => []
  | .letter p, c :: l => if p c then [⟨[c], [], l⟩] else []
  | .run p, l => (runs p l).map fun x => ⟨x.1, [], x.2⟩
  | .seq r s, l => (tries r l).flatMap fun m => (tries s m.rest).map m.andThen
  | .group i r, l => (tries r l).map fun m => { m with groups := m.groups ++ [(i, m.text)] }
  | .maybe r, l => (tries r l).filter (fun m => !m.text.isEmpty) ++ [⟨[], [], l⟩]

@[simp] theorem tries_letter_cons (p : Char → Bool) (c : Char) (l : List Char) :
    tries (.letter p) (c :: l) = if p c then [⟨[c], [], l⟩] else [] := rfl

@[simp] theorem tries_run (p : Char → Bool) (l : List Char) :
    tries (.run p) l = (runs p l).map fun x => ⟨x.1, [], x.2⟩ := rfl

@[simp] theorem tries_seq (r s : Pattern) (l : List Char) :
    tries (.seq r s) l = (tries r l).flatMap fun m => (tries s m.rest).map m.andThen := rfl

@[simp] theorem tries_group (i : ℕ) (r : Pattern) (l : List Char) :
    tries (.group i r) l = (tries r l).map fun m =>
      { m with groups := m.groups ++ [(i, m.text)] } := rfl

@[simp] theorem tries_maybe (r : Pattern) (l : List Char) :
    tries (.maybe r) l = (tries r l).filter (fun m => !m.text.isEmpty) ++ [⟨[], [], l⟩] := rfl

/-- **What a search finds**: the first way to match, at the first place where there is one. -/
def exec (r : Pattern) (l : List Char) : Option Match := l.tails.findSome? fun t => (tries r t).head?

/-! ## What is tried first -/

/-- This way to match is the first that is tried. -/
def First (r : Pattern) (l : List Char) (m : Match) : Prop := (tries r l).head? = some m

variable {p : Char → Bool} {r s : Pattern} {l : List Char} {m m' : Match}

theorem exec_of_first (h : First r l m) : exec r l = some m := by
  have hhead : (tries r l).head? = some m := h
  cases l with
  | nil => rw [exec, List.tails, List.findSome?_cons, hhead]
  | cons c l => rw [exec, List.tails, List.findSome?_cons, hhead]

namespace First

theorem letter {c : Char} (hc : p c = true) : First (.letter p) (c :: l) ⟨[c], [], l⟩ := by
  rw [First, tries_letter_cons, if_pos hc]
  rfl

theorem seq (h : First r l m) (h' : First s m.rest m') : First (.seq r s) l (m.andThen m') := by
  obtain ⟨after, hr⟩ := List.head?_eq_some_iff.mp h
  obtain ⟨after', hs⟩ := List.head?_eq_some_iff.mp h'
  rw [First, tries_seq, hr, List.flatMap_cons, hs]
  rfl

theorem group {i : ℕ} (h : First r l m) :
    First (.group i r) l { m with groups := m.groups ++ [(i, m.text)] } := by
  rw [First, tries_group, List.head?_map, h]
  rfl

theorem maybe (h : First r l m) (hm : m.text ≠ []) : First (.maybe r) l m := by
  obtain ⟨after, hr⟩ := List.head?_eq_some_iff.mp h
  rw [First, tries_maybe, hr, List.filter_cons_of_pos (by simpa using hm)]
  rfl

theorem skip (h : tries r l = []) : First (.maybe r) l ⟨[], [], l⟩ := by
  rw [First, tries_maybe, h]
  rfl

end First

theorem head?_runs {before rest : List Char} (hne : before ≠ []) (hbefore : ∀ c ∈ before, p c = true)
    (hrest : ∀ c ∈ rest.head?, p c = false) :
    (runs p (before ++ rest)).head? = some (before, rest) := by
  induction before with
  | nil => exact absurd rfl hne
  | cons c before ih =>
    rw [List.cons_append, runs, if_pos (hbefore c List.mem_cons_self)]
    cases before with
    | nil =>
      have hnone : runs p rest = [] := by
        cases rest with
        | nil => rfl
        | cons d rest =>
          have hd := hrest d rfl
          rw [runs, if_neg (by simp [hd])]
      rw [List.nil_append, hnone]
      rfl
    | cons d before =>
      have hfirst := ih (List.cons_ne_nil _ _) fun c hc => hbefore c (List.mem_cons_of_mem _ hc)
      rw [List.head?_append, List.head?_map, hfirst]
      rfl

theorem First.run {before rest : List Char} (hne : before ≠ [])
    (hbefore : ∀ c ∈ before, p c = true) (hrest : ∀ c ∈ rest.head?, p c = false) :
    First (.run p) (before ++ rest) ⟨before, [], rest⟩ := by
  rw [First, tries_run, List.head?_map, head?_runs hne hbefore hrest]
  rfl

/-! ## What does not match -/

theorem tries_letter_of_head (h : ∀ c ∈ l.head?, p c = false) : tries (.letter p) l = [] := by
  cases l with
  | nil => rfl
  | cons c l =>
    have hc := h c rfl
    rw [tries_letter_cons, if_neg (by simp [hc])]

theorem tries_seq_of_left (h : tries r l = []) : tries (.seq r s) l = [] := by
  rw [tries_seq, h]
  rfl

theorem tries_seq_letter {c : Char} (h : tries s l = []) : tries (.seq (.letter p) s) (c :: l) = [] := by
  rw [tries_seq, tries_letter_cons]
  split_ifs
  · rw [List.flatMap_cons, h]
    rfl
  · rfl

theorem tries_group_of_eq_nil {i : ℕ} (h : tries r l = []) : tries (.group i r) l = [] := by
  rw [tries_group, h]
  rfl

end Regex
