import Mathlib.Data.List.Forall2
import Mathlib.Data.List.Infix

/-!
# Text that holds a text

What it is for a text to hold another, up to a comparison of letters, and the patterns of `LIKE`:
`%` for any text, `_` for any letter, and an escape character before a letter taken as it is.

* `Holds`: some piece of the text compares, letter for letter, with the text looked for.
* `LikeToken`, `parseLike`, `likeMatches`: a pattern, and the texts it matches.
* `escapeLike`: the wildcards and the escape character of a text, escaped.
* **`likeMatches_escapeLike`**: the pattern of an escaped text between two `%` matches the texts
  that hold it.
* **`holds_congr_iff`**: two comparisons find a text alike exactly if they take its letters alike.
-/

namespace Storage

variable (same : Char → Char → Bool)

/-- **The text holds `t`**: some piece of it compares with `t` letter for letter. -/
def Holds (t s : List Char) : Prop :=
  ∃ before piece after, s = before ++ piece ++ after ∧ List.Forall₂ (same · ·) t piece

/-- What a pattern asks for, one after the other. -/
inductive LikeToken
  | anyText
  | anyLetter
  | letter (c : Char)
  deriving DecidableEq, Repr

/-- Read a pattern, a letter after the escape character as it is. -/
def parseLike (escape : Char) : List Char → List LikeToken
  | [] => []
  | [c] => if c = '%' then [.anyText] else if c = '_' then [.anyLetter] else [.letter c]
  | c :: d :: cs =>
    if c = escape then .letter d :: parseLike escape cs
    else if c = '%' then .anyText :: parseLike escape (d :: cs)
    else if c = '_' then .anyLetter :: parseLike escape (d :: cs)
    else .letter c :: parseLike escape (d :: cs)

/-- The pattern matches the whole text. -/
def likeMatches : List LikeToken → List Char → Bool
  | [], s => s.isEmpty
  | .letter c :: p, x :: s => same c x && likeMatches p s
  | .anyLetter :: p, _ :: s => likeMatches p s
  | .anyText :: p, s => s.tails.any (likeMatches p)
  | _ :: _, [] => false

/-- Put another text in the place of a letter. -/
def replaceLetter (c : Char) (text : List Char) (s : List Char) : List Char :=
  s.flatMap fun x => if x = c then text else [x]

/-- Escape the escape character, then the wildcards. -/
def escapeLike (text : List Char) : List Char :=
  replaceLetter '_' ['\\', '_'] (replaceLetter '%' ['\\', '%'] (replaceLetter '\\' ['\\', '\\'] text))

/-- A letter, escaped where a pattern would not take it as it is. -/
def escapeLetter (c : Char) : List Char :=
  if c = '\\' ∨ c = '%' ∨ c = '_' then ['\\', c] else [c]

theorem escapeLike_eq (text : List Char) : escapeLike text = text.flatMap escapeLetter := by
  induction text with
  | nil => rfl
  | cons c text ih =>
    have hc : escapeLike [c] = escapeLetter c := by
      by_cases hs : c = '\\'
      · subst hs
        decide
      by_cases hp : c = '%'
      · subst hp
        decide
      by_cases hu : c = '_'
      · subst hu
        decide
      simp [escapeLike, escapeLetter, replaceLetter, hs, hp, hu]
    have happ : escapeLike (c :: text) = escapeLike [c] ++ escapeLike text := by
      simp [escapeLike, replaceLetter]
    rw [happ, hc, ih, List.flatMap_cons]

theorem parseLike_flatMap (text : List Char) :
    parseLike '\\' (text.flatMap escapeLetter ++ ['%']) = text.map .letter ++ [.anyText] := by
  induction text with
  | nil => rfl
  | cons c text ih =>
    rw [List.flatMap_cons, List.append_assoc, List.map_cons, List.cons_append, ← ih]
    by_cases hc : c = '\\' ∨ c = '%' ∨ c = '_'
    · simp [escapeLetter, hc, parseLike]
    · -- the letter stands alone, and something follows it
      obtain ⟨d, cs, hrest⟩ : ∃ d cs, text.flatMap escapeLetter ++ ['%'] = d :: cs := by
        cases h : text.flatMap escapeLetter ++ ['%'] with
        | nil => simp at h
        | cons d cs => exact ⟨d, cs, rfl⟩
      obtain ⟨hs, hp, hu⟩ := not_or.mp hc |>.imp_right not_or.mp
      rw [hrest]
      simp [escapeLetter, parseLike, hs, hp, hu]

theorem likeMatches_letters {t s : List Char} :
    likeMatches same (t.map .letter ++ [.anyText]) s = true ↔
      ∃ piece after, s = piece ++ after ∧ List.Forall₂ (same · ·) t piece := by
  induction t generalizing s with
  | nil =>
    refine ⟨fun _ => ⟨[], s, rfl, .nil⟩, fun _ => ?_⟩
    simp only [List.map_nil, List.nil_append, likeMatches, List.any_eq_true, List.mem_tails]
    exact ⟨[], List.nil_suffix, rfl⟩
  | cons c t ih =>
    cases s with
    | nil =>
      constructor
      · intro h
        simp [likeMatches] at h
      · rintro ⟨piece, after, hs, hpiece⟩
        obtain ⟨rfl, rfl⟩ := List.append_eq_nil_iff.mp hs.symm
        cases hpiece
    | cons x s =>
      simp only [List.map_cons, List.cons_append, likeMatches, Bool.and_eq_true, ih]
      constructor
      · rintro ⟨hx, piece, after, rfl, hpiece⟩
        exact ⟨x :: piece, after, rfl, .cons hx hpiece⟩
      · rintro ⟨piece, after, hs, hpiece⟩
        cases hpiece with
        | cons hx hpiece =>
          obtain ⟨rfl, rfl⟩ := List.cons_eq_cons.mp hs
          exact ⟨hx, _, _, rfl, hpiece⟩

/-- **The pattern of an escaped text between two `%` matches the texts that hold it.** -/
theorem likeMatches_escapeLike {t s : List Char} :
    likeMatches same (parseLike '\\' ('%' :: escapeLike t ++ ['%'])) s = true ↔ Holds same t s := by
  have hparse : parseLike '\\' ('%' :: escapeLike t ++ ['%']) =
      .anyText :: (t.map .letter ++ [.anyText]) := by
    rw [escapeLike_eq, List.cons_append, ← parseLike_flatMap]
    cases h : t.flatMap escapeLetter ++ ['%'] with
    | nil => simp at h
    | cons d cs => simp [parseLike]
  rw [hparse]
  simp only [likeMatches, List.any_eq_true, List.mem_tails, likeMatches_letters]
  constructor
  · rintro ⟨_, ⟨before, rfl⟩, piece, after, rfl, hpiece⟩
    exact ⟨before, piece, after, by rw [List.append_assoc], hpiece⟩
  · rintro ⟨before, piece, after, rfl, hpiece⟩
    exact ⟨piece ++ after, ⟨before, by rw [List.append_assoc]⟩, piece, after, rfl, hpiece⟩

/-! ## Comparisons of letters -/

variable {same} {same' : Char → Char → Bool}

theorem holds_of_length {t s : List Char} (hlength : s.length = t.length) :
    Holds same t s ↔ List.Forall₂ (same · ·) t s := by
  refine ⟨fun ⟨before, piece, after, hs, hpiece⟩ => ?_, fun h => ⟨[], s, [], by simp, h⟩⟩
  have hpieces := hpiece.length_eq
  rw [hs, List.length_append, List.length_append] at hlength
  obtain rfl : before = [] := List.length_eq_zero_iff.mp (by omega)
  obtain rfl : after = [] := List.length_eq_zero_iff.mp (by omega)
  simpa [hs] using hpiece

theorem holds_changed (hsame : ∀ c, same c c = true) (before after : List Char) (c d : Char) :
    Holds same (before ++ c :: after) (before ++ d :: after) ↔ same c d = true := by
  have hrefl (l : List Char) : List.Forall₂ (same · ·) l l :=
    List.forall₂_same.mpr fun x _ => hsame x
  rw [holds_of_length (by simp)]
  refine ⟨fun h => ?_, fun hcd => List.rel_append (hrefl before) (.cons hcd (hrefl after))⟩
  have hrest := List.forall₂_drop_append _ _ _ h
  rw [List.drop_left] at hrest
  exact (List.forall₂_cons.mp hrest).1

theorem holds_congr {t : List Char} (h : ∀ c ∈ t, ∀ d, same c d = same' c d) (s : List Char) :
    Holds same t s ↔ Holds same' t s := by
  have hpieces (piece : List Char) :
      List.Forall₂ (same · ·) t piece ↔ List.Forall₂ (same' · ·) t piece := by
    clear s
    induction t generalizing piece with
    | nil => simp
    | cons c t ih =>
      cases piece with
      | nil => simp
      | cons d piece =>
        rw [List.forall₂_cons, List.forall₂_cons, h c List.mem_cons_self,
          ih (fun x hx => h x (List.mem_cons_of_mem _ hx))]
  simp only [Holds, hpieces]

/-- **Two comparisons find a text in the same texts exactly if they take its letters alike.** -/
theorem holds_congr_iff (hsame : ∀ c, same c c = true) (hsame' : ∀ c, same' c c = true)
    {t : List Char} :
    (∀ s, Holds same t s ↔ Holds same' t s) ↔ ∀ c ∈ t, ∀ d, same c d = same' c d := by
  refine ⟨fun h c hc d => ?_, holds_congr⟩
  obtain ⟨before, after, rfl⟩ := List.append_of_mem hc
  rw [Bool.eq_iff_iff, ← holds_changed hsame before after, ← holds_changed hsame' before after]
  exact h _

end Storage
