import Mathlib.Data.Nat.Notation

/-!
# Documents and the values their paths reach

A document database holds trees: a document has named fields, a list has items, and null stands
for the field that is not there. A dotted path goes through documents by name and into every
document of a list on its way, so that it may reach several values; where it ends at a list, a
query tests the list and each of its items.

* `Value`: null, a scalar, a list or a document.
* `Value.reached`: the values a path reaches.
* **`Value.candidates`**: the values a condition on the path tests.
* `Value.candidates_field`: a path of one name reaches the field of the document.
* `Value.same`: whether two values are the same, which decides equality.
-/

namespace Storage

variable {S : Type}

/-- **A value of a document.** -/
inductive Value (S : Type) where
  | null
  | scalar (s : S)
  | list (items : List (Value S))
  | document (fields : List (String × Value S))

namespace Value

/-- The items of a list; no other value has items. -/
def items : Value S → List (Value S)
  | list is => is
  | _ => []

/-- The value of a name among named fields; a field that is not there reads as null. -/
def get (name : String) (fields : List (String × Value S)) : Value S :=
  (fields.lookup name).getD null

/-- The field of a document; no other value has fields. -/
def field (name : String) : Value S → List (Value S)
  | document fields => [get name fields]
  | _ => []

/-- Where one name of a path leads: to a field, or into each document of a list and to the item
of that index. -/
def step (name : String) : Value S → List (Value S)
  | document fields => [get name fields]
  | list is => is.flatMap (field name) ++ (name.toNat?.bind fun i => is[i]?).toList
  | _ => [null]

/-- **The values a path reaches.** -/
def reached : List String → Value S → List (Value S)
  | [], v => [v]
  | name :: path, v => (v.step name).flatMap (reached path)

/-- **The values a condition on a path tests**: those it reaches, and the items of the lists among
them. -/
def candidates (path : List String) (v : Value S) : List (Value S) :=
  (reached path v).flatMap fun x => x :: x.items

theorem reached_field (name : String) (fields : List (String × Value S)) :
    reached [name] (document fields) = [get name fields] := by
  simp [reached, step]

/-- A path of one name reaches the field of the document. -/
theorem candidates_field (name : String) (fields : List (String × Value S)) :
    candidates [name] (document fields) = get name fields :: (get name fields).items := by
  simp [candidates, reached_field]

theorem get_append_left {name : String} {fs gs : List (String × Value S)} {v : Value S}
    (h : fs.lookup name = some v) : get name (fs ++ gs) = v := by
  rw [get, List.lookup_append, h]
  rfl

theorem get_append_right {name : String} {fs gs : List (String × Value S)}
    (h : fs.lookup name = none) : get name (fs ++ gs) = get name gs := by
  rw [get, List.lookup_append, h, Option.none_or, get]

/-! ## Equality -/

section

variable [DecidableEq S]

mutual

/-- Whether two values are the same. -/
def same : Value S → Value S → Bool
  | null, null => true
  | scalar a, scalar b => a = b
  | list is, list js => sameItems is js
  | document fs, document gs => sameFields fs gs
  | _, _ => false

/-- Whether two lists have the same items. -/
def sameItems : List (Value S) → List (Value S) → Bool
  | [], [] => true
  | v :: vs, w :: ws => same v w && sameItems vs ws
  | _, _ => false

/-- Whether two documents have the same fields. -/
def sameFields : List (String × Value S) → List (String × Value S) → Bool
  | [], [] => true
  | (n, v) :: fs, (m, w) :: gs => n = m && same v w && sameFields fs gs
  | _, _ => false

end

mutual

theorem eq_of_same : ∀ {v w : Value S}, same v w = true → v = w
  | null, null, _ => rfl
  | scalar _, scalar _, h => congrArg scalar (of_decide_eq_true h)
  | list _, list _, h => congrArg list (eq_of_sameItems h)
  | document _, document _, h => congrArg document (eq_of_sameFields h)

theorem eq_of_sameItems : ∀ {vs ws : List (Value S)}, sameItems vs ws = true → vs = ws
  | [], [], _ => rfl
  | v :: vs, w :: ws, h => by
    rw [sameItems, Bool.and_eq_true] at h
    rw [eq_of_same h.1, eq_of_sameItems h.2]

theorem eq_of_sameFields : ∀ {fs gs : List (String × Value S)}, sameFields fs gs = true → fs = gs
  | [], [], _ => rfl
  | (n, v) :: fs, (m, w) :: gs, h => by
    rw [sameFields, Bool.and_eq_true, Bool.and_eq_true, decide_eq_true_iff] at h
    rw [h.1.1, eq_of_same h.1.2, eq_of_sameFields h.2]

end

mutual

theorem same_self : ∀ v : Value S, same v v = true
  | null => rfl
  | scalar _ => decide_eq_true rfl
  | list is => sameItems_self is
  | document fs => sameFields_self fs

theorem sameItems_self : ∀ vs : List (Value S), sameItems vs vs = true
  | [] => rfl
  | v :: vs => by rw [sameItems, same_self v, sameItems_self vs, Bool.and_self]

theorem sameFields_self : ∀ fs : List (String × Value S), sameFields fs fs = true
  | [] => rfl
  | (n, v) :: fs => by
    rw [sameFields, decide_eq_true rfl, same_self v, sameFields_self fs, Bool.and_self,
      Bool.and_self]

end

/-- Values are equal or not. -/
instance : DecidableEq (Value S) := fun v w =>
  decidable_of_iff (same v w = true) ⟨eq_of_same, fun h => h ▸ same_self v⟩

end

end Value

/-! ## Fields computed from their names -/

section

variable {A B : Type}

theorem lookup_map (f : String → A → B) (l : List (String × A)) (name : String) :
    (l.map fun x => (x.1, f x.1 x.2)).lookup name = (l.lookup name).map (f name) := by
  induction l with
  | nil => rfl
  | cons x l ih =>
    obtain ⟨n, a⟩ := x
    simp only [List.map_cons, List.lookup_cons]
    by_cases h : name = n
    · subst h
      simp
    · rw [beq_false_of_ne h]
      exact ih

theorem lookup_filter (p : String → Bool) (l : List (String × A)) (name : String) :
    (l.filter fun x => p x.1).lookup name = if p name then l.lookup name else none := by
  induction l with
  | nil => simp
  | cons x l ih =>
    obtain ⟨n, a⟩ := x
    simp only [List.filter_cons, List.lookup_cons]
    by_cases h : name = n
    · subst h
      by_cases hp : p name = true
      · simp [hp]
      · simp [hp, ih]
    · rw [beq_false_of_ne h]
      by_cases hp : p n = true
      · rw [if_pos hp, List.lookup_cons, beq_false_of_ne h]
        exact ih
      · rw [if_neg hp]
        exact ih

theorem mem_of_lookup {l : List (String × A)} {name : String} {a : A}
    (h : l.lookup name = some a) : (name, a) ∈ l := by
  obtain ⟨l₁, l₂, rfl, _⟩ := List.lookup_eq_some_iff.mp h
  simp

end

end Storage
