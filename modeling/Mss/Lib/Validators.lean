import Mathlib.Algebra.Order.Ring.Rat
import Mss.Lib.Documents

/-!
# Validators of documents

A validator is a JSON value: each of its keywords asks something of a document's value, with a
validator, or several, inside. It is the dialect of a document database, whose types are those of
stored values; it has no references, and a keyword that it does not know takes nothing.

* `JsonScalar`, `Json`, `Entries`: JSON values.
* `Dialect`: the types, numbers and texts of stored scalars.
* **`Dialect.accepts`**: whether a validator takes a value; `Dialect.acceptsKeyword`: a keyword of it.
* `accepts_iff`: every keyword takes the value.
-/

namespace Storage

/-! ## JSON -/

/-- A scalar of JSON. -/
inductive JsonScalar
  | bool (b : Bool)
  | number (q : ℚ)
  | text (s : String)
  deriving DecidableEq, Repr

/-- A JSON value. -/
abbrev Json := Value JsonScalar

/-- The entries of a JSON object. -/
abbrev Entries := List (String × Json)

namespace Json

def bool (b : Bool) : Json := .scalar (.bool b)
def number (q : ℚ) : Json := .scalar (.number q)
def text (s : String) : Json := .scalar (.text s)

/-- The number it is. -/
def number? : Json → Option ℚ
  | .scalar (.number q) => some q
  | _ => none

/-- The text it is. -/
def text? : Json → Option String
  | .scalar (.text s) => some s
  | _ => none

/-- The texts it is, or lists. -/
def texts : Json → List String
  | .list items => items.filterMap text?
  | j => j.text?.toList

theorem texts_map (names : List String) : texts (.list (names.map text)) = names := by
  rw [texts, List.filterMap_map]
  exact List.filterMap_some

end Json

/-! ## Validators -/

variable {S : Type}

/-- **What a validator is told of a stored scalar**: the names of its types, the number or the text
that it is, and the JSON scalars that it equals. -/
structure Dialect (S : Type) where
  types : S → List String
  number? : S → Option ℚ
  text? : S → Option String
  isEqual : JsonScalar → S → Bool

namespace Dialect

variable (dialect : Dialect S)

/-- The names of the types of a value. -/
def typesOf : Value S → List String
  | .null => ["null"]
  | .scalar s => dialect.types s
  | .list _ => ["array"]
  | .document _ => ["object"]

/-- The number that a value is. -/
def numberOf : Value S → Option ℚ
  | .scalar s => dialect.number? s
  | _ => none

/-- The text that a value is. -/
def textOf : Value S → Option String
  | .scalar s => dialect.text? s
  | _ => none

/-- Whether a value equals a JSON scalar. -/
def equals : Json → Value S → Bool
  | .scalar j, .scalar s => dialect.isEqual j s
  | .null, .null => true
  | _, _ => false

/-- Whether a number is on the right side of a bound, if the value and the bound are numbers. -/
def isBounded (v : Value S) (bound : Json) (test : ℚ → ℚ → Bool) : Bool :=
  match dialect.numberOf v, bound.number? with
  | some q, some r => test r q
  | _, _ => true

/-- Whether a size is on the right side of a bound, if the value has the size. -/
def isSized (size : Option ℕ) (bound : Json) (test : ℚ → ℚ → Bool) : Bool :=
  match size, bound.number? with
  | some n, some r => test r n
  | _, _ => true

/-- The fields of a document. -/
def fieldsOf : Value S → Option (List (String × Value S))
  | .document fields => some fields
  | _ => none

/-- The items of a list. -/
def itemsOf : Value S → Option (List (Value S))
  | .list items => some items
  | _ => none

/-- The number of validators that `items` gives the first items one each. -/
def tupleLength (keywords : Entries) : Option ℕ :=
  match keywords.lookup "items" with
  | some (.list schemas) => some schemas.length
  | _ => none

/-- Whether `properties` has a validator for the field. -/
def isDeclared (keywords : Entries) (name : String) : Bool :=
  match keywords.lookup "properties" with
  | some (.document properties) => (properties.lookup name).isSome
  | _ => false

/-- Whether a bound is an exclusive one. -/
def isExclusive (keywords : Entries) (keyword : String) : Bool :=
  keywords.lookup keyword = some (Json.bool true)

/-- **Whether a keyword takes a value**, among the keywords of its validator: `schema` is what its
argument takes as a validator, `alternatives`, `tuple` and `properties` what it takes as a list of
them for one value, as one of them for each item, and as one for each of some fields. -/
def acceptsKeyword [DecidableEq S] (keywords : Entries) (keyword : String) (argument : Json)
    (v : Value S) (schema : Value S → Bool) (alternatives : Value S → Bool)
    (tuple : List (Value S) → Bool) (properties : List (String × Value S) → Bool) : Bool :=
  if keyword = "title" ∨ keyword = "description" then true
  else if keyword = "bsonType" then argument.texts.any (dialect.typesOf v).contains
  else if keyword = "enum" then argument.items.any fun j => dialect.equals j v
  else if keyword = "anyOf" then alternatives v
  else if keyword = "properties" then (fieldsOf v).all properties
  else if keyword = "required" then
    (fieldsOf v).all fun fields => argument.texts.all fun name => (fields.lookup name).isSome
  else if keyword = "additionalProperties" then
    (fieldsOf v).all fun fields => fields.all fun field =>
      isDeclared keywords field.1 || schema field.2
  else if keyword = "items" then
    (itemsOf v).all fun items => if (tupleLength keywords).isSome then tuple items else items.all schema
  else if keyword = "additionalItems" then
    (itemsOf v).all fun items => (tupleLength keywords).all fun n => (items.drop n).all schema
  else if keyword = "uniqueItems" then
    (itemsOf v).all fun items => argument != Json.bool true || decide items.Nodup
  else if keyword = "minItems" then isSized ((itemsOf v).map List.length) argument (· ≤ ·)
  else if keyword = "maxItems" then isSized ((itemsOf v).map List.length) argument (· ≥ ·)
  else if keyword = "minLength" then
    isSized ((dialect.textOf v).map fun s => s.toList.length) argument (· ≤ ·)
  else if keyword = "maxLength" then
    isSized ((dialect.textOf v).map fun s => s.toList.length) argument (· ≥ ·)
  else if keyword = "minimum" then
    dialect.isBounded v argument fun r q =>
      if isExclusive keywords "exclusiveMinimum" then r < q else r ≤ q
  else if keyword = "maximum" then
    dialect.isBounded v argument fun r q =>
      if isExclusive keywords "exclusiveMaximum" then q < r else q ≤ r
  else keyword = "exclusiveMinimum" ∨ keyword = "exclusiveMaximum"

section

variable [DecidableEq S]

mutual

/-- **Whether a validator takes a value.** -/
def accepts : Json → Value S → Bool
  | .document keywords, v => acceptsEach keywords keywords v
  | .scalar (.bool b), _ => b
  | _, _ => false

/-- Whether each keyword takes a value. -/
def acceptsEach (keywords : Entries) : Entries → Value S → Bool
  | [], _ => true
  | (keyword, argument) :: rest, v =>
    dialect.acceptsKeyword keywords keyword argument v (accepts argument) (acceptsSome argument)
      (acceptsTuple argument) (acceptsProperties argument) && acceptsEach keywords rest v

/-- Whether one of several validators takes a value. -/
def acceptsSome : Json → Value S → Bool
  | .list schemas, v => acceptsAny schemas v
  | _, _ => false

def acceptsAny : List Json → Value S → Bool
  | [], _ => false
  | schema :: schemas, v => accepts schema v || acceptsAny schemas v

/-- Whether several validators take an item each. -/
def acceptsTuple : Json → List (Value S) → Bool
  | .list schemas, items => acceptsZip schemas items
  | _, _ => false

def acceptsZip : List Json → List (Value S) → Bool
  | schema :: schemas, v :: vs => accepts schema v && acceptsZip schemas vs
  | _, _ => true

/-- Whether the validators of properties take the fields of their names. -/
def acceptsProperties : Json → List (String × Value S) → Bool
  | .document properties, fields => acceptsFields properties fields
  | _, _ => false

def acceptsFields : Entries → List (String × Value S) → Bool
  | [], _ => true
  | (name, schema) :: properties, fields =>
    (fields.lookup name).all (accepts schema) && acceptsFields properties fields

end

variable {dialect}

omit [DecidableEq S] in
theorem isBounded_iff {v : Value S} {r : ℚ} {test : ℚ → ℚ → Bool} :
    dialect.isBounded v (Json.number r) test = true ↔
      ∀ q, dialect.numberOf v = some q → test r q = true := by
  unfold isBounded Json.number Json.number?
  cases dialect.numberOf v <;> simp

omit [DecidableEq S] in
theorem isSized_iff {size : Option ℕ} {r : ℚ} {test : ℚ → ℚ → Bool} :
    isSized size (Json.number r) test = true ↔ ∀ n : ℕ, size = some n → test r n = true := by
  unfold isSized Json.number Json.number?
  cases size <;> simp

theorem acceptsEach_iff {keywords entries : Entries} {v : Value S} :
    dialect.acceptsEach keywords entries v = true ↔ ∀ entry ∈ entries,
      dialect.acceptsKeyword keywords entry.1 entry.2 v (dialect.accepts entry.2)
        (dialect.acceptsSome entry.2) (dialect.acceptsTuple entry.2)
        (dialect.acceptsProperties entry.2) = true := by
  induction entries with
  | nil => simp [acceptsEach]
  | cons entry entries ih => rw [acceptsEach, Bool.and_eq_true, ih, List.forall_mem_cons]

/-- **A validator takes a value** if each of its keywords does. -/
theorem accepts_iff {keywords : Entries} {v : Value S} :
    dialect.accepts (.document keywords) v = true ↔ ∀ entry ∈ keywords,
      dialect.acceptsKeyword keywords entry.1 entry.2 v (dialect.accepts entry.2)
        (dialect.acceptsSome entry.2) (dialect.acceptsTuple entry.2)
        (dialect.acceptsProperties entry.2) = true := by
  rw [accepts, acceptsEach_iff]

theorem acceptsAny_iff {schemas : List Json} {v : Value S} :
    dialect.acceptsAny schemas v = true ↔ ∃ schema ∈ schemas, dialect.accepts schema v = true := by
  induction schemas with
  | nil => simp [acceptsAny]
  | cons schema schemas ih => simp [acceptsAny, ih]

theorem acceptsZip_of_forall₂ {schemas : List Json} {items : List (Value S)}
    (h : List.Forall₂ (fun schema v => dialect.accepts schema v = true) schemas items) :
    dialect.acceptsZip schemas items = true := by
  induction h with
  | nil => rfl
  | cons hhead _ ih => rw [acceptsZip, hhead, ih, Bool.and_self]

theorem acceptsFields_iff {properties : Entries} {fields : List (String × Value S)} :
    dialect.acceptsFields properties fields = true ↔
      ∀ property ∈ properties, ∀ v, fields.lookup property.1 = some v →
        dialect.accepts property.2 v = true := by
  induction properties with
  | nil => simp [acceptsFields]
  | cons property properties ih =>
    rw [acceptsFields, Bool.and_eq_true, ih, List.forall_mem_cons, Option.all_eq_true]

end

end Dialect

end Storage
