import Mss.FilterAgreement
import Mss.Storage.MongoFilters

/-!
# Text without case

A case-insensitive field is compared without case, and the others with case. SQL compares a column in
the database's lower case with an operand in Python's; MongoDB has one collation for a whole query.

* `TextReading`: how a comparison reads the text that is stored and the text that is asked for.
* `TextReading.Meets`: what an operator asks of a text; `Filter.Holds`: of a filter, what its
  conditions ask.
* **`readIntended`**, **`readInSql`**, **`readInMongo`**: the readings of a schema's fields.
* `Mongo.QueryMatches`: what a query means under a collation.
-/

namespace Mss

open Storage

/-! ## Conditions on text -/

/-- The text that a scalar is. -/
def Scalar.asText : Scalar → Option String
  | .text t => some t
  | _ => none

/-- The text that an operand is; None is no text. -/
def textOf : PyValue → Option String
  | .scalar s => s.toScalar.asText
  | _ => none

/-- The text that a column holds. -/
def textAt : Value Scalar → Option String
  | .scalar s => s.asText
  | _ => none

/-- **How text is read** before it is compared: that stored, that asked for, and that searched. -/
structure TextReading where
  stored : String → String
  asked : String → String
  searched : String → String

namespace TextReading

/-- Text as it is. -/
def exact : TextReading := ⟨id, id, id⟩

/-- Text without case, in one case; a search needs no reading for that. -/
def folded (fold : String → String) : TextReading := ⟨fold, fold, id⟩

/-- Text in lower case: the database's, and Python's. -/
def lowered (database : SqlDatabase) (lower : String → String) : TextReading :=
  ⟨database.lower, lower, database.lower⟩

/-- Both are texts, of which something holds. -/
def Both (p : String → String → Prop) (x y : Option String) : Prop :=
  ∃ a b, x = some a ∧ y = some b ∧ p a b

/-- **What an operator asks of a field's text**, or of None. -/
def Meets (same : Char → Char → Bool) (r : TextReading) (x : Option String)
    (entry : String × PyValue) : Prop :=
  match FieldOperator.ofName entry.1 with
  | some .eq => x.map r.stored = (textOf entry.2).map r.asked
  | some .ne => x.map r.stored ≠ (textOf entry.2).map r.asked
  | some .in => ∃ item ∈ entry.2.items, x.map r.stored = (textOf item).map r.asked
  | some .nin => ∀ item ∈ entry.2.items, x.map r.stored ≠ (textOf item).map r.asked
  | some .gt => Both (fun a b => r.asked b < r.stored a) x (textOf entry.2)
  | some .gte => Both (fun a b => ¬ r.stored a < r.asked b) x (textOf entry.2)
  | some .lt => Both (fun a b => r.stored a < r.asked b) x (textOf entry.2)
  | some .lte => Both (fun a b => ¬ r.asked b < r.stored a) x (textOf entry.2)
  | some .regex =>
    Both (fun a p => Holds same (getSearchedText p) (r.searched a).toList) x (textOf entry.2)
  | some .options => True
  | none => False

/-- The texts that an operator asks for. -/
def askedBy (entry : String × PyValue) : List String :=
  ((textOf entry.2).toList ++ entry.2.items.filterMap textOf)

/-- **Two readings take a text that is stored and one that is asked for alike.** -/
structure Alike (same : Char → Char → Bool) (r r' : TextReading) (a b : String) : Prop where
  eq : r.stored a = r.asked b ↔ r'.stored a = r'.asked b
  lt : r.stored a < r.asked b ↔ r'.stored a < r'.asked b
  gt : r.asked b < r.stored a ↔ r'.asked b < r'.stored a
  search : Holds same (getSearchedText b) (r.searched a).toList ↔
    Holds same (getSearchedText b) (r'.searched a).toList

/-- What a condition asks. -/
def MeetsAll (same : Char → Char → Bool) (r : TextReading) (x : Option String)
    (condition : PyValue) : Prop :=
  ∀ entry ∈ operatorsOf condition, r.Meets same x entry

end TextReading

/-! ## Filters -/

mutual

/-- What an entry asks, given what its conditions do. -/
def Entry.Holds (holds : String → PyValue → Prop) : Entry → Prop
  | .logical .and filters => Filter.AllHold holds filters
  | .logical .or filters => Filter.AnyHolds holds filters
  | .field name condition => holds name condition

/-- **What a filter asks**, given what its conditions do. -/
def Filter.Holds (holds : String → PyValue → Prop) : List Entry → Prop
  | [] => True
  | entry :: entries => entry.Holds holds ∧ Filter.Holds holds entries

/-- Every filter of a list. -/
def Filter.AllHold (holds : String → PyValue → Prop) : List (List Entry) → Prop
  | [] => True
  | filter :: filters => Filter.Holds holds filter ∧ Filter.AllHold holds filters

/-- One filter of a list. -/
def Filter.AnyHolds (holds : String → PyValue → Prop) : List (List Entry) → Prop
  | [] => False
  | filter :: filters => Filter.Holds holds filter ∨ Filter.AnyHolds holds filters

end

mutual

/-- The conditions of an entry. -/
def Entry.conditions : Entry → List (String × PyValue)
  | .logical _ filters => Filter.eachConditions filters
  | .field name condition => [(name, condition)]

/-- **The conditions of a filter**, however deep they stand. -/
def Filter.conditions : List Entry → List (String × PyValue)
  | [] => []
  | entry :: entries => entry.conditions ++ Filter.conditions entries

/-- The conditions of a list of filters. -/
def Filter.eachConditions : List (List Entry) → List (String × PyValue)
  | [] => []
  | filter :: filters => Filter.conditions filter ++ Filter.eachConditions filters

end

/-- Whether a field holds text, other than an id's. -/
def isTextField (schema : Schema) (name : String) : Bool :=
  (schema.declared name).any fun a =>
    !a.isListField && !a.isIdField && a.findNestedModel.isNone && getColumnType a == .string

/-- Whether a condition asks a text field for texts, or for None. -/
def isTextCondition (schema : Schema) (name : String) (condition : PyValue) : Bool :=
  isTextField schema name && (elementFilterOf condition).isNone && hasOwnOperands .string condition

/-- Whether the field is compared without case. -/
def Schema.isCaseInsensitive (schema : Schema) (name : String) : Bool :=
  schema.storage.caseInsensitive.contains name

section

variable (schema : Schema) (fold : String → String)

/-- **How a field is to be read**: without case exactly if it is case-insensitive. -/
def readIntended (name : String) : TextReading :=
  if schema.isCaseInsensitive name then .folded fold else .exact

/-- **How SQL reads a field.** -/
def readInSql (database : SqlDatabase) (lower : String → String) (name : String) : TextReading :=
  if schema.isCaseInsensitive name then .lowered database lower else .exact

/-- How MongoDB reads text under a collation: without case under the one there is. -/
def readUnder (collation : Option Mongo.Collation) : TextReading :=
  if collation = some Mongo.caseInsensitive then .folded fold else .exact

/-- **How MongoDB reads every field of a filter.** -/
def readInMongo (filter : Filter) : TextReading :=
  readUnder fold (Mongo.getQueryCollation schema filter)

end

/-- **The record meets the filter**, each field read its own way. -/
def Filter.MeetsText (same : Char → Char → Bool) (reading : String → TextReading)
    (texts : String → Option String) (filter : Filter) : Prop :=
  Filter.Holds (fun name condition => (reading name).MeetsAll same (texts name) condition) filter

/-! ## Queries under a collation -/

namespace Mongo

variable (same : Char → Char → Bool) (r : TextReading)

/-- A value whose text is read. -/
def readText (read : String → String) : Bson → Bson
  | .scalar (.value (.text t)) => .scalar (.value (.text (read t)))
  | v => v

/-- Some scalar of the operand's kind compares with it. -/
def Compares (test : Scalar → Scalar → Bool) (values : List Bson) (operand : Bson) : Prop :=
  ∃ a b, .scalar (.value a) ∈ values.map (readText r.stored) ∧
    readText r.asked operand = .scalar (.value b) ∧ a.kind = b.kind ∧ test a b = true

/-- **An operator on the values of a field.** A collation says how text is compared, but not how it is
searched. -/
def OperatorMatches (values : List Bson) (entry : String × Bson) : Prop :=
  match FieldOperator.ofName entry.1 with
  | some .eq => readText r.asked entry.2 ∈ values.map (readText r.stored)
  | some .ne => readText r.asked entry.2 ∉ values.map (readText r.stored)
  | some .in =>
    ∃ item ∈ entry.2.items, readText r.asked item ∈ values.map (readText r.stored)
  | some .nin =>
    ∀ item ∈ entry.2.items, readText r.asked item ∉ values.map (readText r.stored)
  | some .gt => Compares r (fun a b => b.lt a) values entry.2
  | some .gte => Compares r (fun a b => !a.lt b) values entry.2
  | some .lt => Compares r (fun a b => a.lt b) values entry.2
  | some .lte => Compares r (fun a b => !b.lt a) values entry.2
  | some .regex => ∃ a p, .scalar (.value (.text a)) ∈ values ∧
      entry.2 = .scalar (.value (.text p)) ∧ Holds same (getSearchedText p) a.toList
  | some .options => True
  | none => False

/-- The operators of a condition; a value is one to equal. -/
def operatorsOf : Bson → List (String × Bson)
  | .document ((name, v) :: entries) =>
    if isOperatorName name then (name, v) :: entries
    else [("$eq", .document ((name, v) :: entries))]
  | v => [("$eq", v)]

/-- A condition on a field of a document, or on a path into it. -/
def FieldMatches (document : Document) (name : String) (condition : Bson) : Prop :=
  ∀ entry ∈ operatorsOf condition,
    OperatorMatches same r ((Value.document document).candidates (pathParts name)) entry

mutual

/-- **The document matches the query.** -/
def QueryMatches (document : Document) : List (String × Bson) → Prop
  | [] => True
  | (name, v) :: entries => EntryMatches document name v ∧ QueryMatches document entries

/-- An entry of a query: a list of queries, or a condition on a field. -/
def EntryMatches (document : Document) (name : String) : Bson → Prop
  | .list queries =>
    if name = "$and" then EachMatches document queries
    else if name = "$or" then OneMatches document queries
    else FieldMatches same r document name (.list queries)
  | v => FieldMatches same r document name v

/-- Each of a list of queries matches. -/
def EachMatches (document : Document) : List Bson → Prop
  | [] => True
  | query :: queries => BodyMatches document query ∧ EachMatches document queries

/-- One of a list of queries matches. -/
def OneMatches (document : Document) : List Bson → Prop
  | [] => False
  | query :: queries => BodyMatches document query ∨ OneMatches document queries

/-- A query of a list matches. -/
def BodyMatches (document : Document) : Bson → Prop
  | .document query => QueryMatches document query
  | _ => False

end

end Mongo

/-- **The server compares the text of a query** as its collation says, every field alike. -/
def MongoServer.Collates (server : MongoServer) (same : Char → Char → Bool) (fold : String → String)
    (query : Document) : Prop :=
  ∀ (collation : Option Mongo.Collation) (document : Document),
    server.isMatch collation query document = true ↔
      Mongo.QueryMatches same (readUnder fold collation) document query

end Mss
