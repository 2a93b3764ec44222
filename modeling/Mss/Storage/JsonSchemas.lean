import Mss.Storage.MongoSchemas

/-!
# The JSON schemas of annotations

Pydantic gives a class a JSON schema, in which the models inside are definitions that are referred to
by name, and dumps its valid records as Python values. What it gives for an annotation, and what is
dumped of a value of it, is documented; a JSON schema may hold remarks beside.

* ` FieldType.holdsIds`, `keepsIds`: the Ids of an annotation, and whether the store finds them.
* `IsRemark`, `IsConstraint`, `Meets`, `MeetsSize`: the entries of a JSON schema, and what they ask.
* `IsScalarOf`, `Encodable`: the scalars of a type, and the values that MongoDB's driver takes.
* `IsModelSchema`, `IsModelData`: the JSON schema of a model, and what is dumped of one;
  `IsRecordData`: what is dumped of a record.
* **`IsJsonSchema`**: the JSON schema of an annotation, and what is dumped of its valid values.
-/

namespace Mss

open Storage

/-! ## Where ids are -/

namespace FieldType

mutual

/-- Whether there is an Id anywhere inside, also in a model. -/
def holdsIds : FieldType → Bool
  | scalar type => type == .id
  | model _ fields => holdsIdsFields fields
  | generic _ args => holdsIdsIn args
  | _ => false

def holdsIdsIn : List FieldType → Bool
  | [] => false
  | a :: as => holdsIds a || holdsIdsIn as

def holdsIdsFields : Fields → Bool
  | [] => false
  | (_, a) :: fields => holdsIds a || holdsIdsFields fields

end

/-- Whether it is an Optional of one type. -/
def isOptional : List FieldType → Bool
  | [_, noneType] | [noneType, _] => true
  | _ => false

mutual

/-- **Whether the store finds every Id inside**: none is in a dict or a tuple, nor in a union but an
Optional. -/
def keepsIds : FieldType → Bool
  | model _ fields => keepsIdsFields fields
  | generic .list args | generic .set args => keepsIdsIn args
  | generic .union args => !holdsIdsIn args || (isOptional args && keepsIdsIn args)
  | generic _ args => !holdsIdsIn args
  | _ => true

def keepsIdsIn : List FieldType → Bool
  | [] => true
  | a :: as => keepsIds a && keepsIdsIn as

def keepsIdsFields : Fields → Bool
  | [] => true
  | (_, a) :: fields => keepsIds a && keepsIdsFields fields

end

end FieldType

namespace Mongo

/-! ## Scalars -/

/-- The JSON type of a scalar. -/
def jsonType : ScalarType → String
  | .bool => "boolean"
  | .int | .intEnum => "integer"
  | .float => "number"
  | .str | .datetime | .id | .uuid | .path | .literal | .strEnum => "string"

/-- The scalars of a type. -/
def IsScalarOf : ScalarType → PyScalar → Prop
  | .bool, .bool _ | .int, .int _ | .float, .float _ | .str, .str _ | .datetime, .datetime _ _
  | .uuid, .uuid _ | .path, .path _ | .literal, .str _ | .intEnum, .intEnum _
  | .strEnum, .strEnum _ => True
  | .id, .str text => text.toList.length = 24 ∧ text.toList.all isHexDigit = true ∧
      text.map Char.toLower = text
  | _, _ => False

/-- A scalar that the driver takes, a UUID and a path being texts by then: an integer has 64 bits. -/
def IsStorable : PyScalar → Prop
  | .int i | .intEnum i => -2 ^ 63 ≤ i ∧ i < 2 ^ 63
  | _ => True

/-- A value that the driver takes, once converted. -/
def Encodable (v : PyValue) : Prop := ∃ b, convertToBson v = .ok b

/-- What a JSON schema says that asks nothing of a stored value, and definitions. -/
def IsRemark (entry : String × Json) : Prop :=
  entry.1 ∈ ["default", "examples", "deprecated", "format", "propertyNames", "$defs"] ∨
    entry.1 ∈ ["title", "description"] ∧ ∃ s, entry.2 = Json.text s

/-- What it may ask of a scalar. -/
def IsConstraint (entry : String × Json) : Prop :=
  match entry.1, entry.2 with
  | "const", .scalar _ => True
  | "enum", .list items => ∀ item ∈ items, ∃ j, item = .scalar j
  | "minimum", .scalar (.number _) | "maximum", .scalar (.number _)
  | "exclusiveMinimum", .scalar (.number _) | "exclusiveMaximum", .scalar (.number _)
  | "minLength", .scalar (.number _) | "maxLength", .scalar (.number _) => True
  | _, _ => False

/-- What it may ask of the size of a list. -/
def IsSize (entry : String × Json) : Prop :=
  entry.1 ∈ ["minItems", "maxItems"] ∧ ∃ q, entry.2 = Json.number q

/-- Whether a scalar is what JSON has for it. -/
def equalsJson : Json → Scalar → Bool
  | .scalar j, s => bsonDialect.isEqual j (.value s)
  | _, _ => false

/-- **A scalar meets what is asked of it.** -/
def Meets (entry : String × Json) (s : Scalar) : Prop :=
  match entry.1, entry.2 with
  | "const", value => equalsJson value s = true
  | "enum", values => ∃ value ∈ values.items, equalsJson value s = true
  | "minimum", .scalar (.number r) => ∀ q, bsonDialect.number? (.value s) = some q → r ≤ q
  | "maximum", .scalar (.number r) => ∀ q, bsonDialect.number? (.value s) = some q → q ≤ r
  | "exclusiveMinimum", .scalar (.number r) => ∀ q, bsonDialect.number? (.value s) = some q → r < q
  | "exclusiveMaximum", .scalar (.number r) => ∀ q, bsonDialect.number? (.value s) = some q → q < r
  | "minLength", .scalar (.number r) =>
    ∀ text, bsonDialect.text? (.value s) = some text → r ≤ text.toList.length
  | "maxLength", .scalar (.number r) =>
    ∀ text, bsonDialect.text? (.value s) = some text → text.toList.length ≤ r
  | _, _ => True

/-- A list has a size that is asked for. -/
def MeetsSize (entry : String × Json) (size : ℕ) : Prop :=
  match entry.1, entry.2 with
  | "minItems", .scalar (.number r) => r ≤ size
  | "maxItems", .scalar (.number r) => size ≤ r
  | _, _ => True

/-! ## Models -/

/-- **The JSON schema of a model**, whose fields have JSON schemas of their own. -/
structure IsModelSchema (allowsExtra : Bool) (fields : Fields) (schemas : String → Json)
    (entries : Entries) : Prop where
  names : (fields.map Prod.fst).Nodup
  type : entries.lookup "type" = some (Json.text "object")
  properties : entries.lookup "properties" =
    some (.document (fields.map fun field => (field.1, schemas field.1)))
  only : ∀ entry ∈ entries, IsRemark entry ∨ entry = ("type", Json.text "object") ∨
    entry = ("properties", .document (fields.map fun field => (field.1, schemas field.1))) ∨
    (∃ names : List String, entry = ("required", .list (names.map Json.text)) ∧
      ∀ name ∈ names, name ∈ fields.map Prod.fst) ∨
    entry = ("additionalProperties", Json.bool true) ∨
    allowsExtra = false ∧ entry = ("additionalProperties", Json.bool false)

/-- **What is dumped of a model**: each of its fields, and others if it allows them. -/
structure IsModelData (allowsExtra : Bool) (fields : Fields) (valid : String → PyValue → Prop)
    (data : List (String × PyValue)) : Prop where
  names : (data.map Prod.fst).Nodup
  field : ∀ field ∈ fields, ∃ v, data.lookup field.1 = some v ∧ valid field.1 v
  extra : ∀ entry ∈ data, entry.1 ∉ fields.map Prod.fst →
    allowsExtra = true ∧ Encodable entry.2

/-- **What is dumped of a record** of a schema: its fields are valid, but that it may have no id. -/
structure IsRecordData (schema : Schema) (valid : String → PyValue → Prop) (record : Record) :
    Prop where
  names : (record.map Prod.fst).Nodup
  noKey : record.lookup keyField = none
  field : ∀ field ∈ schema.fields, field.1 ≠ "id" →
    ∃ v, record.lookup field.1 = some v ∧ valid field.1 v
  id : ∀ v, record.lookup "id" = some v → v ≠ .none →
    "id" ∈ schema.fields.map Prod.fst ∧ valid "id" v
  extra : ∀ entry ∈ record, entry.1 ∉ schema.fields.map Prod.fst →
    schema.allowsExtra = true ∧ Encodable entry.2

/-! ## Annotations -/

/-- **The JSON schema of an annotation**, and what is dumped of the values that are valid for it. A
set here is one of scalars that are stored as they are: two datetimes may be stored as one. -/
inductive IsJsonSchema (definitions : Entries) : FieldType → Json → (PyValue → Prop) → Prop
  | scalar {type : ScalarType} {entries : Entries} (notId : type ≠ .id) (notDate : type ≠ .datetime)
      (type_eq : entries.lookup "type" = some (Json.text (jsonType type)))
      (format_ne : entries.lookup "format" ≠ some (Json.text "date-time"))
      (only : ∀ entry ∈ entries, IsRemark entry ∨
        entry = ("type", Json.text (jsonType type)) ∨ IsConstraint entry) :
      IsJsonSchema definitions (.scalar type) (.document entries) fun v =>
        ∃ s, v = .scalar s ∧ IsScalarOf type s ∧ IsStorable s ∧ ∀ entry ∈ entries, Meets entry s.toScalar
  | datetime {entries : Entries} (type_eq : entries.lookup "type" = some (Json.text "string"))
      (format_eq : entries.lookup "format" = some (Json.text "date-time"))
      (noRef : entries.lookup "$ref" = none) :
      IsJsonSchema definitions (.scalar .datetime) (.document entries) fun v =>
        ∃ s, v = .scalar s ∧ IsScalarOf .datetime s
  | id {entries : Entries} (type_eq : entries.lookup "type" = some (Json.text "string"))
      (format_ne : entries.lookup "format" ≠ some (Json.text "date-time"))
      (pattern_eq : entries.lookup "pattern" = some (Json.text idPattern))
      (noRef : entries.lookup "$ref" = none) :
      IsJsonSchema definitions (.scalar .id) (.document entries) fun v =>
        ∃ s, v = .scalar s ∧ IsScalarOf .id s
  | any {entries : Entries} (only : ∀ entry ∈ entries, IsRemark entry) :
      IsJsonSchema definitions .any (.document entries) Encodable
  | anything : IsJsonSchema definitions .any (Json.bool true) Encodable
  | noneType {entries : Entries} (type_eq : entries.lookup "type" = some (Json.text "null"))
      (only : ∀ entry ∈ entries, IsRemark entry ∨ entry = ("type", Json.text "null")) :
      IsJsonSchema definitions .noneType (.document entries) fun v => v = .none
  | list {a : FieldType} {j : Json} {valid : PyValue → Prop} {entries : Entries}
      (element : IsJsonSchema definitions a j valid)
      (type_eq : entries.lookup "type" = some (Json.text "array"))
      (items_eq : entries.lookup "items" = some j)
      (only : ∀ entry ∈ entries, IsRemark entry ∨ entry = ("type", Json.text "array") ∨
        entry = ("items", j) ∨ IsSize entry) :
      IsJsonSchema definitions (.generic .list [a]) (.document entries) fun v =>
        ∃ items, v = .sequence .list items ∧ (∀ item ∈ items, valid item) ∧
          ∀ entry ∈ entries, MeetsSize entry items.length
  | set {type : ScalarType} {j : Json} {valid : PyValue → Prop} {entries : Entries}
      (element : IsJsonSchema definitions (.scalar type) j valid) (notDate : type ≠ .datetime)
      (type_eq : entries.lookup "type" = some (Json.text "array"))
      (items_eq : entries.lookup "items" = some j)
      (only : ∀ entry ∈ entries, IsRemark entry ∨ entry = ("type", Json.text "array") ∨
        entry = ("items", j) ∨ entry = ("uniqueItems", Json.bool true) ∨ IsSize entry) :
      IsJsonSchema definitions (.generic .set [.scalar type]) (.document entries) fun v =>
        ∃ items, v = .sequence .set items ∧ items.Nodup ∧
          (∀ item ∈ items, valid item ∧ ∃ s, item = .scalar s ∧ IsScalarOf type s ∧ IsStorable s) ∧
          ∀ entry ∈ entries, MeetsSize entry items.length
  | tuple {parts : List (FieldType × Json × (PyValue → Prop))} {entries : Entries}
      (elements : ∀ part ∈ parts, IsJsonSchema definitions part.1 part.2.1 part.2.2)
      (type_eq : entries.lookup "type" = some (Json.text "array"))
      (items_eq : entries.lookup "prefixItems" = some (.list (parts.map fun part => part.2.1)))
      (only : ∀ entry ∈ entries, IsRemark entry ∨ entry = ("type", Json.text "array") ∨
        entry = ("prefixItems", .list (parts.map fun part => part.2.1)) ∨ IsSize entry) :
      IsJsonSchema definitions (.generic .tuple (parts.map Prod.fst)) (.document entries) fun v =>
        ∃ items, v = .sequence .tuple items ∧
          List.Forall₂ (fun part item => part.2.2 item) parts items ∧
          ∀ entry ∈ entries, MeetsSize entry items.length
  | dict {key a : FieldType} {j : Json} {valid : PyValue → Prop} {entries : Entries}
      (value : IsJsonSchema definitions a j valid)
      (type_eq : entries.lookup "type" = some (Json.text "object"))
      (values_eq : entries.lookup "additionalProperties" = some j)
      (only : ∀ entry ∈ entries, IsRemark entry ∨ entry = ("type", Json.text "object") ∨
        entry = ("additionalProperties", j)) :
      IsJsonSchema definitions (.generic .dict [key, a]) (.document entries) fun v =>
        ∃ data, v = .dict data ∧ ∀ entry ∈ data, valid entry.2
  | union {parts : List (FieldType × Json × (PyValue → Prop))} {entries : Entries}
      (members : ∀ part ∈ parts, IsJsonSchema definitions part.1 part.2.1 part.2.2)
      (members_eq : entries.lookup "anyOf" = some (.list (parts.map fun part => part.2.1)))
      (only : ∀ entry ∈ entries, IsRemark entry ∨
        entry = ("anyOf", .list (parts.map fun part => part.2.1))) :
      IsJsonSchema definitions (.generic .union (parts.map Prod.fst)) (.document entries) fun v =>
        ∃ part ∈ parts, part.2.2 v
  | model {allowsExtra : Bool} {fields : Fields} {schemas : String → Json}
      {valid : String → PyValue → Prop} {entries : Entries}
      (shape : IsModelSchema allowsExtra fields schemas entries)
      (members : ∀ field ∈ fields, IsJsonSchema definitions field.2 (schemas field.1) (valid field.1)) :
      IsJsonSchema definitions (.model allowsExtra fields) (.document entries) fun v =>
        ∃ data, v = .dict data ∧ IsModelData allowsExtra fields valid data
  | ref {a : FieldType} {valid : PyValue → Prop} {entries merged : Entries}
      (resolved : resolveRef definitions entries = .ok merged) (noRef : merged.lookup "$ref" = none)
      (target : IsJsonSchema definitions a (.document merged) valid) :
      IsJsonSchema definitions a (.document entries) valid

end Mongo

end Mss
