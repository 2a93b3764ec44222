import Mss.Lib.Validators
import Mss.Storage.MongoWrites

/-!
# The validators of MongoDB's collections

A collection has a validator, made of the JSON schema that pydantic gives of its schema's class. It
knows neither references nor formats, and it tests what is stored, in which a datetime is a date and
an id an ObjectId.

* `ValidatorError`; `resolveRef`, `translateKeywords`, `mapToBsonType`, `keepMongoKeywords`: the steps
  from the JSON schema of an annotation to MongoDB's.
* **`convertToMongoJsonSchema`**: the steps, on a JSON schema and on those inside; **`getValidator`**.
* `bsonDialect`: the types of what is stored.
-/

namespace Mss

open Storage

namespace Mongo

/-- The errors raised where a JSON schema is not one of pydantic's, or one inside another is the
same again. -/
inductive ValidatorError
  | key
  | type
  | attribute
  | recursion
  deriving DecidableEq, Repr

/-- The pattern of an id. -/
def idPattern : String := "^[0-9a-f]\x7b24\x7d$"

/-- The keywords that MongoDB knows. -/
def mongoKeywords : List String :=
  ["additionalItems", "additionalProperties", "allOf", "anyOf", "bsonType", "dependencies",
    "description", "enum", "exclusiveMaximum", "exclusiveMinimum", "items", "maxItems", "maxLength",
    "maxProperties", "maximum", "minItems", "minLength", "minProperties", "minimum", "not", "oneOf",
    "pattern", "patternProperties", "properties", "required", "title", "uniqueItems"]

/-- The BSON type of a JSON type. -/
def bsonTypes : Entries :=
  [("array", Json.text "array"), ("boolean", Json.text "bool"),
    ("integer", .list [Json.text "int", Json.text "long"]), ("null", Json.text "null"),
    ("number", Json.text "number"), ("object", Json.text "object"), ("string", Json.text "string")]

/-! ## The steps -/

/-- Entries with those of another object, which win. -/
def merge (entries others : Entries) : Entries :=
  others.foldl (fun entries other => assign other.1 other.2 entries) entries

/-- Entries without one. -/
def without (keyword : String) (entries : Entries) : Entries :=
  entries.filter fun entry => entry.1 != keyword

/-- The name of a definition that is referred to. -/
def definitionName (ref : String) : String :=
  String.ofList ((ref.toList.splitOn '/').getLast?.getD [])

/-- **The schema with the definition it refers to**, if any, merged in. -/
def resolveRef (definitions schema : Entries) : Except ValidatorError Entries :=
  match schema.lookup "$ref" with
  | none | some .null => .ok (without "$ref" schema)
  | some (.scalar (.text ref)) =>
    match definitions.lookup (definitionName ref) with
    | none => .error .key
    | some (.document definition) => .ok (merge definition (without "$ref" schema))
    | some _ => .error .type
  | some _ => .error .attribute

/-- An exclusive bound, with the boolean of draft 4 beside the bound itself. -/
def translateBound (bound limit : String) (schema : Entries) : Entries :=
  match schema.lookup bound with
  | none | some (.scalar (.bool _)) => schema
  | some argument => assign bound (Json.bool true) (assign limit argument schema)

/-- A constant, as a list of one. -/
def translateConst (schema : Entries) : Entries :=
  match schema.lookup "const" with
  | none => schema
  | some value => assign "enum" (.list [value]) schema

/-- The items of a tuple. -/
def translatePrefixItems (schema : Entries) : Entries :=
  match schema.lookup "prefixItems" with
  | none => schema
  | some items => assign "additionalItems" (Json.bool false) (assign "items" items schema)

/-- **The schema with the keywords MongoDB lacks written as ones it has.** -/
def translateKeywords (schema : Entries) : Entries :=
  translateBound "exclusiveMaximum" "maximum"
    (translateBound "exclusiveMinimum" "minimum" (translatePrefixItems (translateConst schema)))

/-- **The schema with the BSON type of its JSON type.** -/
def mapToBsonType (schema : Entries) : Except ValidatorError Entries :=
  let jsonType := schema.lookup "type"
  if jsonType = some (Json.text "string") ∧ schema.lookup "format" = some (Json.text "date-time") then
    .ok [("bsonType", Json.text "date")]
  else if jsonType = some (Json.text "string") ∧
      schema.lookup "pattern" = some (Json.text idPattern) then
    .ok [("bsonType", Json.text "objectId")]
  else
    match jsonType with
    | none | some .null => .ok schema
    | some (.scalar (.text name)) =>
      match bsonTypes.lookup name with
      | none => .error .key
      | some bsonType => .ok (assign "bsonType" bsonType schema)
    | some (.scalar _) => .error .key
    | some _ => .error .type

/-- A keyword with its argument converted, or each value of the argument. -/
def convertKeyword (convert : Json → Except ValidatorError Json) (entry : String × Json) :
    Except ValidatorError (String × Json) :=
  if entry.1 = "properties" ∨ entry.1 = "patternProperties" then
    match entry.2 with
    | .document fields => do
      return (entry.1, .document (← fields.mapM fun field => do
        return (field.1, ← convert field.2)))
    | _ => .error .attribute
  else do return (entry.1, ← convert entry.2)

/-- **The schema with only the keywords MongoDB knows**, each value converted. -/
def keepMongoKeywords (convert : Json → Except ValidatorError Json) (schema : Entries) :
    Except ValidatorError Entries :=
  (schema.filter fun entry => mongoKeywords.contains entry.1).mapM (convertKeyword convert)

/-! ## The validator -/

/-- **Convert a JSON schema of pydantic's to MongoDB's dialect**, to a depth of calls. -/
def convertToMongoJsonSchema (definitions : Entries) : ℕ → Json → Except ValidatorError Json
  | 0, _ => .error .recursion
  | n + 1, .list items => do return .list (← items.mapM (convertToMongoJsonSchema definitions n))
  | n + 1, .document entries => do
    let schema ← resolveRef definitions entries
    let schema ← mapToBsonType (translateKeywords schema)
    return .document (← keepMongoKeywords (convertToMongoJsonSchema definitions n) schema)
  | _ + 1, value => .ok value

/-- The definitions of a JSON schema. -/
def definitionsOf (jsonSchema : Entries) : Entries :=
  match jsonSchema.lookup "$defs" with
  | some (.document definitions) => definitions
  | _ => []

/-- The properties of a validator, in which the `id` is the document's key. -/
def withKeyProperty (properties : Entries) : Entries :=
  assign keyField ((properties.lookup "id").getD (.document [("bsonType", Json.text "objectId")]))
    (without "id" properties)

/-- The required fields, in which the `id` is the document's key. -/
def withRequired (mongoSchema : Entries) : Entries :=
  match ((mongoSchema.lookup "required").map Json.texts).getD [] with
  | [] => without "required" mongoSchema
  | names => assign "required" (.list (names.map fun name => Json.text (getDocumentField name)))
      mongoSchema

/-- **The validator of a schema**, made of the JSON schema of its class. -/
def getValidator (depth : ℕ) (allowsExtra : Bool) (jsonSchema : Entries) :
    Except ValidatorError Json := do
  match ← convertToMongoJsonSchema (definitionsOf jsonSchema) depth (.document jsonSchema) with
  | .document mongoSchema =>
    match (mongoSchema.lookup "properties").getD (.document []) with
    | .document properties =>
      return .document (assign "additionalProperties" (Json.bool allowsExtra)
        (withRequired (assign "properties" (.document (withKeyProperty properties)) mongoSchema)))
    | _ => .error .attribute
  | _ => .error .attribute

/-! ## What is stored -/

/-- **The types of what MongoDB stores**: its driver takes an integer of 32 bits for an `int`. -/
def bsonDialect : Dialect BsonScalar where
  types
    | .value (.bool _) => ["bool"]
    | .value (.int i) => [if -2 ^ 31 ≤ i ∧ i < 2 ^ 31 then "int" else "long", "number"]
    | .value (.float _) => ["double", "number"]
    | .value (.text _) => ["string"]
    | .value (.datetime _) => ["date"]
    | .objectId _ => ["objectId"]
  number?
    | .value (.int i) => some i
    | .value (.float q) => some q
    | _ => none
  text?
    | .value (.text s) => some s
    | _ => none
  isEqual
    | .bool a, .value (.bool b) => a = b
    | .number q, .value (.int i) => q = i
    | .number q, .value (.float r) => q = r
    | .text a, .value (.text b) => a = b
    | _, _ => false

end Mongo

end Mss
