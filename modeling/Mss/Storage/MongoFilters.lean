import Mss.Storage.Finds

/-!
# Filters in MongoDB

A filter is MongoDB's own query, but for its values: ids are strings above the storage layer and
ObjectIds in MongoDB, so that every value bound for an Id field becomes one, and every ObjectId
read becomes a string.

* `Bson`: what MongoDB stores; `encode`: what its client makes of a Python value.
* `convertToBsonValue`: a value bound for a field.
* **`Mongo.translateFilter`**, `translateUnexpiredFilter`: the query of a filter.
* `getQueryCollation`: the collation of the whole query.
* `convertToRecord`: the record of a stored document.
* `MongoServer`, **`MongoStore.find`**: the server, and what the store asks of it.
-/

namespace Mss

open Storage

/-! ## Values -/

/-- A scalar that MongoDB stores. -/
inductive BsonScalar
  | value (s : Scalar)
  | objectId (hex : String)
  deriving DecidableEq, Repr

/-- **A value that MongoDB stores.** -/
abbrev Bson := Value BsonScalar

/-- The fields of a stored document. -/
abbrev Document := List (String × Bson)

namespace Mongo

/-- The field of a document that is its key. -/
def keyField : String := "_id"

/-- The field as MongoDB stores it: the `id` field is the document's `_id`. -/
def getDocumentField (field : String) : String := if field = "id" then keyField else field

/-- A datetime is stored to the millisecond, of an instant in microseconds. -/
def toMilliseconds (instant : ℤ) : ℤ := instant / 1000 * 1000

/-- Encode a scalar: integers have 64 bits, and UUIDs and paths are not encoded. -/
def encodeScalar : PyScalar → Except FindError Bson
  | .int i | .intEnum i =>
    if -2 ^ 63 ≤ i ∧ i < 2 ^ 63 then .ok (.scalar (.value (.int i))) else .error .notEncoded
  | .datetime wall utcOffset =>
    .ok (.scalar (.value (.datetime (toMilliseconds (wall - utcOffset.getD 0)))))
  | .uuid _ | .path _ => .error .notEncoded
  | s => .ok (.scalar (.value s.toScalar))

mutual

/-- Encode a value as it is. -/
def encode : PyValue → Except FindError Bson
  | .none => .ok .null
  | .scalar s => encodeScalar s
  | .sequence .set _ => .error .notEncoded
  | .sequence _ items => do return .list (← encodeItems items)
  | .dict entries => do return .document (← encodeEntries entries)

/-- Encode the items of a list. -/
def encodeItems : List PyValue → Except FindError (List Bson)
  | [] => .ok []
  | v :: vs => do
    let b ← encode v
    return b :: (← encodeItems vs)

/-- Encode the entries of a dict. -/
def encodeEntries : List (String × PyValue) → Except FindError Document
  | [] => .ok []
  | (name, v) :: es => do
    let b ← encode v
    return (name, b) :: (← encodeEntries es)

end

mutual

/-- Convert the Python values that are not encoded into ones that are. -/
def convertToBson : PyValue → Except FindError Bson
  | .scalar (.uuid text) | .scalar (.path text) => .ok (.scalar (.value (.text text)))
  | .none => .ok .null
  | .scalar s => encodeScalar s
  | .sequence _ items => do return .list (← convertItems items)
  | .dict entries => do return .document (← convertEntries entries)

/-- Convert the items of a list. -/
def convertItems : List PyValue → Except FindError (List Bson)
  | [] => .ok []
  | v :: vs => do
    let b ← convertToBson v
    return b :: (← convertItems vs)

/-- Convert the entries of a dict. -/
def convertEntries : List (String × PyValue) → Except FindError Document
  | [] => .ok []
  | (name, v) :: es => do
    let b ← convertToBson v
    return (name, b) :: (← convertEntries es)

end

/-- Whether it is a digit of a number to the base 16. -/
def isHexDigit (c : Char) : Bool := "0123456789abcdefABCDEF".toList.contains c

/-- The ObjectId of a text, which has to be 24 digits to the base 16. -/
def objectId (text : String) : Except FindError Bson :=
  if text.toList.length = 24 ∧ text.toList.all isHexDigit then
    .ok (.scalar (.objectId (text.map Char.toLower)))
  else .error .notEncoded

mutual

/-- Convert ids, alone or in a sequence. -/
def convertToObjectIds : PyValue → Except FindError Bson
  | .scalar (.str text) | .scalar (.strEnum text) => objectId text
  | .sequence _ items => do return .list (← convertIds items)
  | v => encode v

/-- Convert the ids of a sequence. -/
def convertIds : List PyValue → Except FindError (List Bson)
  | [] => .ok []
  | v :: vs => do
    let b ← convertToObjectIds v
    return b :: (← convertIds vs)

end

mutual

/-- Convert a nested model's data, alone or in a list. -/
def convertNestedValue (model : Fields) : PyValue → Except FindError Bson
  | .dict entries => do return .document (← convertToDocumentValues model entries)
  | .sequence .list items => do return .list (← convertNestedItems model items)
  | v => convertToBson v

/-- Convert the items of a list of a model's data. -/
def convertNestedItems (model : Fields) : List PyValue → Except FindError (List Bson)
  | [] => .ok []
  | v :: vs => do
    let b ← convertNestedValue model v
    return b :: (← convertNestedItems model vs)

/-- **Convert a model's data**, each field by its annotation. -/
def convertToDocumentValues (model : Fields) : List (String × PyValue) → Except FindError Document
  | [] => .ok []
  | (name, v) :: es => do
    let b ←
      match model.lookup name with
      | none => convertToBson v
      | some a =>
        if a.isIdField then convertToObjectIds v
        else
          match a.findNestedModel with
          | some (_, nested) => convertNestedValue nested v
          | none => convertToBson v
    return (name, b) :: (← convertToDocumentValues model es)

end

/-- **Convert a value bound for a field.** -/
def convertToBsonValue (schema : Schema) (field : String) (value : PyValue) :
    Except FindError Bson := do
  match ← (resolveField schema field).mapError .refused with
  | none => convertToBson value
  | some a =>
    if a.isIdField then convertToObjectIds value
    else
      match a.findNestedModel with
      | some (_, nested) => convertNestedValue nested value
      | none => convertToBson value

/-! ## Filters -/

/-- The query of a condition on a field, `$elemMatch` apart: each operator with its operand, or a
value to equal. -/
def translateCondition (schema : Schema) (field : String) (condition : PyValue) :
    Except FindError Bson :=
  match condition with
  | .dict entries =>
    if isOperatorMap condition then do
      let operators ← entries.mapM fun entry => do
        return (entry.1, ← convertToBsonValue schema field entry.2)
      return .document operators
    else convertToBsonValue schema field condition
  | v => convertToBsonValue schema field v

/-- The query of an `$elemMatch`: the conditions on the fields of the elements. -/
def translateElementFilter (schema : Schema) (field : String) (elementFilter : PyValue) :
    Except FindError Bson :=
  match elementFilter with
  | .dict entries => do
    let conditions ← entries.mapM fun entry => do
      return (entry.1, ← translateCondition schema (field ++ "." ++ entry.1) entry.2)
    return .document conditions
  | _ => .error (.raised .attributeError)

/-- The entry of a condition on a field. -/
def translateField (schema : Schema) (field : String) (condition : PyValue) :
    Except FindError (String × Bson) :=
  if isOperatorMap condition && hasKey elementMatch condition then
    match condition with
    | .dict entries => do
      let elements ← translateElementFilter schema field
        ((entries.lookup elementMatch).getD .none)
      return (field, .document [(elementMatch, elements)])
    | _ => .error (.raised .typeError)
  else do
    return (getDocumentField field, ← translateCondition schema field condition)

mutual

/-- The entry of a query. -/
def translateEntry (schema : Schema) : Entry → Except FindError (String × Bson)
  | .logical operator filters => do
    return (operator.name, .list (← translateFilters schema filters))
  | .field name condition => translateField schema name condition

/-- **The query of a filter**: the same document, with MongoDB's values. -/
def translateFilter (schema : Schema) : List Entry → Except FindError Document
  | [] => .ok []
  | entry :: entries => do
    let e ← translateEntry schema entry
    return e :: (← translateFilter schema entries)

/-- The queries of a list of filters. -/
def translateFilters (schema : Schema) : List (List Entry) → Except FindError (List Bson)
  | [] => .ok []
  | filter :: filters => do
    let query ← translateFilter schema filter
    return .document query :: (← translateFilters schema filters)

end

/-- The query of the records unexpired at an instant. -/
def isUnexpired (field : String) (now : ℤ) : Document :=
  [("$or", .list [.document [(field, .null)],
    .document [(field, .document [("$gt", .scalar (.value (.datetime (toMilliseconds now))))])]])]

/-- **The query of a filter, leaving out records past their expiry.** -/
def translateUnexpiredFilter (schema : Schema) (now : ℤ) (filter : Filter) :
    Except FindError Document := do
  let query ← translateFilter schema filter
  match schema.storage.expires with
  | none => return query
  | some field =>
    if query.isEmpty then return isUnexpired field now
    else return [("$and", .list [.document query, .document (isUnexpired field now)])]

/-- A sort as MongoDB takes it: each field of the document, and whether it is descending. -/
def translateSort (sort : List String) : List (String × Bool) :=
  (parseSort sort).map fun field => (getDocumentField field.1, field.2)

/-! ## Collations -/

mutual

/-- The fields that an entry names. -/
def extractEntry : Entry → List String
  | .logical _ filters => extractAll filters
  | .field name _ => [name]

/-- Every field the filter names, nested filters included. -/
def extractFields : List Entry → List String
  | [] => []
  | entry :: entries => extractEntry entry ++ extractFields entries

/-- The fields that a list of filters name. -/
def extractAll : List (List Entry) → List String
  | [] => []
  | filter :: filters => extractFields filter ++ extractAll filters

end

/-- How MongoDB compares text. -/
structure Collation where
  locale : String
  strength : ℕ
  deriving DecidableEq, Repr

/-- English without case. -/
def caseInsensitive : Collation := ⟨"en", 2⟩

/-- **The collation of a query**: that of case-insensitive fields, if it names one. -/
def getQueryCollation (schema : Schema) (filter : Filter) : Option Collation :=
  if (extractFields filter).any schema.storage.caseInsensitive.contains then some caseInsensitive
  else none

/-! ## Records -/

mutual

/-- An ObjectId reads as text. -/
def convertFromBson : Bson → Value Scalar
  | .null => .null
  | .scalar (.value s) => .scalar s
  | .scalar (.objectId hex) => .scalar (.text hex)
  | .list items => .list (convertFromItems items)
  | .document fields => .document (convertFromFields fields)

/-- The items of a list as they are read. -/
def convertFromItems : List Bson → List (Value Scalar)
  | [] => []
  | b :: bs => convertFromBson b :: convertFromItems bs

/-- The fields of a document as they are read. -/
def convertFromFields : Document → List (String × Value Scalar)
  | [] => []
  | (name, b) :: fs => (name, convertFromBson b) :: convertFromFields fs

end

/-- The data of a stored document: its `_id` is the `id` of a schema that has one. -/
def dataOf (schema : Schema) (document : Document) : List (String × Value Scalar) :=
  let fields := convertFromFields document
  let others := fields.filter fun field => field.1 != keyField
  if (schema.declared "id").isSome then
    others.filter (fun field => field.1 != "id") ++ [("id", Value.get keyField fields)]
  else others

/-- **Convert a stored document into a record**, validated. -/
def convertToRecord {R : Type} (validate : Value Scalar → Except ValidationError R)
    (schema : Schema) (document : Document) : Except ValidationError R :=
  validate (.document (dataOf schema document))

end Mongo

/-! ## The server -/

open Mongo

/-- **MongoDB**: which documents a query matches under a collation, and the order of a sort. -/
structure MongoServer where
  isMatch : Option Collation → Document → Document → Bool
  order : Option Collation → List (String × Bool) → Document → Document → Prop

/-- How the server sorts what a query matched; documents that the sort does not tell apart come in
any order. -/
abbrev MongoPlan (server : MongoServer) :=
  ∀ collation sort, Sorting (server.order collation sort)

/-- The documents a query finds. A limit of 0 is no limit. -/
def MongoServer.find (server : MongoServer) (plan : MongoPlan server) (documents : List Document)
    (query : Document) (sort : List (String × Bool)) (skip limit : ℕ)
    (collation : Option Collation) : List Document :=
  page skip (if limit = 0 then none else some limit)
    ((plan collation sort).run (documents.filter (server.isMatch collation query)))

namespace MongoStore

variable {R : Type} (validate : Value Scalar → Except ValidationError R) {server : MongoServer}

/-- **The unexpired records that match the filter**, in the sort's order. -/
def find (plan : MongoPlan server) (schema : Schema) (documents : List Document) (now : ℤ)
    (filter : Filter) (sort : List String) (skip : ℕ) (limit : Option ℕ) :
    Except FindError (List R) := do
  let query ← translateUnexpiredFilter schema now filter
  let found := server.find plan documents query (Mongo.translateSort sort) skip (limit.getD 0)
    (getQueryCollation schema filter)
  let records ← found.mapM (readStored schema (convertToRecord validate schema))
  return records.reduceOption

end MongoStore

end Mss
