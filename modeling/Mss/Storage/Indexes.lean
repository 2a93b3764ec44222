import Mss.Storage.MongoWrites

/-!
# The indexes of MongoDB

SQL keeps a schema's key apart by itself, as a column's constraint. MongoDB keeps apart what its
indexes are told to: the groups of fields that are declared unique, and its own `_id`.

* **`getIndexes`**: the indexes that a schema asks for.
* **`isDuplicate`**: whether they keep two documents apart.
* `appSchemas`: how the schemas of the app are stored.
-/

namespace Mss

open Storage

namespace Mongo

/-! ## Indexes -/

/-- An index: its keys, and whether each is descending, with its options. -/
structure IndexModel where
  keys : List (String × Bool)
  isUnique : Bool := false
  collation : Option Collation := none
  expireAfterSeconds : Option ℕ := none
  deriving DecidableEq, Repr

/-- The keys of an index on a group of fields. -/
def getIndexKeys (group : List String) : List (String × Bool) :=
  group.map fun field =>
    (getDocumentField (lstripDashes field), field.toList.head? == some '-')

/-- The collation of an index: without case if one of its keys is. -/
def getIndexCollation (spec : StorageSpec) (keys : List (String × Bool)) : Option Collation :=
  if keys.any fun key => spec.caseInsensitive.contains key.1 then some caseInsensitive else none

/-- The index of a group of fields that no two records share. -/
def uniqueIndex (spec : StorageSpec) (group : List String) : IndexModel where
  keys := getIndexKeys group
  isUnique := true
  collation := getIndexCollation spec (getIndexKeys group)

/-- The index of a case-insensitive field. -/
def caseInsensitiveIndex (field : String) : IndexModel where
  keys := getIndexKeys [field]
  collation := some caseInsensitive

/-- The index that expires records. -/
def expiryIndex (field : String) : IndexModel where
  keys := getIndexKeys [field]
  expireAfterSeconds := some 0

/-- An index on a group of fields. -/
def plainIndex (group : List String) : IndexModel where
  keys := getIndexKeys group

/-- Whether a field, which the database has checked, holds a list. -/
def isListReference (schema : Schema) (field : String) : Bool :=
  match resolveField schema field with
  | .ok (some a) => a.isListField
  | _ => false

/-- The indexes that are not unique. -/
def otherIndexes (schema : Schema) : List IndexModel :=
  let spec := schema.storage
  spec.caseInsensitive.map caseInsensitiveIndex ++ spec.expires.toList.map expiryIndex ++
    ((spec.references.filter (isListReference schema)) ++ spec.indexedLists).map
      (fun field => plainIndex [field]) ++ spec.indexes.map plainIndex

/-- The first index on each set of keys. -/
def setDefaults : List IndexModel → List IndexModel
  | [] => []
  | index :: indexes => index :: (setDefaults indexes).filter fun other => other.keys != index.keys

/-- **The indexes that a schema asks for**, at most one on each set of keys, without the one that
MongoDB keeps on `_id`. -/
def getIndexes (schema : Schema) : List IndexModel :=
  (setDefaults (schema.storage.unique.map (uniqueIndex schema.storage) ++
    otherIndexes schema)).filter fun index => index.keys != [(keyField, false)]

/-! ## What a unique index keeps apart -/

/-- What is in an index of a value: the items of a list, or the value. -/
def entriesOf : Bson → List Bson
  | .list [] => [.list []]
  | .list items => items
  | v => [v]

/-- What is in an index of a document, for one of its keys. -/
def indexEntries (key : String) (document : Document) : List Bson :=
  ((Value.document document).reached (pathParts key)).flatMap entriesOf

section

variable (fold : String → String)

/-- Whether two values are equal in an index: text as its collation has it, numbers by value. -/
def isEqual (collation : Option Collation) : Bson → Bson → Bool
  | .scalar (.value (.text s)), .scalar (.value (.text t)) =>
    if collation.isSome then fold s = fold t else s = t
  | .scalar (.value (.int i)), .scalar (.value (.float q))
  | .scalar (.value (.float q)), .scalar (.value (.int i)) => (i : ℚ) = q
  | v, w => v = w

/-- Whether two documents have an entry in common, for a key. -/
def sharesKey (collation : Option Collation) (key : String) (a b : Document) : Bool :=
  (indexEntries key a).any fun v => (indexEntries key b).any (isEqual fold collation v)

/-- Whether a unique index keeps two documents apart. -/
def IndexModel.isDuplicate (index : IndexModel) (a b : Document) : Bool :=
  index.isUnique && index.keys.all fun key => sharesKey fold index.collation key.1 a b

/-- **Whether the indexes keep two documents apart**, that on `_id` among them. -/
def isDuplicate (indexes : List IndexModel) (a b : Document) : Bool :=
  sharesKey fold none keyField a b || indexes.any fun index => index.isDuplicate fold a b

end

end Mongo

/-! ## The schemas of the app -/

/-- A schema of the app: how it is stored, and the type of its key. -/
structure AppSchema where
  name : String
  storage : StorageSpec
  keyType : ScalarType
  deriving DecidableEq, Repr

/-- **The schemas of the app.** -/
def appSchemas : List AppSchema :=
  [{ name := "AppToken", keyType := .id
     storage := { table := "auth_app_tokens", key := "id", unique := [["token"]],
                  indexes := [["project_id", "user_id"]] } },
   { name := "Project", keyType := .id
     storage := { table := "auth_projects", key := "id", unique := [["name"]],
                  indexedLists := ["user_ids"] } },
   { name := "DeletedProject", keyType := .id
     storage := { table := "deleted_auth_projects", key := "id" } },
   { name := "Role", keyType := .strEnum
     storage := { table := "auth_roles", key := "name" } },
   { name := "User", keyType := .id
     storage := { table := "auth_users", key := "id", unique := [["email"]],
                  caseInsensitive := ["email"], references := ["roles"],
                  indexedLists := ["oauth_accounts"],
                  indexes := [["oauth_accounts.oauth_name", "oauth_accounts.account_id"]] } },
   { name := "BccNonce", keyType := .str
     storage := { table := "bcc_nonces", key := "nonce", unique := [["nonce"]],
                  expires := some "expires_at" } },
   { name := "DeviceCalibration", keyType := .str
     storage := { table := "calibrations", key := "name", unique := [["name"]] } },
   { name := "DeviceCalibrationLog", keyType := .id
     storage := { table := "calibrations_logs", key := "id",
                  indexes := [["name"], ["-last_calibrated"]] } },
   { name := "Device", keyType := .str
     storage := { table := "devices", key := "name", indexes := [["name"]] } },
   { name := "DeviceConnection", keyType := .id
     storage := { table := "device_connections", key := "id", expires := some "expires_at",
                  indexes := [["device_name"]] } },
   { name := "SwitchedOffDevice", keyType := .str
     storage := { table := "switched_off_devices", key := "name" } },
   { name := "Job", keyType := .str
     storage := { table := "jobs", key := "job_id", indexes := [["job_id"]],
                  shouldSkipInvalid := true } },
   { name := "Notice", keyType := .id
     storage := { table := "notices", key := "id", expires := some "expires_at",
                  indexedLists := ["dismissed_by"], shouldSkipInvalid := true,
                  indexes := [["user_id", "-created_at"], ["user_id", "read_at"],
                    ["email_status", "updated_at"], ["starts_at", "expires_at"],
                    ["ref_type", "ref_id"]] } },
   { name := "NoticePreferences", keyType := .id
     storage := { table := "notice_preferences", key := "user_id", unique := [["user_id"]] } },
   { name := "NoticeTemplate", keyType := .strEnum
     storage := { table := "notice_templates", key := "type", unique := [["type"]] } },
   { name := "Request", keyType := .id
     storage := { table := "requests", key := "id", indexedLists := ["target_user_ids"],
                  indexes := [["type"], ["resource_id", "status"],
                    ["requester_id", "-created_at"]] } }]

/-- A schema is one of the app's: it is stored so, and its key is of that type. -/
def Schema.Is (schema : Schema) (app : AppSchema) : Prop :=
  schema.storage = app.storage ∧
    schema.declared app.storage.key = some (.scalar app.keyType)

/-- Whether MongoDB keeps the key apart: it is `_id`, or it is declared unique. -/
def StorageSpec.hasUniqueKey (spec : StorageSpec) : Bool :=
  spec.key = "id" || spec.unique.contains [spec.key]

/-- The schemas of the app whose key MongoDB does not keep apart. -/
example : (appSchemas.filter fun app => !app.storage.hasUniqueKey).map (·.name) =
    ["Role", "Device", "SwitchedOffDevice", "Job"] := by decide +kernel

end Mss
