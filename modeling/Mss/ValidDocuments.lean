import Mss.StoredRecords
import Mss.TakenValues

/-!
# MongoDB's validator takes what MSS writes

A schema's collection has a validator, which its model's JSON schema comes to but for the id, and its
records are written as documents. Every valid record's document is taken.

* `TakesField`, `IsModelEntry`: what the JSON schema of a model comes to; `accepts_modelEntry`.
* **`takes_of_isJsonSchema`**: the two recursions agree on every annotation.
* **`validator_takes`**: the validator of a schema takes the document of each valid record.
-/

namespace Mss

open Storage

namespace Mongo

section

variable {definitions entries : Entries}

/-! ## Models -/

/-- What a field is converted to is taken by the validator of its property. -/
def TakesField (definitions : Entries) (schemas : String → Json) (valid : String → PyValue → Prop)
    (field : String × FieldType) (property : String × Json) : Prop :=
  property.1 = field.1 ∧ Converts definitions (schemas field.1) property.2 ∧
    ∀ v, valid field.1 v → ∃ b, convertField field.2 v = .ok b ∧
      bsonDialect.accepts property.2 b = true

/-- What is kept of the JSON schema of a model. -/
inductive IsModelEntry (allowsExtra : Bool) (names : List String) (properties : Entries) :
    String × Json → Prop
  | remark {entry : String × Json} (name : entry.1 ∈ ["title", "description"])
      (takes : ∀ keywords v, AcceptsEntry keywords v entry) :
      IsModelEntry allowsExtra names properties entry
  | type : IsModelEntry allowsExtra names properties ("bsonType", Json.text "object")
  | properties : IsModelEntry allowsExtra names properties ("properties", .document properties)
  | required {some : List String} (declared : ∀ name ∈ some, name ∈ names) :
      IsModelEntry allowsExtra names properties ("required", .list (some.map Json.text))
  | extra : IsModelEntry allowsExtra names properties ("additionalProperties", Json.bool true)
  | noExtra (allowsNone : allowsExtra = false) :
      IsModelEntry allowsExtra names properties ("additionalProperties", Json.bool false)

variable {allowsExtra : Bool} {fields : Fields} {schemas : String → Json}
  {validField : String → PyValue → Prop}

theorem exists_properties
    (members : ∀ field ∈ fields, Takes definitions field.2 (schemas field.1) (validField field.1)) :
    ∃ properties, ConvertsKeyword definitions
        ("properties", .document (fields.map fun field => (field.1, schemas field.1)))
        ("properties", .document properties) ∧
      List.Forall₂ (TakesField definitions schemas validField) fields properties := by
  have hconverts : ∀ property ∈ fields.map fun field => (field.1, schemas field.1),
      ∃ j', Converts definitions property.2 j' := by
    intro property hproperty
    obtain ⟨field, hfield, rfl⟩ := List.mem_map.mp hproperty
    obtain ⟨j', hj', -⟩ := members field hfield
    exact ⟨j', hj'⟩
  obtain ⟨properties, hproperties, hall⟩ := convertsKeyword_properties hconverts
  refine ⟨properties, hproperties, ?_⟩
  have hboth := (List.forall₂_and_left fields properties).mpr
    ⟨members, List.forall₂_map_left_iff.mp hall⟩
  refine hboth.imp ?_
  rintro field property ⟨⟨j', hj', -, htakes⟩, hname, hj⟩
  obtain rfl := hj'.unique hj
  exact ⟨hname, hj', htakes⟩

theorem names_of_forall₂ {properties : Entries}
    (h : List.Forall₂ (TakesField definitions schemas validField) fields properties) :
    fields.map Prod.fst = properties.map Prod.fst := by
  induction h with
  | nil => rfl
  | cons hhead _ ih => rw [List.map_cons, List.map_cons, ih, hhead.1]

/-- **The JSON schema of a model** comes to what is kept of it. -/
theorem exists_modelValidator (shape : IsModelSchema allowsExtra fields schemas entries)
    {properties : Entries} (hproperties : ConvertsKeyword definitions
      ("properties", .document (fields.map fun field => (field.1, schemas field.1)))
      ("properties", .document properties)) :
    ∃ out, Converts definitions (.document entries) (.document out) ∧
      out.lookup "properties" = some (.document properties) ∧
      ∀ entry ∈ out, IsModelEntry allowsExtra (fields.map Prod.fst) properties entry := by
  have hnone := lookup_translated fun entry hentry => show entry.1 ∉ translated by
    obtain hremark | rfl | rfl | ⟨names, rfl, -⟩ | rfl | ⟨-, rfl⟩ := shape.only entry hentry
    · exact remark_not_translated hremark
    · exact (show "type" ∉ translated by decide)
    · exact (show "properties" ∉ translated by decide)
    · exact (show "required" ∉ translated by decide)
    · exact (show "additionalProperties" ∉ translated by decide)
    · exact (show "additionalProperties" ∉ translated by decide)
  have hmap := mapToBsonType_type shape.type (fun h => absurd h (by decide))
    (fun h => absurd h (by decide)) rfl
  -- every entry that MongoDB knows is converted to one that takes what the model takes
  have hconverts : ∀ entry ∈ assign "bsonType" (Json.text "object") entries,
      mongoKeywords.contains entry.1 = true → ∃ entry', ConvertsKeyword definitions entry entry' ∧
        IsModelEntry allowsExtra (fields.map Prod.fst) properties entry' := by
    intro entry hentry hcontains
    obtain rfl | ⟨hentry, -⟩ := mem_assign hentry
    · exact ⟨_, convertsKeyword_of "bsonType" (by decide) (converts_scalar _), .type⟩
    obtain hremark | rfl | rfl | ⟨names, rfl, hnames⟩ | rfl | ⟨hextra, rfl⟩ :=
      shape.only entry hentry
    · obtain ⟨entry', hentry', htakes⟩ := converts_remark hremark hcontains
      refine ⟨entry', hentry', .remark ?_ htakes⟩
      rw [name_of_converts hentry']
      exact (mem_remark hremark hcontains).1
    · exact absurd hcontains (by decide)
    · exact ⟨_, hproperties, .properties⟩
    · refine ⟨_, convertsKeyword_of "required" (by decide) (converts_scalars fun j hj => ?_),
        .required hnames⟩
      obtain ⟨name, -, rfl⟩ := List.mem_map.mp hj
      exact ⟨_, rfl⟩
    · exact ⟨_, convertsKeyword_of "additionalProperties" (by decide) (converts_scalar _), .extra⟩
    · exact ⟨_, convertsKeyword_of "additionalProperties" (by decide) (converts_scalar _),
        .noExtra hextra⟩
  obtain ⟨out, hout, hall⟩ := converts_document (resolveRef_none (hnone "$ref" (by decide)))
    ((congrArg mapToBsonType (translateKeywords_none hnone)).trans hmap)
    fun entry hentry hcontains => (hconverts entry hentry hcontains).imp fun _ h => h.1
  refine ⟨out, hout, ?_, fun entry' hentry' => ?_⟩
  -- the converted properties are the only entry of that name
  · obtain ⟨hno, -⟩ | ⟨k, k', hk, hk', hto⟩ := lookup_out hall
      (show mongoKeywords.contains "properties" = true by decide) (by decide)
    · rw [shape.properties] at hno
      cases hno
    · rw [shape.properties] at hk
      obtain rfl := Option.some.inj hk
      rw [hk']
      exact congrArg some (congrArg Prod.snd (hto.unique hproperties))
  · obtain ⟨entry, hentry, hfrom⟩ := exists_of_forall₂ hall hentry'
    obtain ⟨hmem, hcontains⟩ := List.mem_filter.mp hentry
    obtain ⟨_, hto, hmodel⟩ := hconverts entry hmem hcontains
    rwa [hfrom.unique hto]

/-! ## Data of models -/

/-- **A model's validator takes a document** that has the fields it asks for, each taken by the
validator of its property. -/
theorem accepts_modelEntry {names : List String} {properties out : Entries} {document : Document}
    {entry : String × Json} (h : IsModelEntry allowsExtra names properties entry)
    (hproperties : out.lookup "properties" = some (.document properties))
    (htaken : ∀ name b, document.lookup name = some b → ∀ j, (name, j) ∈ properties →
      bsonDialect.accepts j b = true)
    (hnames : ∀ name ∈ names, (document.lookup name).isSome = true)
    (honly : allowsExtra = false → ∀ field ∈ document, (properties.lookup field.1).isSome = true) :
    AcceptsEntry out (.document document) entry := by
  cases h with
  | remark _ takes => exact takes out _
  | type => exact accepts_bsonType rfl
  | properties =>
    exact accepts_properties fun property hproperty b hb => htaken property.1 b hb property.2 hproperty
  | required declared => exact accepts_required fun name hname => hnames name (declared name hname)
  | extra => exact accepts_additionalProperties fun _ _ => .inr rfl
  | noExtra allowsNone =>
    refine accepts_additionalProperties fun field hfield => .inl ?_
    unfold Dialect.isDeclared
    rw [hproperties]
    exact honly allowsNone field hfield

/-- **An entry of a model's data** is converted, and taken by the validator of its property. -/
theorem convertEntry_takes {properties : Entries}
    (hproperties : List.Forall₂ (TakesField definitions schemas validField) fields properties)
    {entry : String × PyValue}
    (hfield : ∀ a, fields.lookup entry.1 = some a → validField entry.1 entry.2)
    (hextra : fields.lookup entry.1 = none → Encodable entry.2) :
    ∃ field, convertEntry fields entry = .ok field ∧ field.1 = entry.1 ∧
      ∀ j, properties.lookup entry.1 = some j → bsonDialect.accepts j field.2 = true := by
  obtain ⟨hno, hnone⟩ | ⟨a, j, ha, hj, htakes⟩ :=
    lookup_of_forall₂ (fun _ _ h => h.1) hproperties entry.1
  · obtain ⟨b, hb⟩ := hextra hno
    refine ⟨(entry.1, b), ?_, rfl, fun j hj => ?_⟩
    · rw [convertEntry, hno]
      show (do let b ← convertToBson entry.2; return (entry.1, b)) = _
      rw [hb]
      rfl
    · rw [hnone] at hj
      cases hj
  · obtain ⟨b, hb, haccepts⟩ := htakes.2.2 entry.2 (hfield a ha)
    refine ⟨(entry.1, b), ?_, rfl, fun j' hj' => ?_⟩
    · rw [convertEntry, ha]
      show (do let b ← convertField a entry.2; return (entry.1, b)) = _
      rw [hb]
      rfl
    · rw [hj] at hj'
      rwa [← Option.some.inj hj']

theorem takes_model (shape : IsModelSchema allowsExtra fields schemas entries)
    (members : ∀ field ∈ fields, Takes definitions field.2 (schemas field.1) (validField field.1)) :
    Takes definitions (.model allowsExtra fields) (.document entries) fun v =>
      ∃ data, v = .dict data ∧ IsModelData allowsExtra fields validField data := by
  obtain ⟨properties, hproperties, hall⟩ := exists_properties members
  obtain ⟨out, hout, hlookup, honly⟩ := exists_modelValidator shape hproperties
  have hnames : fields.map Prod.fst = properties.map Prod.fst := names_of_forall₂ hall
  refine ⟨.document out, hout, nofun, ?_⟩
  rintro v ⟨data, rfl, hdata⟩
  obtain ⟨document, hdocument, hentries⟩ := exists_mapM (f := convertEntry fields)
    (q := fun entry field => field.1 = entry.1 ∧
      ∀ j, properties.lookup entry.1 = some j → bsonDialect.accepts j field.2 = true)
    fun entry hentry => convertEntry_takes hall
      (fun a ha => by
        obtain ⟨v, hv, hvalid⟩ := hdata.field _ (mem_of_lookup ha)
        have hentry : data.lookup entry.1 = some entry.2 := lookup_of_mem hdata.names hentry
        obtain rfl := Option.some.inj (hentry.symm.trans hv)
        exact hvalid)
      fun hno => (hdata.extra entry hentry (not_mem_of_lookup hno)).2
  have hsome : ∀ name ∈ fields.map Prod.fst, (document.lookup name).isSome = true := by
    intro name hname
    obtain ⟨field, hfield, rfl⟩ := List.mem_map.mp hname
    obtain ⟨v, hv, -⟩ := hdata.field field hfield
    obtain ⟨hno, -⟩ | ⟨_, b, -, hb, -⟩ := lookup_of_forall₂ (fun _ _ h => h.2.1) hentries field.1
    · rw [hno] at hv
      cases hv
    · rw [hb]
      rfl
  refine ⟨.document document, ?_, Dialect.accepts_iff.mpr fun entry hentry =>
    accepts_modelEntry (honly entry hentry) hlookup (fun name b hb j hj => ?_) hsome
      fun hextra field hfield => ?_⟩
  · show convertNestedValue fields (.dict data) = _
    rw [convertNestedValue, convertToDocumentValues_eq, hdocument]
    rfl
  · have hj := lookup_of_mem (hnames ▸ shape.names) hj
    obtain ⟨-, hno⟩ | ⟨v, b', -, hb', -, -, haccepts⟩ :=
      lookup_of_forall₂ (fun _ _ h => h.2.1) hentries name
    · rw [hno] at hb
      cases hb
    · rw [hb'] at hb
      rw [← Option.some.inj hb]
      exact haccepts j hj
  · obtain ⟨entry, hentry, -, hname, -⟩ := exists_of_forall₂ hentries hfield
    rw [hname]
    by_contra hno
    rw [Option.not_isSome_iff_eq_none] at hno
    obtain ⟨hallows, -⟩ := hdata.extra entry hentry (hnames ▸ not_mem_of_lookup hno)
    rw [hextra] at hallows
    cases hallows

end

end Mongo

/-! ## Every annotation -/

namespace FieldType

mutual

theorem keepsIds_of_holdsIds : ∀ {a : FieldType}, a.holdsIds = false → a.keepsIds = true
  | model _ fields, h => @keepsIdsFields_of_holdsIds fields h
  | generic .list args, h | generic .set args, h => @keepsIdsIn_of_holdsIds args h
  | generic .tuple args, h | generic .dict args, h | generic .other args, h => by
    have hargs : holdsIdsIn args = false := h
    rw [keepsIds, hargs, Bool.not_false] <;> nofun
  | generic .union args, h => by
    have hargs : holdsIdsIn args = false := h
    rw [keepsIds, hargs, Bool.not_false, Bool.true_or]
  | scalar _, _ | any, _ | noneType, _ | plain, _ => rfl

theorem keepsIdsIn_of_holdsIds : ∀ {args : List FieldType}, holdsIdsIn args = false →
    keepsIdsIn args = true
  | [], _ => rfl
  | a :: as, h => by
    rw [holdsIdsIn, Bool.or_eq_false_iff] at h
    rw [keepsIdsIn, keepsIds_of_holdsIds h.1, keepsIdsIn_of_holdsIds h.2, Bool.and_self]

theorem keepsIdsFields_of_holdsIds : ∀ {fields : Fields}, holdsIdsFields fields = false →
    keepsIdsFields fields = true
  | [], _ => rfl
  | (_, a) :: fields, h => by
    rw [holdsIdsFields, Bool.or_eq_false_iff] at h
    rw [keepsIdsFields, keepsIds_of_holdsIds h.1, keepsIdsFields_of_holdsIds h.2, Bool.and_self]

end

theorem keepsIds_of_mem {args : List FieldType} {a : FieldType} (h : keepsIdsIn args = true)
    (ha : a ∈ args) : a.keepsIds = true := by
  induction args with
  | nil => cases ha
  | cons other args ih =>
    rw [keepsIdsIn, Bool.and_eq_true] at h
    obtain rfl | ha := List.mem_cons.mp ha
    · exact h.1
    · exact ih h.2 ha

theorem keepsIds_of_field {fields : Fields} {field : String × FieldType}
    (h : keepsIdsFields fields = true) (hfield : field ∈ fields) : field.2.keepsIds = true := by
  induction fields with
  | nil => cases hfield
  | cons other fields ih =>
    rw [keepsIdsFields, Bool.and_eq_true] at h
    obtain rfl | hfield := List.mem_cons.mp hfield
    · exact h.1
    · exact ih h.2 hfield

end FieldType

namespace Mongo

variable {definitions : Entries} {a : FieldType} {j : Json} {valid : PyValue → Prop}

theorem eq_none_of_isJsonSchema (h : IsJsonSchema definitions a j valid) (ha : a = .noneType)
    {v : PyValue} (hv : valid v) : v = .none := by
  induction h with
  | noneType => exact hv
  | ref _ _ _ ih => exact ih ha hv
  | scalar | datetime | id | any | anything | list | set | tuple | dict | union | model => cases ha

/-- **The two recursions agree on every annotation** in which the store finds the Ids. -/
theorem takes_of_isJsonSchema (h : IsJsonSchema definitions a j valid) (hkeeps : a.keepsIds = true) :
    Takes definitions a j valid := by
  induction h with
  | scalar notId notDate type_eq format_ne only =>
    exact takes_scalar notId notDate type_eq format_ne only
  | datetime type_eq format_eq noRef => exact takes_datetime type_eq format_eq noRef
  | id type_eq format_ne pattern_eq noRef => exact takes_id type_eq format_ne pattern_eq noRef
  | any only => exact takes_any only
  | anything => exact takes_anything
  | noneType type_eq only => exact takes_noneType type_eq only
  | list _ type_eq _ only ih =>
    exact takes_list (ih (FieldType.keepsIds_of_mem hkeeps List.mem_cons_self)) type_eq only
  | set _ notDate type_eq _ only ih => exact takes_set (ih rfl) notDate type_eq only
  | @tuple parts _ _ type_eq items_eq only ih =>
    have hids : FieldType.holdsIdsIn (parts.map Prod.fst) = false := by
      simpa [FieldType.keepsIds] using hkeeps
    exact takes_tuple hids (fun part hpart => ih part hpart
      (FieldType.keepsIds_of_holdsIds (holdsIds_of_mem hids (List.mem_map_of_mem hpart))))
      type_eq items_eq only
  | @dict key a _ _ _ _ type_eq _ only ih =>
    have hids : FieldType.holdsIdsIn [key, a] = false := by
      simpa [FieldType.keepsIds] using hkeeps
    exact takes_dict hids (ih (FieldType.keepsIds_of_holdsIds
      (holdsIds_of_mem hids (List.mem_cons_of_mem _ List.mem_cons_self)))) type_eq only
  | union members _ only ih =>
    rw [FieldType.keepsIds, Bool.or_eq_true, Bool.not_eq_true', Bool.and_eq_true] at hkeeps
    refine takes_union (hkeeps.imp_right And.left) (fun part hpart => ih part hpart ?_)
      (fun part hpart heq v => eq_none_of_isJsonSchema (members part hpart) heq) only
    obtain hids | ⟨-, hkeeps⟩ := hkeeps
    · exact FieldType.keepsIds_of_holdsIds (holdsIds_of_mem hids (List.mem_map_of_mem hpart))
    · exact FieldType.keepsIds_of_mem hkeeps (List.mem_map_of_mem hpart)
  | model shape _ ih =>
    exact takes_model shape fun field hfield => ih field hfield
      (FieldType.keepsIds_of_field hkeeps hfield)
  | ref resolved noRef _ ih => exact takes_of_ref resolved noRef (ih hkeeps) rfl

/-! ## Records -/

variable {schema : Schema} {schemas : String → Json} {validField : String → PyValue → Prop}
  {properties out : Entries} {record : Record} {newId : String}

/-- The validator of the key. -/
def keyProperty (properties : Entries) : Json :=
  (properties.lookup "id").getD (.document [("bsonType", Json.text "objectId")])

theorem withKeyProperty_eq : withKeyProperty properties =
    assign keyField (keyProperty properties) (without "id" properties) := rfl

/-- The keywords of a schema's validator. -/
def validatorOf (allowsExtra : Bool) (properties out : Entries) : Entries :=
  assign "additionalProperties" (Json.bool allowsExtra)
    (withRequired (assign "properties" (.document (withKeyProperty properties)) out))

theorem settles_getValidator {allowsExtra : Bool} {jsonSchema : Entries}
    (hout : Converts (definitionsOf jsonSchema) (.document jsonSchema) (.document out))
    (hlookup : out.lookup "properties" = some (.document properties)) :
    Settles (fun depth => getValidator depth allowsExtra jsonSchema)
      (.document (validatorOf allowsExtra properties out)) := by
  unfold getValidator
  refine hout.bind ?_
  simp only [hlookup, Option.getD_some]
  exact settles_const _

theorem lookup_withRequired : (withRequired out).lookup "properties" = out.lookup "properties" := by
  unfold withRequired
  split
  · unfold without
    rw [lookup_filter (fun k => k != "required"), if_pos (by decide)]
  · rw [lookup_assign, if_neg (by decide)]

theorem lookup_validatorOf {allowsExtra : Bool} :
    (validatorOf allowsExtra properties out).lookup "properties" =
      some (.document (withKeyProperty properties)) := by
  rw [validatorOf, lookup_assign, if_neg (by decide), lookup_withRequired, lookup_assign, if_pos rfl]

theorem requiredNames {allowsExtra : Bool} {names : List String}
    (hout : ∀ entry ∈ out, IsModelEntry allowsExtra names properties entry) :
    ∀ name ∈ ((out.lookup "required").map Json.texts).getD [], name ∈ names := by
  cases hrequired : out.lookup "required" with
  | none => nofun
  | some j =>
    obtain ⟨some, hsome, rfl⟩ : ∃ some : List String, (∀ name ∈ some, name ∈ names) ∧
        j = .list (some.map Json.text) := by
      generalize hentry : ("required", j) = entry
      have hmodel := hout _ (mem_of_lookup hrequired)
      rw [hentry] at hmodel
      cases hmodel with
      | required declared => exact ⟨_, declared, congrArg Prod.snd hentry⟩
      | remark name _ =>
        rw [← hentry] at name
        exact absurd name (show "required" ∉ ["title", "description"] by decide)
      | type => exact absurd (congrArg Prod.fst hentry) (show "required" ≠ "bsonType" by decide)
      | properties => exact absurd (congrArg Prod.fst hentry) (show "required" ≠ "properties" by decide)
      | extra | noExtra =>
        exact absurd (congrArg Prod.fst hentry) (show "required" ≠ "additionalProperties" by decide)
    rw [Option.map_some, Option.getD_some, Json.texts_map]
    exact hsome

/-- **A schema's validator** is that of its model, but for the id. -/
theorem mem_validatorOf {allowsExtra : Bool} {names : List String} {entry : String × Json}
    (hout : ∀ entry ∈ out, IsModelEntry allowsExtra names properties entry)
    (h : entry ∈ validatorOf allowsExtra properties out) :
    IsModelEntry allowsExtra (names.map getDocumentField) (withKeyProperty properties) entry := by
  have hothers : entry ∈ assign "properties" (.document (withKeyProperty properties)) out →
      entry.1 ≠ "required" →
        IsModelEntry allowsExtra (names.map getDocumentField) (withKeyProperty properties) entry := by
    intro h hne
    obtain rfl | ⟨h, hproperties⟩ := mem_assign h
    · exact .properties
    · cases hout entry h with
      | remark name takes => exact .remark name takes
      | type => exact .type
      | properties => exact (hproperties rfl).elim
      | required => exact (hne rfl).elim
      | extra => exact .extra
      | noExtra allowsNone => exact .noExtra allowsNone
  obtain rfl | ⟨h, -⟩ := mem_assign h
  · cases allowsExtra with
    | true => exact .extra
    | false => exact .noExtra rfl
  unfold withRequired at h
  split at h
  · obtain ⟨h, hne⟩ := List.mem_filter.mp h
    exact hothers h (bne_iff_ne.mp hne)
  · obtain rfl | ⟨h, hne⟩ := mem_assign h
    · have heq (names : List String) : (names.map fun name => Json.text (getDocumentField name)) =
          (names.map getDocumentField).map Json.text := by
        rw [List.map_map]
        rfl
      rw [heq]
      refine .required fun name hname => ?_
      obtain ⟨field, hfield, rfl⟩ := List.mem_map.mp hname
      rw [lookup_assign, if_neg (by decide)] at hfield
      exact List.mem_map_of_mem (requiredNames hout field hfield)
    · exact hothers h hne

theorem convertEntry_none (fields : Fields) (name : String) :
    convertEntry fields (name, .none) = .ok (name, .null) := by
  unfold convertEntry
  cases fields.lookup name with
  | none => rfl
  | some a =>
    show (do let b ← convertField a .none; return (name, b)) = _
    rw [convertField_none]
    rfl

/-- **The document of a record** has its fields but the id, and a key: the id, or a new one. -/
theorem exists_written {converted : Document}
    (h : convertToDocumentValues schema.fields record = .ok converted)
    (hno : converted.lookup keyField = none) (newId : String) :
    ∃ document key, convertToDocument schema record = .ok document ∧
      withKey newId document =
        (converted.filter fun field => field.1 != "id") ++ [(keyField, key)] ∧
      (Value.get "id" converted = .null ∧ key = .scalar (.objectId newId) ∨
        converted.lookup "id" = some key ∧ key ≠ .null) := by
  have hothers : (converted.filter fun field => field.1 != "id").lookup keyField = none := by
    rw [lookup_filter (fun k => k != "id"), if_pos (by decide), hno]
  unfold convertToDocument
  rw [h]
  simp only [bind, Except.bind, pure, Except.pure]
  by_cases hkey : Value.get "id" converted = .null
  · refine ⟨converted.filter fun field => field.1 != "id", .scalar (.objectId newId), ?_, ?_,
      .inl ⟨hkey, rfl⟩⟩
    · rw [hkey]
    · unfold withKey
      rw [hothers]
      rfl
  · refine ⟨(converted.filter fun field => field.1 != "id") ++ [(keyField, Value.get "id" converted)],
      Value.get "id" converted, ?_, ?_, .inr ⟨?_, hkey⟩⟩
    · cases hvalue : Value.get "id" converted with
      | null => exact (hkey hvalue).elim
      | scalar | list | document => rfl
    · unfold withKey
      rw [List.lookup_append, hothers, if_pos]
      simp
    · unfold Value.get at hkey ⊢
      cases hlookup : converted.lookup "id" with
      | none =>
        rw [hlookup] at hkey
        exact (hkey rfl).elim
      | some b => rfl

theorem lookup_written {converted : Document} {key : Bson} (hno : converted.lookup keyField = none)
    (name : String) :
    ((converted.filter fun field => field.1 != "id") ++ [(keyField, key)]).lookup name =
      if name = keyField then some key else if name = "id" then none else converted.lookup name := by
  rw [List.lookup_append, lookup_filter (fun k => k != "id"), List.lookup_cons]
  by_cases hkey : name = keyField
  · rw [hkey, hno]
    simp
  · rw [if_neg hkey, beq_false_of_ne hkey]
    by_cases hid : name = "id"
    · simp [hid]
    · simp [hid]

/-- A field of a record, as it is stored: an id of None, or taken by the validator of its property. -/
def IsStoredField (properties : Entries) (entry : String × PyValue) (field : String × Bson) : Prop :=
  field.1 = entry.1 ∧ (entry = ("id", .none) ∧ field.2 = .null ∨
    entry ≠ ("id", .none) ∧
      ∀ j, properties.lookup entry.1 = some j → bsonDialect.accepts j field.2 = true)

theorem valid_of_record (hrecord : IsRecordData schema validField record) {entry : String × PyValue}
    (hentry : entry ∈ record) (hid : entry ≠ ("id", .none)) {a : FieldType}
    (ha : schema.fields.lookup entry.1 = some a) : validField entry.1 entry.2 := by
  have hlookup : record.lookup entry.1 = some entry.2 := lookup_of_mem hrecord.names hentry
  by_cases hname : entry.1 = "id"
  · rw [hname] at hlookup ⊢
    exact (hrecord.id entry.2 hlookup fun hv => hid (Prod.ext hname hv)).2
  · obtain ⟨v, hv, hvalid⟩ := hrecord.field _ (mem_of_lookup ha) hname
    obtain rfl := Option.some.inj (hv.symm.trans hlookup)
    exact hvalid

theorem exists_storedFields
    (hproperties : List.Forall₂ (TakesField definitions schemas validField) schema.fields properties)
    (hrecord : IsRecordData schema validField record) :
    ∃ converted, convertToDocumentValues schema.fields record = .ok converted ∧
      List.Forall₂ (IsStoredField properties) record converted := by
  have hfields : ∀ entry ∈ record, ∃ field, convertEntry schema.fields entry = .ok field ∧
      IsStoredField properties entry field := by
    intro entry hentry
    by_cases hid : entry = ("id", .none)
    · subst hid
      exact ⟨_, convertEntry_none schema.fields "id", rfl, .inl ⟨rfl, rfl⟩⟩
    obtain ⟨field, hfield, hname, haccepts⟩ := convertEntry_takes hproperties
      (fun a ha => valid_of_record hrecord hentry hid ha)
      fun hno => (hrecord.extra entry hentry (not_mem_of_lookup hno)).2
    exact ⟨field, hfield, hname, .inr ⟨hid, haccepts⟩⟩
  obtain ⟨converted, hconverted, hall⟩ := exists_mapM hfields
  refine ⟨converted, ?_, hall.imp fun _ _ h => h.2⟩
  rw [convertToDocumentValues_eq, hconverted]

theorem lookup_key_stored {converted : Document} (hrecord : IsRecordData schema validField record)
    (hstored : List.Forall₂ (IsStoredField properties) record converted) :
    converted.lookup keyField = none := by
  obtain ⟨-, hno⟩ | ⟨v, b, hv, -, -⟩ := lookup_of_forall₂ (fun _ _ h => h.1) hstored keyField
  · exact hno
  · rw [hrecord.noKey] at hv
    cases hv

/-- **The key of a document is taken**: it is a new one, or the record's id. -/
theorem accepts_key
    (hproperties : List.Forall₂ (TakesField definitions schemas validField) schema.fields properties)
    (hid : ∀ a, schema.fields.lookup "id" = some a → a.isIdField = true ∧
      ∀ text, IsScalarOf .id (.str text) → validField "id" (.scalar (.str text)))
    (hrecord : IsRecordData schema validField record) {converted : Document}
    (hall : List.Forall₂ (IsStoredField properties) record converted) (hnewId : IsScalarOf .id (.str newId))
    {key : Bson} (hkey : key = .scalar (.objectId newId) ∨
      converted.lookup "id" = some key ∧ key ≠ .null) :
    bsonDialect.accepts (keyProperty properties) key = true := by
  have hstored (hlookup : converted.lookup "id" = some key) (hnull : key ≠ .null) :
      (∃ a, schema.fields.lookup "id" = some a) ∧
        ∀ j, properties.lookup "id" = some j → bsonDialect.accepts j key = true := by
    obtain ⟨-, hnone⟩ | ⟨v, b, hv, hb, -, hstored⟩ := lookup_of_forall₂ (fun _ _ h => h.1) hall "id"
    · rw [hnone] at hlookup
      cases hlookup
    obtain rfl := Option.some.inj (hb.symm.trans hlookup)
    obtain ⟨-, hb⟩ | ⟨hv', haccepts⟩ := hstored
    · exact (hnull hb).elim
    · refine ⟨?_, haccepts⟩
      have hmem := (hrecord.id v hv fun h => hv' (congrArg (Prod.mk "id") h)).1
      cases hfield : schema.fields.lookup "id" with
      | none => exact (not_mem_of_lookup hfield hmem).elim
      | some a => exact ⟨a, rfl⟩
  unfold keyProperty
  obtain ⟨hno, hnone⟩ | ⟨a, j, ha, hj, htakes⟩ :=
    lookup_of_forall₂ (fun _ _ h => h.1) hproperties "id"
  · rw [hnone, Option.getD_none]
    obtain rfl | ⟨hlookup, hnull⟩ := hkey
    · simp [Dialect.accepts_iff, Dialect.acceptsKeyword, Json.text, Json.texts, Json.text?,
        Dialect.typesOf, bsonDialect]
    · obtain ⟨a, ha⟩ := (hstored hlookup hnull).1
      rw [hno] at ha
      cases ha
  · rw [hj, Option.getD_some]
    obtain rfl | ⟨hlookup, hnull⟩ := hkey
    · obtain ⟨hfield, hvalid⟩ := hid a ha
      obtain ⟨b, hb, haccepts⟩ := htakes.2.2 _ (hvalid newId hnewId)
      have hconvert : convertField a (.scalar (.str newId)) = .ok (.scalar (.objectId newId)) := by
        obtain ⟨hlength, hdigits, hlower⟩ := hnewId
        unfold convertField
        rw [hfield, if_pos rfl]
        show objectId newId = _
        rw [objectId, if_pos ⟨hlength, hdigits⟩, hlower]
      rwa [Except.ok.inj (hconvert.symm.trans hb)]
    · exact (hstored hlookup hnull).2 j hj

theorem written_taken {converted : Document} {key : Bson} (hnodup : (properties.map Prod.fst).Nodup)
    (hstored : List.Forall₂ (IsStoredField properties) record converted)
    (hno : converted.lookup keyField = none)
    (hkey : bsonDialect.accepts (keyProperty properties) key = true) {name : String} {b : Bson} {j : Json}
    (hb : ((converted.filter fun field => field.1 != "id") ++ [(keyField, key)]).lookup name = some b)
    (hj : (name, j) ∈ withKeyProperty properties) : bsonDialect.accepts j b = true := by
  rw [lookup_written hno] at hb
  rw [withKeyProperty_eq] at hj
  obtain heq | ⟨hj, hne⟩ := mem_assign hj
  · rw [(Prod.mk.inj heq).1, if_pos rfl] at hb
    rw [(Prod.mk.inj heq).2, ← Option.some.inj hb]
    exact hkey
  obtain ⟨hj, hid⟩ := List.mem_filter.mp hj
  have hid : name ≠ "id" := bne_iff_ne.mp hid
  rw [if_neg hne, if_neg hid] at hb
  obtain ⟨-, hnone⟩ | ⟨v, b', -, hb', -, hfield⟩ := lookup_of_forall₂ (fun _ _ h => h.1) hstored name
  · rw [hnone] at hb
    cases hb
  · obtain rfl := Option.some.inj (hb'.symm.trans hb)
    obtain ⟨heq, -⟩ | ⟨-, haccepts⟩ := hfield
    · exact (hid (congrArg Prod.fst heq)).elim
    · exact haccepts j (lookup_of_mem hnodup hj)

theorem written_required {converted : Document} {key : Bson}
    (hrecord : IsRecordData schema validField record)
    (hstored : List.Forall₂ (IsStoredField properties) record converted)
    (hno : converted.lookup keyField = none) {name : String}
    (hname : name ∈ schema.fields.map Prod.fst) :
    (((converted.filter fun field => field.1 != "id") ++ [(keyField, key)]).lookup
      (getDocumentField name)).isSome = true := by
  rw [lookup_written hno]
  unfold getDocumentField
  by_cases hid : name = "id"
  · rw [if_pos hid, if_pos rfl]
    rfl
  obtain ⟨field, hfield, rfl⟩ := List.mem_map.mp hname
  obtain ⟨v, hv, -⟩ := hrecord.field field hfield hid
  have hne : field.1 ≠ keyField := fun heq => by
    rw [heq, hrecord.noKey] at hv
    cases hv
  rw [if_neg hid, if_neg hne, if_neg hid]
  obtain ⟨hnone, -⟩ | ⟨_, b, -, hb, -⟩ := lookup_of_forall₂ (fun _ _ h => h.1) hstored field.1
  · rw [hnone] at hv
    cases hv
  · rw [hb]
    rfl

theorem written_declared {converted : Document} {key : Bson}
    (hnames : schema.fields.map Prod.fst = properties.map Prod.fst)
    (hrecord : IsRecordData schema validField record)
    (hstored : List.Forall₂ (IsStoredField properties) record converted)
    (hextra : schema.allowsExtra = false) {field : String × Bson}
    (hfield : field ∈ (converted.filter fun field => field.1 != "id") ++ [(keyField, key)]) :
    ((withKeyProperty properties).lookup field.1).isSome = true := by
  rw [withKeyProperty_eq, lookup_assign]
  split_ifs with hne
  · rfl
  obtain hfield | hfield := List.mem_append.mp hfield
  · obtain ⟨hfield, hid⟩ := List.mem_filter.mp hfield
    unfold without
    rw [lookup_filter (fun k => k != "id"), if_pos hid]
    obtain ⟨entry, hentry, hname, -⟩ := exists_of_forall₂ hstored hfield
    rw [hname]
    by_contra hnone
    rw [Option.not_isSome_iff_eq_none] at hnone
    obtain ⟨hallows, -⟩ := hrecord.extra entry hentry (hnames ▸ not_mem_of_lookup hnone)
    rw [hextra] at hallows
    cases hallows
  · exact (hne (congrArg Prod.fst (List.mem_singleton.mp hfield))).elim

/-- **MongoDB's validator takes what MSS writes**: a schema's class has a validator, and it takes the
document of each valid record, with the key that the record or the driver gives it. -/
theorem validator_takes {jsonSchema : Entries}
    (shape : IsModelSchema schema.allowsExtra schema.fields schemas jsonSchema)
    (members : ∀ field ∈ schema.fields,
      IsJsonSchema (definitionsOf jsonSchema) field.2 (schemas field.1) (validField field.1))
    (hkeeps : FieldType.keepsIdsFields schema.fields = true)
    (hid : ∀ a, schema.fields.lookup "id" = some a → a.isIdField = true ∧
      ∀ text, IsScalarOf .id (.str text) → validField "id" (.scalar (.str text))) :
    ∃ validator, Settles (fun depth => getValidator depth schema.allowsExtra jsonSchema) validator ∧
      ∀ record, IsRecordData schema validField record → ∀ newId, IsScalarOf .id (.str newId) →
        ∃ document, convertToDocument schema record = .ok document ∧
          bsonDialect.accepts validator (.document (withKey newId document)) = true := by
  obtain ⟨properties, hproperties, hall⟩ := exists_properties fun field hfield =>
    takes_of_isJsonSchema (members field hfield) (FieldType.keepsIds_of_field hkeeps hfield)
  obtain ⟨out, hout, hlookup, honly⟩ := exists_modelValidator shape hproperties
  have hnames : schema.fields.map Prod.fst = properties.map Prod.fst := names_of_forall₂ hall
  refine ⟨_, settles_getValidator hout hlookup, fun record hrecord newId hnewId => ?_⟩
  obtain ⟨converted, hconverted, hstored⟩ := exists_storedFields hall hrecord
  have hno := lookup_key_stored hrecord hstored
  obtain ⟨document, key, hdocument, hwritten, hkey⟩ := exists_written hconverted hno newId
  have hkey := accepts_key hall hid hrecord hstored hnewId (hkey.imp_left And.right)
  refine ⟨document, hdocument, ?_⟩
  rw [hwritten]
  refine Dialect.accepts_iff.mpr fun entry hentry => accepts_modelEntry (mem_validatorOf honly hentry)
    lookup_validatorOf (fun name b hb j hj => ?_) (fun name hname => ?_) fun hextra field hfield => ?_
  · exact written_taken (hnames ▸ shape.names) hstored hno hkey hb hj
  · obtain ⟨declared, hdeclared, rfl⟩ := List.mem_map.mp hname
    exact written_required hrecord hstored hno hdeclared
  · exact written_declared hnames hrecord hstored hextra hfield

/-! ## The preferences of a user -/

/-- A schema of opt-outs from notices. -/
def preferencesSchema : Schema where
  name := "NoticePreferences"
  fields := [("id", .scalar .id), ("user_id", .scalar .id),
    ("email_prefs", .generic .dict [.scalar .strEnum, .scalar .bool]),
    ("created_at", .generic .union [.scalar .str, .noneType])]
  allowsExtra := false
  storage := { table := "notice_preferences", key := "user_id", unique := [["user_id"]] }
  undotted := by decide
  expiresAt := by decide

/-- The JSON schema of an id, with its title. -/
def idSchema (title : String) : Entries :=
  [("pattern", Json.text idPattern), ("title", Json.text title), ("type", Json.text "string")]

/-- The JSON schemas of its fields. -/
def preferencesSchemas : String → Json
  | "id" => .document (idSchema "Id")
  | "user_id" => .document (idSchema "User Id")
  | "email_prefs" => .document [("additionalProperties", .document [("type", Json.text "boolean")]),
      ("propertyNames", .document [("$ref", Json.text "#/$defs/NoticeTypeId")]),
      ("title", Json.text "Email Prefs"), ("type", Json.text "object")]
  | _ => .document [("anyOf", .list [.document [("type", Json.text "string")],
      .document [("type", Json.text "null")]]), ("title", Json.text "Created At")]

/-- The JSON schema of the class. -/
def preferencesJsonSchema : Entries :=
  [("properties", .document (preferencesSchema.fields.map fun field =>
      (field.1, preferencesSchemas field.1))),
    ("required", .list (["user_id"].map Json.text)), ("title", Json.text "NoticePreferences"),
    ("type", Json.text "object")]

/-- The alternatives of a timestamp: a text, or none. -/
def timestampParts : List (FieldType × Json × (PyValue → Prop)) :=
  [(.scalar .str, .document [("type", Json.text "string")], fun v => ∃ s, v = .scalar s ∧
      IsScalarOf .str s ∧ IsStorable s ∧ ∀ entry ∈ [("type", Json.text "string")], Meets entry s.toScalar),
    (.noneType, .document [("type", Json.text "null")], fun v => v = .none)]

/-- The values that are valid for its fields. -/
def preferencesValid : String → PyValue → Prop
  | "id" | "user_id" => fun v => ∃ s, v = .scalar s ∧ IsScalarOf .id s
  | "email_prefs" => fun v => ∃ data, v = .dict data ∧ ∀ entry ∈ data, ∃ s, entry.2 = .scalar s ∧
      IsScalarOf .bool s ∧ IsStorable s ∧ ∀ entry ∈ [("type", Json.text "boolean")], Meets entry s.toScalar
  | _ => fun v => ∃ part ∈ timestampParts, part.2.2 v

theorem isJsonSchema_preferences : ∀ field ∈ preferencesSchema.fields,
    IsJsonSchema (definitionsOf preferencesJsonSchema) field.2 (preferencesSchemas field.1)
      (preferencesValid field.1) := by
  have hid (title : String) : IsJsonSchema (definitionsOf preferencesJsonSchema) (.scalar .id)
      (.document (idSchema title)) fun v => ∃ s, v = .scalar s ∧ IsScalarOf .id s :=
    .id rfl nofun rfl rfl
  have hscalar (type : ScalarType) (notId : type ≠ .id) (notDate : type ≠ .datetime) :
      IsJsonSchema (definitionsOf preferencesJsonSchema) (.scalar type)
        (.document [("type", Json.text (jsonType type))]) fun v => ∃ s, v = .scalar s ∧ IsScalarOf type s ∧
          IsStorable s ∧ ∀ entry ∈ [("type", Json.text (jsonType type))], Meets entry s.toScalar :=
    .scalar notId notDate rfl nofun fun entry hentry => .inr (.inl (List.mem_singleton.mp hentry))
  refine List.forall_mem_cons.mpr ⟨hid "Id", List.forall_mem_cons.mpr ⟨hid "User Id",
    List.forall_mem_cons.mpr ⟨?_, List.forall_mem_cons.mpr ⟨?_, nofun⟩⟩⟩⟩
  · refine .dict (hscalar .bool (by decide) (by decide)) rfl rfl ?_
    refine List.forall_mem_cons.mpr ⟨.inr (.inr rfl), List.forall_mem_cons.mpr
      ⟨.inl (.inl (by decide)), List.forall_mem_cons.mpr
        ⟨.inl (.inr ⟨by decide, _, rfl⟩), List.forall_mem_cons.mpr ⟨.inr (.inl rfl), nofun⟩⟩⟩⟩
  · refine @IsJsonSchema.union _ timestampParts _ (List.forall_mem_cons.mpr
      ⟨hscalar .str (by decide) (by decide), List.forall_mem_cons.mpr
        ⟨.noneType rfl fun entry hentry => .inr (List.mem_singleton.mp hentry), nofun⟩⟩) rfl ?_
    exact List.forall_mem_cons.mpr ⟨.inr rfl, List.forall_mem_cons.mpr
      ⟨.inl (.inr ⟨by decide, _, rfl⟩), nofun⟩⟩

theorem isModelSchema_preferences : IsModelSchema preferencesSchema.allowsExtra
    preferencesSchema.fields preferencesSchemas preferencesJsonSchema where
  names := by decide
  type := rfl
  properties := rfl
  only := by
    unfold preferencesJsonSchema
    refine List.forall_mem_cons.mpr ⟨.inr (.inr (.inl rfl)), List.forall_mem_cons.mpr
      ⟨.inr (.inr (.inr (.inl ⟨["user_id"], rfl, by decide⟩))), List.forall_mem_cons.mpr
        ⟨.inl (.inr ⟨by decide, _, rfl⟩), List.forall_mem_cons.mpr ⟨.inr (.inl rfl), nofun⟩⟩⟩⟩

/-- An id, and the preferences of a user of that id who opts out of a kind of notice. -/
def optedOutId : String := "0123456789abcdef01234567"

def optedOut : Record :=
  [("id", .none), ("user_id", .scalar (.str optedOutId)),
    ("email_prefs", .dict [("project-access-approved", .scalar (.bool false))]),
    ("created_at", .none)]

theorem isScalarOf_optedOutId : IsScalarOf .id (.str optedOutId) :=
  ⟨by decide +kernel, by decide +kernel, by decide +kernel⟩

theorem isRecordData_optedOut : IsRecordData preferencesSchema preferencesValid optedOut where
  names := by decide
  noKey := rfl
  field := by
    have hfalse : ∃ s, PyValue.scalar (.bool false) = .scalar s ∧ IsScalarOf .bool s ∧ IsStorable s ∧
        ∀ entry ∈ [("type", Json.text "boolean")], Meets entry s.toScalar := by
      refine ⟨_, rfl, trivial, trivial, List.forall_mem_singleton.mpr trivial⟩
    refine List.forall_mem_cons.mpr ⟨fun h => (h rfl).elim, List.forall_mem_cons.mpr
      ⟨fun _ => ⟨_, rfl, _, rfl, isScalarOf_optedOutId⟩, List.forall_mem_cons.mpr
        ⟨fun _ => ⟨_, rfl, _, rfl, List.forall_mem_singleton.mpr hfalse⟩, List.forall_mem_cons.mpr
          ⟨fun _ => ⟨_, rfl, ?_⟩, nofun⟩⟩⟩⟩
    exact ⟨_, List.mem_cons_of_mem _ List.mem_cons_self, rfl⟩
  id v hv hne := (hne (Option.some.inj hv).symm).elim
  extra entry hentry hno := by
    have hdeclared : ∀ name ∈ optedOut.map Prod.fst,
        name ∈ preferencesSchema.fields.map Prod.fst := by decide
    exact (hno (hdeclared _ (List.mem_map_of_mem hentry))).elim

theorem validator_takes_optedOut : ∃ validator,
    Settles (fun depth => getValidator depth false preferencesJsonSchema) validator ∧
      ∃ document, convertToDocument preferencesSchema optedOut = .ok document ∧
        bsonDialect.accepts validator (.document (withKey optedOutId document)) = true := by
  have hid : ∀ a, preferencesSchema.fields.lookup "id" = some a → a.isIdField = true ∧
      ∀ text, IsScalarOf .id (.str text) → preferencesValid "id" (.scalar (.str text)) := by
    intro a ha
    obtain rfl := Option.some.inj ha
    exact ⟨rfl, fun text htext => ⟨_, rfl, htext⟩⟩
  obtain ⟨validator, hvalidator, htakes⟩ :=
    validator_takes isModelSchema_preferences isJsonSchema_preferences (by decide) hid
  exact ⟨validator, hvalidator, htakes optedOut isRecordData_optedOut optedOutId isScalarOf_optedOutId⟩

end Mongo

end Mss
