import Mss.Lib.Depths
import Mss.Lib.Refusals
import Mss.Storage.JsonSchemas

/-!
# The two recursions of MongoDB's store

One goes through a value by the annotation of its field, and finds the Ids and the models inside; the
other through the JSON schema of the annotation, and follows its references.

* `convertField`, `convertToDocumentValues_eq`: a value, by the annotation of its field.
* **`convertField_eq`**: where an annotation holds no Ids, its values are converted as any.
* `Converts`, `ConvertsKeyword`: what a JSON schema and a keyword of it come to, at any depth that is
  enough.
* **`converts_document`**: what is kept of a JSON schema; `lookup_converts`: a keyword of it.
* `translateKeywords_none`, `mapToBsonType_type`: the steps on a JSON schema of no string.
-/

namespace Mss

open Storage

namespace Mongo

/-! ## Values -/

/-- Convert a value by the annotation of its field. -/
def convertField (a : FieldType) (v : PyValue) : Except FindError Bson :=
  if a.isIdField then convertToObjectIds v
  else
    match a.findNestedModel with
    | some (_, nested) => convertNestedValue nested v
    | none => convertToBson v

/-- Convert an entry of a model's data. -/
def convertEntry (model : Fields) (entry : String × PyValue) : Except FindError (String × Bson) := do
  let b ← (model.lookup entry.1).elim (convertToBson entry.2) fun a => convertField a entry.2
  return (entry.1, b)

theorem convertItems_eq (vs : List PyValue) : convertItems vs = vs.mapM convertToBson := by
  induction vs with
  | nil => rfl
  | cons v vs ih => rw [convertItems, List.mapM_cons, ih]

theorem convertIds_eq (vs : List PyValue) : convertIds vs = vs.mapM convertToObjectIds := by
  induction vs with
  | nil => rfl
  | cons v vs ih => rw [convertIds, List.mapM_cons, ih]

theorem convertNestedItems_eq (model : Fields) (vs : List PyValue) :
    convertNestedItems model vs = vs.mapM (convertNestedValue model) := by
  induction vs with
  | nil => rfl
  | cons v vs ih => rw [convertNestedItems, List.mapM_cons, ih]

theorem convertEntries_eq (data : List (String × PyValue)) :
    convertEntries data = data.mapM fun entry => do return (entry.1, ← convertToBson entry.2) := by
  induction data with
  | nil => rfl
  | cons entry data ih =>
    rw [convertEntries, List.mapM_cons, ih]
    simp only [bind_assoc, pure_bind]

theorem convertToDocumentValues_eq (model : Fields) (data : List (String × PyValue)) :
    convertToDocumentValues model data = data.mapM (convertEntry model) := by
  induction data with
  | nil => rfl
  | cons entry data ih =>
    rw [convertToDocumentValues, List.mapM_cons, ih, convertEntry]
    cases model.lookup entry.1 with
    | none => simp only [Option.elim, bind_assoc, pure_bind]
    | some a =>
      simp only [Option.elim, convertField, bind_assoc, pure_bind]
      split_ifs
      · rfl
      · cases a.findNestedModel <;> rfl

end Mongo

/-! ## Annotations without Ids -/

namespace FieldType

mutual

theorem isIdField_of_holdsIds : ∀ {a : FieldType}, a.holdsIds = false → a.isIdField = false
  | scalar _, h => h
  | generic _ args, h => @isIdFieldIn_of_holdsIds args h
  | any, _ | noneType, _ | plain, _ | model _ _, _ => rfl

theorem isIdFieldIn_of_holdsIds : ∀ {args : List FieldType}, holdsIdsIn args = false →
    isIdFieldIn args = false
  | [], _ => rfl
  | a :: as, h => by
    rw [holdsIdsIn, Bool.or_eq_false_iff] at h
    rw [isIdFieldIn, isIdField_of_holdsIds h.1, isIdFieldIn_of_holdsIds h.2, Bool.or_self]

end

mutual

theorem holdsIdsFields_of_nested : ∀ {a : FieldType} {nested : Bool × Fields},
    a.holdsIds = false → a.findNestedModel = some nested → holdsIdsFields nested.2 = false
  | model _ _, _, h, rfl => h
  | generic _ args, _, h, hnested => @holdsIdsFields_of_nestedIn args _ h hnested
  | scalar _, _, _, hnested | any, _, _, hnested | noneType, _, _, hnested
  | plain, _, _, hnested => by cases hnested

theorem holdsIdsFields_of_nestedIn : ∀ {args : List FieldType} {nested : Bool × Fields},
    holdsIdsIn args = false → findNestedModelIn args = some nested →
      holdsIdsFields nested.2 = false
  | [], _, _, hnested => by cases hnested
  | a :: as, _, h, hnested => by
    rw [holdsIdsIn, Bool.or_eq_false_iff] at h
    rw [findNestedModelIn, Option.or_eq_some_iff] at hnested
    obtain hnested | ⟨-, hnested⟩ := hnested
    · exact holdsIdsFields_of_nested h.1 hnested
    · exact holdsIdsFields_of_nestedIn h.2 hnested

end

theorem holdsIds_of_lookup {fields : Fields} {name : String} {a : FieldType}
    (h : holdsIdsFields fields = false) (ha : fields.lookup name = some a) : a.holdsIds = false := by
  induction fields with
  | nil => cases ha
  | cons field fields ih =>
    rw [holdsIdsFields, Bool.or_eq_false_iff] at h
    rw [List.lookup_cons] at ha
    split at ha
    · obtain rfl := Option.some.inj ha
      exact h.1
    · exact ih h.2 ha

end FieldType

namespace Mongo

mutual

/-- **Where a model holds no Ids**, its data is converted as any value. -/
theorem convertNestedValue_eq : ∀ {nested : Fields} (v : PyValue),
    FieldType.holdsIdsFields nested = false → convertNestedValue nested v = convertToBson v
  | nested, .dict data, h => by
    rw [convertNestedValue, convertToBson, convertToDocumentValues_eq_convertEntries data h]
  | nested, .sequence .list items, h => by
    rw [convertNestedValue, convertToBson, convertNestedItems_eq_convertItems items h]
  | _, .none, _ | _, .scalar _, _ | _, .sequence .tuple _, _ | _, .sequence .set _, _ => by
    rw [convertNestedValue] <;> simp

theorem convertNestedItems_eq_convertItems : ∀ {nested : Fields} (vs : List PyValue),
    FieldType.holdsIdsFields nested = false → convertNestedItems nested vs = convertItems vs
  | _, [], _ => rfl
  | nested, v :: vs, h => by
    rw [convertNestedItems, convertItems, convertNestedValue_eq v h,
      convertNestedItems_eq_convertItems vs h]

theorem convertToDocumentValues_eq_convertEntries : ∀ {nested : Fields}
    (data : List (String × PyValue)), FieldType.holdsIdsFields nested = false →
      convertToDocumentValues nested data = convertEntries data
  | _, [], _ => rfl
  | nested, (name, v) :: data, h => by
    rw [convertToDocumentValues, convertEntries, convertToDocumentValues_eq_convertEntries data h]
    cases ha : nested.lookup name with
    | none => rfl
    | some a =>
      have hids := FieldType.holdsIds_of_lookup h ha
      dsimp only
      rw [FieldType.isIdField_of_holdsIds hids, if_neg Bool.false_ne_true]
      cases hnested : a.findNestedModel with
      | none => rfl
      | some inner =>
        dsimp only
        rw [convertNestedValue_eq v (FieldType.holdsIdsFields_of_nested hids hnested)]

end

/-- **Where an annotation holds no Ids**, a value of it is converted as any value. -/
theorem convertField_eq {a : FieldType} (h : a.holdsIds = false) (v : PyValue) :
    convertField a v = convertToBson v := by
  unfold convertField
  rw [FieldType.isIdField_of_holdsIds h, if_neg Bool.false_ne_true]
  cases hnested : a.findNestedModel with
  | none => rfl
  | some nested => exact convertNestedValue_eq v (FieldType.holdsIdsFields_of_nested h hnested)

/-! ## What a JSON schema comes to -/

section

variable {definitions entries merged mapped : Entries}

/-- **What a JSON schema comes to**, at any depth that is enough. -/
def Converts (definitions : Entries) (j j' : Json) : Prop :=
  Settles (fun n => convertToMongoJsonSchema definitions n j) j'

/-- What a keyword with its argument comes to. -/
def ConvertsKeyword (definitions : Entries) (entry entry' : String × Json) : Prop :=
  Settles (fun n => convertKeyword (convertToMongoJsonSchema definitions n) entry) entry'

theorem converts_scalar (s : JsonScalar) : Converts definitions (.scalar s) (.scalar s) :=
  settles_succ (settles_const _)

theorem converts_list {js : List Json} (h : ∀ j ∈ js, ∃ j', Converts definitions j j') :
    ∃ js', Converts definitions (.list js) (.list js') ∧
      List.Forall₂ (Converts definitions) js js' := by
  obtain ⟨js', hjs, hall⟩ := settles_mapM h
  exact ⟨js', settles_succ (hjs.bind (settles_const _)), hall⟩

theorem converts_scalars {js : List Json} (h : ∀ j ∈ js, ∃ s, j = .scalar s) :
    Converts definitions (.list js) (.list js) := by
  have hconverts : ∀ j ∈ js, ∃ j', Converts definitions j j' := fun j hj => by
    obtain ⟨s, rfl⟩ := h j hj
    exact ⟨_, converts_scalar s⟩
  obtain ⟨js', hjs, hall⟩ := converts_list hconverts
  have heq : js = js' := by
    clear hjs hconverts
    induction hall with
    | nil => rfl
    | cons hj _ ih =>
      obtain ⟨s, rfl⟩ := h _ List.mem_cons_self
      rw [hj.unique (converts_scalar s), ih fun j hj => h j (List.mem_cons_of_mem _ hj)]
  rwa [← heq] at hjs

/-- **A document comes to what is kept of it**, each keyword converted. -/
theorem converts_document (hresolve : resolveRef definitions entries = .ok merged)
    (hmap : mapToBsonType (translateKeywords merged) = .ok mapped)
    (hkept : ∀ entry ∈ mapped, mongoKeywords.contains entry.1 = true →
      ∃ entry', ConvertsKeyword definitions entry entry') :
    ∃ out, Converts definitions (.document entries) (.document out) ∧
      List.Forall₂ (ConvertsKeyword definitions)
        (mapped.filter fun entry => mongoKeywords.contains entry.1) out := by
  obtain ⟨out, hout, hall⟩ := settles_mapM (f := fun n =>
      convertKeyword (convertToMongoJsonSchema definitions n))
    (l := mapped.filter fun entry => mongoKeywords.contains entry.1) fun entry hentry =>
      hkept entry (List.mem_of_mem_filter hentry) (List.mem_filter.mp hentry).2
  refine ⟨out, settles_succ ?_, hall⟩
  show Settles (fun n => resolveRef definitions entries >>= fun schema =>
    mapToBsonType (translateKeywords schema) >>= fun schema =>
      keepMongoKeywords (convertToMongoJsonSchema definitions n) schema >>= fun kept =>
        .ok (Value.document kept)) (Value.document out)
  rw [hresolve]
  show Settles (fun n => mapToBsonType (translateKeywords merged) >>= fun schema =>
    keepMongoKeywords (convertToMongoJsonSchema definitions n) schema >>= fun kept =>
      .ok (Value.document kept)) (Value.document out)
  rw [hmap]
  exact hout.bind (settles_const (Value.document out))

theorem convertsKeyword_of (k : String) {j j' : Json} (hk : k ≠ "properties" ∧ k ≠ "patternProperties")
    (h : Converts definitions j j') : ConvertsKeyword definitions (k, j) (k, j') := by
  unfold ConvertsKeyword
  simp only [convertKeyword, hk.1, hk.2, or_self, if_false]
  exact h.bind (settles_const _)

theorem convertsKeyword_properties {properties : Entries}
    (h : ∀ property ∈ properties, ∃ j', Converts definitions property.2 j') :
    ∃ properties', ConvertsKeyword definitions ("properties", .document properties)
        ("properties", .document properties') ∧
      List.Forall₂ (fun property property' => property'.1 = property.1 ∧
        Converts definitions property.2 property'.2) properties properties' := by
  have hsettles : ∀ property ∈ properties, ∃ property', Settles (fun n =>
      (do return (property.1, ← convertToMongoJsonSchema definitions n property.2) :
        Except ValidatorError (String × Json))) property' := fun property hproperty => by
    obtain ⟨j', hj⟩ := h property hproperty
    exact ⟨(property.1, j'), hj.bind (settles_const _)⟩
  obtain ⟨properties', hall, hforall⟩ := settles_mapM hsettles
  refine ⟨properties', hall.bind (settles_const _), ?_⟩
  have hboth := (List.forall₂_and_left properties properties').mpr ⟨h, hforall⟩
  refine hboth.imp ?_
  rintro property property' ⟨⟨j', hj⟩, hsettled⟩
  obtain rfl := hsettled.unique (hj.bind (settles_const (property.1, j')))
  exact ⟨rfl, hj⟩

theorem name_of_converts {entry entry' : String × Json}
    (h : ConvertsKeyword definitions entry entry') : entry'.1 = entry.1 := by
  obtain ⟨N, hN⟩ := h
  have hentry := hN N le_rfl
  unfold convertKeyword at hentry
  split_ifs at hentry
  · cases hvalue : entry.2 with
    | document fields =>
      rw [hvalue] at hentry
      obtain ⟨_, -, hentry⟩ := bind_ok hentry
      rw [← Except.ok.inj hentry]
    | null | scalar | list =>
      rw [hvalue] at hentry
      cases hentry
  · obtain ⟨_, -, hentry⟩ := bind_ok hentry
    rw [← Except.ok.inj hentry]

theorem lookup_of_forall₂ {A B : Type} {R : String × A → String × B → Prop} {l : List (String × A)}
    {m : List (String × B)} (hname : ∀ x y, R x y → y.1 = x.1) (h : List.Forall₂ R l m) (k : String) :
    (l.lookup k = none ∧ m.lookup k = none) ∨
      ∃ a b, l.lookup k = some a ∧ m.lookup k = some b ∧ R (k, a) (k, b) := by
  induction h with
  | nil => exact .inl ⟨rfl, rfl⟩
  | @cons x y l m hxy _ ih =>
    have heq := hname x y hxy
    obtain ⟨n, a⟩ := x
    obtain ⟨n', b⟩ := y
    obtain rfl : n' = n := heq
    rw [List.lookup_cons, List.lookup_cons]
    by_cases hk : k = n'
    · subst hk
      simp only [beq_self_eq_true]
      exact .inr ⟨a, b, rfl, rfl, hxy⟩
    · rw [beq_false_of_ne hk]
      exact ih

/-- What is kept of a keyword that is looked up. -/
theorem lookup_converts {kept out : Entries} (hall : List.Forall₂ (ConvertsKeyword definitions) kept out)
    (k : String) : (kept.lookup k = none ∧ out.lookup k = none) ∨ ∃ j j', kept.lookup k = some j ∧
      out.lookup k = some j' ∧ ConvertsKeyword definitions (k, j) (k, j') :=
  lookup_of_forall₂ (fun _ _ => name_of_converts) hall k

theorem exists_of_forall₂ {A B : Type} {R : A → B → Prop} {l : List A} {m : List B} {b : B}
    (h : List.Forall₂ R l m) (hb : b ∈ m) : ∃ a ∈ l, R a b := by
  induction h with
  | nil => cases hb
  | cons hhead _ ih =>
    obtain rfl | hb := List.mem_cons.mp hb
    · exact ⟨_, List.mem_cons_self, hhead⟩
    · obtain ⟨a, ha, hR⟩ := ih hb
      exact ⟨a, List.mem_cons_of_mem _ ha, hR⟩

theorem mem_assign {A : Type} {name : String} {a : A} {l : List (String × A)} {entry : String × A}
    (h : entry ∈ assign name a l) : entry = (name, a) ∨ entry ∈ l ∧ entry.1 ≠ name := by
  unfold assign at h
  split_ifs at h with hsome
  · obtain ⟨other, hother, rfl⟩ := List.mem_map.mp h
    split_ifs with hname
    · exact .inl rfl
    · exact .inr ⟨hother, hname⟩
  · rw [Option.not_isSome_iff_eq_none, List.lookup_eq_none_iff] at hsome
    obtain h | h := List.mem_append.mp h
    · refine .inr ⟨h, fun hname => ?_⟩
      have hne := hsome entry h
      rw [hname] at hne
      simp at hne
    · exact .inl (List.mem_singleton.mp h)

theorem lookup_none_of_ne {A : Type} {name : String} {l : List (String × A)}
    (h : ∀ entry ∈ l, entry.1 ≠ name) : l.lookup name = none :=
  List.lookup_eq_none_iff.mpr fun entry hentry => by
    rw [bne_iff_ne]
    exact Ne.symm (h entry hentry)

theorem not_mem_of_lookup {A : Type} {name : String} {l : List (String × A)}
    (h : l.lookup name = none) : name ∉ l.map Prod.fst := fun hmem => by
  obtain ⟨entry, hentry, rfl⟩ := List.mem_map.mp hmem
  exact bne_iff_ne.mp (List.lookup_eq_none_iff.mp h entry hentry) rfl

theorem filter_eq_self_of_lookup {A : Type} {name : String} {l : List (String × A)}
    (h : l.lookup name = none) : (l.filter fun entry => entry.1 != name) = l := by
  refine List.filter_eq_self.mpr fun entry hentry => ?_
  have hne := List.lookup_eq_none_iff.mp h entry hentry
  rw [bne_iff_ne] at hne ⊢
  exact Ne.symm hne

theorem without_eq_self {name : String} (h : entries.lookup name = none) :
    without name entries = entries := filter_eq_self_of_lookup h

/-! ## The steps on a JSON schema -/

theorem resolveRef_none (h : entries.lookup "$ref" = none) :
    resolveRef definitions entries = .ok entries := by
  unfold resolveRef
  rw [h]
  exact congrArg Except.ok (without_eq_self h)

/-- The keywords that are written as others. -/
def translated : List String := ["$ref", "const", "prefixItems", "exclusiveMinimum", "exclusiveMaximum"]

theorem translateBound_none {bound limit : String} (h : entries.lookup bound = none) :
    translateBound bound limit entries = entries := by
  unfold translateBound
  rw [h]

theorem translateKeywords_none (h : ∀ k ∈ translated, entries.lookup k = none) :
    translateKeywords entries = entries := by
  have hconst : translateConst entries = entries := by
    unfold translateConst
    rw [h "const" (by decide)]
  have hitems : translatePrefixItems entries = entries := by
    unfold translatePrefixItems
    rw [h "prefixItems" (by decide)]
  unfold translateKeywords
  rw [hconst, hitems, translateBound_none (h "exclusiveMinimum" (by decide)),
    translateBound_none (h "exclusiveMaximum" (by decide))]

theorem lookup_translateBound {bound limit k : String} (hbound : k ≠ bound) (hlimit : k ≠ limit)
    (l : Entries) : (translateBound bound limit l).lookup k = l.lookup k := by
  unfold translateBound
  split
  · rfl
  · rfl
  · rw [lookup_assign, if_neg hbound, lookup_assign, if_neg hlimit]

/-- The keywords that others are written as. -/
def translations : List String :=
  ["enum", "items", "additionalItems", "minimum", "exclusiveMinimum", "maximum", "exclusiveMaximum"]

theorem lookup_translateKeywords {k : String} (hk : k ∉ translations) :
    (translateKeywords entries).lookup k = entries.lookup k := by
  have hne : ∀ other ∈ translations, k ≠ other := fun other hother heq => hk (heq ▸ hother)
  have hconst : (translateConst entries).lookup k = entries.lookup k := by
    unfold translateConst
    split
    · rfl
    · rw [lookup_assign, if_neg (hne "enum" (by decide))]
  have hitems : (translatePrefixItems (translateConst entries)).lookup k = entries.lookup k := by
    unfold translatePrefixItems
    split
    · exact hconst
    · rw [lookup_assign, if_neg (hne "additionalItems" (by decide)), lookup_assign,
        if_neg (hne "items" (by decide)), hconst]
  unfold translateKeywords
  rw [lookup_translateBound (hne "exclusiveMaximum" (by decide)) (hne "maximum" (by decide)),
    lookup_translateBound (hne "exclusiveMinimum" (by decide)) (hne "minimum" (by decide)), hitems]

/-- **A type gets its BSON type**, but for a string that is a datetime or an id. -/
theorem mapToBsonType_type {name : String} {bsonType : Json}
    (hname : entries.lookup "type" = some (Json.text name))
    (hdate : name = "string" → entries.lookup "format" ≠ some (Json.text "date-time"))
    (hid : name = "string" → entries.lookup "pattern" ≠ some (Json.text idPattern))
    (hbson : bsonTypes.lookup name = some bsonType) :
    mapToBsonType entries = .ok (assign "bsonType" bsonType entries) := by
  have hstring (h : some (Json.text name) = some (Json.text "string")) : name = "string" := by
    injection h with h
    injection h with h
    injection h
  unfold mapToBsonType
  dsimp only
  rw [hname, if_neg fun h => hdate (hstring h.1) h.2, if_neg fun h => hid (hstring h.1) h.2]
  simp only [Json.text, hbson]

theorem mapToBsonType_datetime (hname : entries.lookup "type" = some (Json.text "string"))
    (hdate : entries.lookup "format" = some (Json.text "date-time")) :
    mapToBsonType entries = .ok [("bsonType", Json.text "date")] := by
  unfold mapToBsonType
  dsimp only
  rw [if_pos ⟨hname, hdate⟩]

theorem mapToBsonType_id (hname : entries.lookup "type" = some (Json.text "string"))
    (hdate : entries.lookup "format" ≠ some (Json.text "date-time"))
    (hid : entries.lookup "pattern" = some (Json.text idPattern)) :
    mapToBsonType entries = .ok [("bsonType", Json.text "objectId")] := by
  unfold mapToBsonType
  dsimp only
  rw [if_neg fun h => hdate h.2, if_pos ⟨hname, hid⟩]

theorem mapToBsonType_none (h : entries.lookup "type" = none) : mapToBsonType entries = .ok entries := by
  simp [mapToBsonType, h]

theorem mem_translateBound {bound limit : String} {l : Entries} {entry : String × Json}
    (h : entry ∈ translateBound bound limit l) :
    entry ∈ l ∧ (entry.1 = limit → l.lookup bound = none ∨ ∃ b, l.lookup bound = some (Json.bool b)) ∨
      ∃ x, l.lookup bound = some x ∧ (entry = (bound, Json.bool true) ∨ entry = (limit, x)) := by
  unfold translateBound at h
  split at h
  · next hnone => exact .inl ⟨h, fun _ => .inl hnone⟩
  · next b hbool => exact .inl ⟨h, fun _ => .inr ⟨b, hbool⟩⟩
  · next x _ hx =>
    obtain h | ⟨h, -⟩ := mem_assign h
    · exact .inr ⟨x, hx, .inl h⟩
    · obtain h | ⟨h, hne⟩ := mem_assign h
      · exact .inr ⟨x, hx, .inr h⟩
      · exact .inl ⟨h, fun heq => (hne heq).elim⟩

/-- The keywords of remarks. -/
def remarks : List String :=
  ["default", "examples", "deprecated", "format", "propertyNames", "$defs", "title", "description"]

theorem IsRemark.mem {entry : String × Json} (h : IsRemark entry) : entry.1 ∈ remarks := by
  obtain h | ⟨h, -⟩ := h
  · exact List.mem_append_left ["title", "description"] h
  · exact List.mem_append_right
      ["default", "examples", "deprecated", "format", "propertyNames", "$defs"] h

end

end Mongo

end Mss
