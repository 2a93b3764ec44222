import Mss.ConvertedSchemas

/-!
# The values that MongoDB's validators take

Two recursions go through an annotation: one rewrites the JSON schema that pydantic gives of it, the
other encodes a value of it. They agree where the store finds the Ids: what the one makes of the JSON
schema takes what the other makes of a valid value.

* `AcceptsEntry`: a keyword takes a value; one lemma for each.
* **`Takes`**: the two recursions agree; `takes_of_mapped`: it is enough that each keyword does.
* `takes_items`, `takes_tuple`, `takes_dict`, `takes_union`: they do if they do on the parts.
* `takes_scalar`, `takes_datetime`, `takes_id`: they do on every scalar.
-/

namespace Mss

open Storage

namespace Mongo

/-! ## Keywords -/

/-- A keyword of a validator takes a value. -/
def AcceptsEntry (keywords : Entries) (v : Bson) (entry : String × Json) : Prop :=
  bsonDialect.acceptsKeyword keywords entry.1 entry.2 v (bsonDialect.accepts entry.2)
    (bsonDialect.acceptsSome entry.2) (bsonDialect.acceptsTuple entry.2)
    (bsonDialect.acceptsProperties entry.2) = true

section

variable {definitions keywords kept : Entries} {v : Bson} {entry entry' : String × Json} {j j' : Json}

theorem mem_remark (h : IsRemark entry) (hkept : mongoKeywords.contains entry.1 = true) :
    entry.1 ∈ ["title", "description"] ∧ ∃ s, entry.2 = Json.text s := by
  obtain h | h := h
  · have hnot : ∀ k ∈ ["default", "examples", "deprecated", "format", "propertyNames", "$defs"],
        mongoKeywords.contains k = false := by decide
    rw [hnot _ h] at hkept
    cases hkept
  · exact h

theorem converts_remark (h : IsRemark entry) (hkept : mongoKeywords.contains entry.1 = true) :
    ∃ entry', ConvertsKeyword definitions entry entry' ∧
      ∀ keywords v, AcceptsEntry keywords v entry' := by
  obtain ⟨hname, s, hs⟩ := mem_remark h hkept
  obtain ⟨k, x⟩ := entry
  obtain rfl : x = Json.text s := hs
  refine ⟨(k, Json.text s), convertsKeyword_of k ?_ (converts_scalar _), fun keywords v => ?_⟩
  · rcases List.mem_pair.mp hname with rfl | rfl <;> exact ⟨by decide, by decide⟩
  · unfold AcceptsEntry Dialect.acceptsKeyword
    rw [if_pos (List.mem_pair.mp hname)]

theorem accepts_bsonType (h : (j.texts.any (bsonDialect.typesOf v).contains) = true) :
    AcceptsEntry keywords v ("bsonType", j) := by
  simpa [AcceptsEntry, Dialect.acceptsKeyword] using h

theorem accepts_enum (h : (j.items.any fun j => bsonDialect.equals j v) = true) :
    AcceptsEntry keywords v ("enum", j) := by
  simpa [AcceptsEntry, Dialect.acceptsKeyword] using h

theorem accepts_anyOf {js : List Json} (h : ∃ j ∈ js, bsonDialect.accepts j v = true) :
    AcceptsEntry keywords v ("anyOf", .list js) := by
  simpa [AcceptsEntry, Dialect.acceptsKeyword, Dialect.acceptsSome] using Dialect.acceptsAny_iff.mpr h

theorem accepts_items {bs : List Bson} (hone : Dialect.tupleLength keywords = none)
    (h : ∀ b ∈ bs, bsonDialect.accepts j b = true) : AcceptsEntry keywords (.list bs) ("items", j) := by
  simpa [AcceptsEntry, Dialect.acceptsKeyword, Dialect.itemsOf, hone] using h

theorem accepts_tuple {js : List Json} {bs : List Bson} {n : ℕ}
    (hlength : Dialect.tupleLength keywords = some n)
    (h : List.Forall₂ (fun j b => bsonDialect.accepts j b = true) js bs) :
    AcceptsEntry keywords (.list bs) ("items", .list js) := by
  simpa [AcceptsEntry, Dialect.acceptsKeyword, Dialect.itemsOf, hlength, Dialect.acceptsTuple] using
    Dialect.acceptsZip_of_forall₂ h

theorem accepts_additionalItems {bs : List Bson}
    (hlength : Dialect.tupleLength keywords = some bs.length) :
    AcceptsEntry keywords (.list bs) ("additionalItems", j) := by
  simp [AcceptsEntry, Dialect.acceptsKeyword, Dialect.itemsOf, hlength]

theorem accepts_uniqueItems {bs : List Bson} (h : bs.Nodup) :
    AcceptsEntry keywords (.list bs) ("uniqueItems", j) := by
  simp [AcceptsEntry, Dialect.acceptsKeyword, Dialect.itemsOf, h]

theorem accepts_size {bs : List Bson} (hsize : IsSize entry) (h : MeetsSize entry bs.length) :
    AcceptsEntry keywords (.list bs) entry := by
  obtain ⟨k, x⟩ := entry
  obtain ⟨hname, q, rfl : x = Json.number q⟩ := hsize
  rcases List.mem_pair.mp hname with rfl | rfl
  · have hsize : q ≤ bs.length := h
    simpa [AcceptsEntry, Dialect.acceptsKeyword, Dialect.itemsOf, Dialect.isSized, Json.number,
      Json.number?] using hsize
  · have hsize : bs.length ≤ q := h
    simpa [AcceptsEntry, Dialect.acceptsKeyword, Dialect.itemsOf, Dialect.isSized, Json.number,
      Json.number?] using hsize

theorem accepts_properties {properties : Entries} {document : Document}
    (h : ∀ property ∈ properties, ∀ b, document.lookup property.1 = some b →
      bsonDialect.accepts property.2 b = true) :
    AcceptsEntry keywords (.document document) ("properties", .document properties) := by
  simpa [AcceptsEntry, Dialect.acceptsKeyword, Dialect.fieldsOf, Dialect.acceptsProperties] using
    Dialect.acceptsFields_iff.mpr h

theorem accepts_required {names : List String} {document : Document}
    (h : ∀ name ∈ names, (document.lookup name).isSome = true) :
    AcceptsEntry keywords (.document document) ("required", .list (names.map Json.text)) := by
  simpa [AcceptsEntry, Dialect.acceptsKeyword, Dialect.fieldsOf, Json.texts_map] using h

theorem accepts_additionalProperties {document : Document}
    (h : ∀ field ∈ document, Dialect.isDeclared keywords field.1 = true ∨
      bsonDialect.accepts j field.2 = true) :
    AcceptsEntry keywords (.document document) ("additionalProperties", j) := by
  simpa [AcceptsEntry, Dialect.acceptsKeyword, Dialect.fieldsOf] using h

end

/-! ## Conversions of values -/

theorem convertField_list (a : FieldType) (items : List PyValue) :
    convertField (.generic .list [a]) (.sequence .list items) =
      do return .list (← items.mapM (convertField a)) := by
  unfold convertField
  rw [FieldType.isIdField, FieldType.isIdFieldIn, FieldType.isIdFieldIn, Bool.or_false,
    FieldType.findNestedModel, FieldType.findNestedModelIn, FieldType.findNestedModelIn,
    Option.or_none]
  split_ifs
  · rw [convertToObjectIds, convertIds_eq]
  · cases a.findNestedModel with
    | none => rw [convertToBson, convertItems_eq]
    | some nested =>
      dsimp only
      rw [convertNestedValue, convertNestedItems_eq]

theorem convertField_set (type : ScalarType) (items : List PyValue) :
    convertField (.generic .set [.scalar type]) (.sequence .set items) =
      do return .list (← items.mapM (convertField (.scalar type))) := by
  have hid : FieldType.isIdField (.generic .set [.scalar type]) =
      FieldType.isIdField (.scalar type) := by
    simp [FieldType.isIdField, FieldType.isIdFieldIn]
  unfold convertField
  rw [hid]
  split_ifs
  · rw [convertToObjectIds, convertIds_eq]
  · show convertToBson _ = _
    rw [convertToBson, convertItems_eq]
    rfl

theorem convertField_none (a : FieldType) : convertField a .none = .ok .null := by
  unfold convertField
  split_ifs
  · rfl
  · cases a.findNestedModel with
    | none => rfl
    | some nested =>
      dsimp only
      rw [convertNestedValue] <;> first | rfl | simp

theorem eq_of_isOptional {args : List FieldType} (h : FieldType.isOptional args = true) :
    ∃ a, args = [a, .noneType] ∨ args = [.noneType, a] := by
  unfold FieldType.isOptional at h
  split at h
  · exact ⟨_, .inl rfl⟩
  · exact ⟨_, .inr rfl⟩
  · cases h

/-- **An Optional is converted as its type**, and so is None. -/
theorem convertField_optional {args : List FieldType} (h : FieldType.isOptional args = true)
    {a : FieldType} (ha : a ∈ args) {v : PyValue} (hv : a = .noneType → v = .none) :
    convertField (.generic .union args) v = convertField a v := by
  obtain ⟨other, rfl | rfl⟩ := eq_of_isOptional h
  · have hunion : convertField (.generic .union [other, .noneType]) v = convertField other v := by
      unfold convertField
      simp [FieldType.isIdField, FieldType.isIdFieldIn, FieldType.findNestedModel,
        FieldType.findNestedModelIn]
    obtain rfl | rfl := List.mem_pair.mp ha
    · exact hunion
    · rw [hunion, hv rfl, convertField_none, convertField_none]
  · have hunion : convertField (.generic .union [.noneType, other]) v = convertField other v := by
      unfold convertField
      simp [FieldType.isIdField, FieldType.isIdFieldIn, FieldType.findNestedModel,
        FieldType.findNestedModelIn]
    obtain rfl | rfl := List.mem_pair.mp ha
    · rw [hunion, hv rfl, convertField_none, convertField_none]
    · exact hunion

/-! ## Where the recursions agree -/

/-- **The two recursions agree** on an annotation: its JSON schema comes to a validator, not to a list
of them, that takes what its valid values are converted to. -/
def Takes (definitions : Entries) (a : FieldType) (j : Json) (valid : PyValue → Prop) : Prop :=
  ∃ j', Converts definitions j j' ∧ (∀ js, j' ≠ .list js) ∧
    ∀ v, valid v → ∃ b, convertField a v = .ok b ∧ bsonDialect.accepts j' b = true

section

variable {definitions entries merged mapped : Entries} {a : FieldType} {valid : PyValue → Prop}

/-- It is enough that each keyword that is kept comes to one that takes each value. -/
theorem takes_of_mapped {P : Bson → Prop} (hresolve : resolveRef definitions entries = .ok merged)
    (hmap : mapToBsonType (translateKeywords merged) = .ok mapped)
    (hvalid : ∀ v, valid v → ∃ b, convertField a v = .ok b ∧ P b)
    (hkept : ∀ entry ∈ mapped, mongoKeywords.contains entry.1 = true →
      ∃ entry', ConvertsKeyword definitions entry entry' ∧
        ∀ out, List.Forall₂ (ConvertsKeyword definitions)
          (mapped.filter fun entry => mongoKeywords.contains entry.1) out →
            ∀ b, P b → AcceptsEntry out b entry') :
    Takes definitions a (.document entries) valid := by
  obtain ⟨out, hconverts, hall⟩ := converts_document hresolve hmap fun entry hentry hcontains => by
    obtain ⟨entry', hentry', -⟩ := hkept entry hentry hcontains
    exact ⟨entry', hentry'⟩
  refine ⟨.document out, hconverts, nofun, fun v hv => ?_⟩
  obtain ⟨b, hb, hP⟩ := hvalid v hv
  refine ⟨b, hb, Dialect.accepts_iff.mpr fun entry' hentry' => ?_⟩
  obtain ⟨entry, hentry, hfrom⟩ := exists_of_forall₂ hall hentry'
  obtain ⟨hmem, hcontains⟩ := List.mem_filter.mp hentry
  obtain ⟨_, hto, haccepts⟩ := hkept entry hmem hcontains
  rw [hfrom.unique hto]
  exact haccepts out hall b hP

theorem converts_bsonType {name : String} {bsonType : Json}
    (h : bsonTypes.lookup name = some bsonType) : Converts definitions bsonType bsonType := by
  have hall : ∀ entry ∈ bsonTypes, Converts definitions entry.2 entry.2 := by
    simp only [bsonTypes, List.forall_mem_cons]
    refine ⟨converts_scalar _, converts_scalar _, converts_scalars ?_, converts_scalar _,
      converts_scalar _, converts_scalar _, converts_scalar _, nofun⟩
    simp [Json.text]
  exact hall _ (mem_of_lookup h)

theorem lookup_translated (h : ∀ entry ∈ entries, entry.1 ∉ translated) :
    ∀ k ∈ translated, entries.lookup k = none := fun _ hk =>
  lookup_none_of_ne fun entry hentry heq => h entry hentry (heq ▸ hk)

theorem lookup_out {bsonType : Json} {out : Entries} {k : String}
    (hall : List.Forall₂ (ConvertsKeyword definitions)
      ((assign "bsonType" bsonType entries).filter fun entry => mongoKeywords.contains entry.1) out)
    (hk : mongoKeywords.contains k = true) (hne : k ≠ "bsonType") :
    (entries.lookup k = none ∧ out.lookup k = none) ∨ ∃ j j', entries.lookup k = some j ∧
      out.lookup k = some j' ∧ ConvertsKeyword definitions (k, j) (k, j') := by
  have hlookup : ((assign "bsonType" bsonType entries).filter fun entry =>
      mongoKeywords.contains entry.1).lookup k = entries.lookup k := by
    rw [lookup_filter mongoKeywords.contains, if_pos hk, lookup_assign, if_neg hne]
  rw [← hlookup]
  exact lookup_converts hall k

/-- **A JSON schema of a type that is no string**: each value has the type, and each other keyword that
is kept comes to one that takes it. -/
theorem takes_of_type {P : Bson → Prop} {name : String} {bsonType : Json}
    (hname : entries.lookup "type" = some (Json.text name)) (hstring : name ≠ "string")
    (hbson : bsonTypes.lookup name = some bsonType)
    (htranslated : ∀ entry ∈ entries, entry.1 ∉ translated)
    (htype : ∀ b, P b → (bsonType.texts.any (bsonDialect.typesOf b).contains) = true)
    (hvalid : ∀ v, valid v → ∃ b, convertField a v = .ok b ∧ P b)
    (hkept : ∀ entry ∈ entries, mongoKeywords.contains entry.1 = true →
      ∃ entry', ConvertsKeyword definitions entry entry' ∧
        ∀ out, List.Forall₂ (ConvertsKeyword definitions)
          ((assign "bsonType" bsonType entries).filter fun entry =>
            mongoKeywords.contains entry.1) out → ∀ b, P b → AcceptsEntry out b entry') :
    Takes definitions a (.document entries) valid := by
  have hnone := lookup_translated htranslated
  have hmap := mapToBsonType_type hname (fun h => (hstring h).elim) (fun h => (hstring h).elim) hbson
  refine takes_of_mapped (resolveRef_none (hnone "$ref" (by decide)))
    ((congrArg mapToBsonType (translateKeywords_none hnone)).trans hmap) hvalid
    fun entry hentry hcontains => ?_
  obtain rfl | ⟨hentry, -⟩ := mem_assign hentry
  · exact ⟨_, convertsKeyword_of "bsonType" (by decide) (converts_bsonType hbson),
      fun out _ b hb => accepts_bsonType (htype b hb)⟩
  · exact hkept entry hentry hcontains

/-- **A reference** is the definition it refers to, with what stands beside it. -/
theorem takes_of_ref {j : Json} (hresolve : resolveRef definitions entries = .ok merged)
    (href : merged.lookup "$ref" = none) (h : Takes definitions a (.document merged) valid)
    (hj : j = .document entries) : Takes definitions a j valid := by
  subst hj
  obtain ⟨j', hconverts, hlist, hvalid⟩ := h
  refine ⟨j', ?_, hlist, hvalid⟩
  have hsame (n : ℕ) : convertToMongoJsonSchema definitions n (.document entries) =
      convertToMongoJsonSchema definitions n (.document merged) := by
    cases n with
    | zero => rfl
    | succ n =>
      rw [convertToMongoJsonSchema, convertToMongoJsonSchema, hresolve, resolveRef_none href]
  unfold Converts
  simp only [hsame]
  exact hconverts

theorem remark_not_translated {entry : String × Json} (h : IsRemark entry) : entry.1 ∉ translated := by
  have hnot : ∀ k ∈ remarks, k ∉ translated := by decide
  exact hnot _ h.mem

theorem takes_any (only : ∀ entry ∈ entries, IsRemark entry) :
    Takes definitions .any (.document entries) Encodable := by
  have hnone := lookup_translated fun entry hentry => remark_not_translated (only entry hentry)
  have htype : entries.lookup "type" = none := lookup_none_of_ne fun entry hentry heq => by
    have hmem := (only entry hentry).mem
    rw [heq] at hmem
    exact absurd hmem (by decide)
  refine takes_of_mapped (resolveRef_none (hnone "$ref" (by decide)))
    ((congrArg mapToBsonType (translateKeywords_none hnone)).trans (mapToBsonType_none htype))
    (P := fun _ => True) ?_ fun entry hentry hcontains => ?_
  · rintro v ⟨b, hb⟩
    exact ⟨b, hb, trivial⟩
  · obtain ⟨entry', hentry', haccepts⟩ := converts_remark (only entry hentry) hcontains
    exact ⟨entry', hentry', fun out _ b _ => haccepts out b⟩

theorem takes_anything : Takes definitions .any (Json.bool true) Encodable :=
  ⟨_, converts_scalar _, nofun, fun _ ⟨b, hb⟩ => ⟨b, hb, rfl⟩⟩

theorem takes_noneType (type_eq : entries.lookup "type" = some (Json.text "null"))
    (only : ∀ entry ∈ entries, IsRemark entry ∨ entry = ("type", Json.text "null")) :
    Takes definitions .noneType (.document entries) fun v => v = .none := by
  refine takes_of_type type_eq (by decide) rfl (P := fun b => b = .null) (fun entry hentry => ?_) ?_ ?_
    fun entry hentry hcontains => ?_
  · obtain hremark | rfl := only entry hentry
    · exact remark_not_translated hremark
    · decide
  · rintro b rfl
    rfl
  · rintro v rfl
    exact ⟨.null, rfl, rfl⟩
  · obtain hremark | rfl := only entry hentry
    · obtain ⟨entry', hentry', haccepts⟩ := converts_remark hremark hcontains
      exact ⟨entry', hentry', fun out _ b _ => haccepts out b⟩
    · exact absurd hcontains (by decide)

/-! ## Sequences -/

theorem converts_size {entry : String × Json} (h : IsSize entry) :
    ConvertsKeyword definitions entry entry := by
  obtain ⟨k, x⟩ := entry
  obtain ⟨hname, q, rfl : x = Json.number q⟩ := h
  refine convertsKeyword_of k ?_ (converts_scalar _)
  rcases List.mem_pair.mp hname with rfl | rfl <;> exact ⟨by decide, by decide⟩

theorem size_not_translated {entry : String × Json} (h : IsSize entry) : entry.1 ∉ translated := by
  have hnot : ∀ k ∈ ["minItems", "maxItems"], k ∉ translated := by decide
  exact hnot _ h.1

/-- **A list or a set of one type**: what its items are converted to are taken by the validator that
the JSON schema of the items comes to. -/
theorem takes_items {whole : FieldType} {j : Json} {validItem : PyValue → Prop}
    (element : Takes definitions a j validItem)
    (type_eq : entries.lookup "type" = some (Json.text "array"))
    (only : ∀ entry ∈ entries, IsRemark entry ∨ entry = ("type", Json.text "array") ∨
      entry = ("items", j) ∨ entry = ("uniqueItems", Json.bool true) ∨ IsSize entry)
    (hvalid : ∀ v, valid v → ∃ items bs, convertField whole v = .ok (.list bs) ∧
      List.Forall₂ (fun item b => convertField a item = .ok b) items bs ∧
      (∀ item ∈ items, validItem item) ∧ (("uniqueItems", Json.bool true) ∈ entries → bs.Nodup) ∧
      ∀ entry ∈ entries, MeetsSize entry items.length) :
    Takes definitions whole (.document entries) valid := by
  obtain ⟨j', hj, hlist, htakes⟩ := element
  have hone {out : Entries} (hall : List.Forall₂ (ConvertsKeyword definitions)
      ((assign "bsonType" (Json.text "array") entries).filter fun entry =>
        mongoKeywords.contains entry.1) out) : Dialect.tupleLength out = none := by
    unfold Dialect.tupleLength
    obtain ⟨-, hnone⟩ | ⟨k, k', hk, hk', hconverts⟩ := lookup_out hall
      (show mongoKeywords.contains "items" = true by decide) (by decide)
    · rw [hnone]
    · have hkj : k = j := by
        obtain hremark | h | h | h | hsize := only _ (mem_of_lookup hk)
        · exact absurd hremark.mem (show "items" ∉ remarks by decide)
        · exact absurd (congrArg Prod.fst h) (show "items" ≠ "type" by decide)
        · injection h
        · exact absurd (congrArg Prod.fst h) (show "items" ≠ "uniqueItems" by decide)
        · exact absurd hsize.1 (show "items" ∉ ["minItems", "maxItems"] by decide)
      subst hkj
      obtain rfl : k' = j' :=
        congrArg Prod.snd (hconverts.unique (convertsKeyword_of "items" (by decide) hj))
      rw [hk']
      cases k' with
      | list js => exact (hlist js rfl).elim
      | null | scalar | document => rfl
  refine takes_of_type type_eq (by decide) rfl (P := fun b => ∃ bs, b = .list bs ∧
      (∀ b ∈ bs, bsonDialect.accepts j' b = true) ∧
      (("uniqueItems", Json.bool true) ∈ entries → bs.Nodup) ∧
      ∀ entry ∈ entries, MeetsSize entry bs.length) (fun entry hentry => ?_) ?_ (fun v hv => ?_)
    fun entry hentry hcontains => ?_
  · obtain hremark | rfl | rfl | rfl | hsize := only entry hentry
    · exact remark_not_translated hremark
    · exact (show "type" ∉ translated by decide)
    · exact (show "items" ∉ translated by decide)
    · exact (show "uniqueItems" ∉ translated by decide)
    · exact size_not_translated hsize
  · rintro b ⟨bs, rfl, -⟩
    rfl
  · obtain ⟨items, bs, hbs, hforall, hitems, hunique, hsizes⟩ := hvalid v hv
    refine ⟨.list bs, hbs, bs, rfl, fun b hb => ?_, hunique, ?_⟩
    · obtain ⟨item, hitem, hfrom⟩ := exists_of_forall₂ hforall hb
      obtain ⟨b', hb', haccepts⟩ := htakes item (hitems item hitem)
      rw [hfrom] at hb'
      rwa [Except.ok.inj hb']
    · rw [← hforall.length_eq]
      exact hsizes
  · obtain hremark | rfl | rfl | rfl | hsize := only entry hentry
    · obtain ⟨entry', hentry', haccepts⟩ := converts_remark hremark hcontains
      exact ⟨entry', hentry', fun out _ b _ => haccepts out b⟩
    · exact absurd hcontains (by decide)
    · refine ⟨_, convertsKeyword_of "items" (by decide) hj, ?_⟩
      rintro out hall _ ⟨bs, rfl, haccepts, -⟩
      exact accepts_items (hone hall) haccepts
    · refine ⟨_, convertsKeyword_of "uniqueItems" (by decide) (converts_scalar _), ?_⟩
      rintro out - _ ⟨bs, rfl, -, hunique, -⟩
      exact accepts_uniqueItems (hunique hentry)
    · refine ⟨_, converts_size hsize, ?_⟩
      rintro out - _ ⟨bs, rfl, -, -, hsizes⟩
      exact accepts_size hsize (hsizes entry hentry)

theorem takes_list {j : Json} {validItem : PyValue → Prop} (element : Takes definitions a j validItem)
    (type_eq : entries.lookup "type" = some (Json.text "array"))
    (only : ∀ entry ∈ entries, IsRemark entry ∨ entry = ("type", Json.text "array") ∨
      entry = ("items", j) ∨ IsSize entry) :
    Takes definitions (.generic .list [a]) (.document entries) fun v =>
      ∃ items, v = .sequence .list items ∧ (∀ item ∈ items, validItem item) ∧
        ∀ entry ∈ entries, MeetsSize entry items.length := by
  refine takes_items element type_eq (fun entry hentry => ?_) ?_
  · obtain h | h | h | h := only entry hentry
    · exact .inl h
    · exact .inr (.inl h)
    · exact .inr (.inr (.inl h))
    · exact .inr (.inr (.inr (.inr h)))
  · rintro v ⟨items, rfl, hitems, hsizes⟩
    obtain ⟨j', -, -, htakes⟩ := element
    obtain ⟨bs, hbs, hforall⟩ := exists_mapM fun item hitem => htakes item (hitems item hitem)
    refine ⟨items, bs, ?_, hforall.imp fun _ _ h => h.1, hitems, fun h => ?_, hsizes⟩
    · rw [convertField_list, hbs]
      rfl
    · obtain h | h | h | h := only _ h
      · exact absurd h.mem (show "uniqueItems" ∉ remarks by decide)
      · exact absurd (congrArg Prod.fst h) (show "uniqueItems" ≠ "type" by decide)
      · exact absurd (congrArg Prod.fst h) (show "uniqueItems" ≠ "items" by decide)
      · exact absurd h.1 (show "uniqueItems" ∉ ["minItems", "maxItems"] by decide)

/-! ## Scalars -/

/-- What is stored of a scalar that is no id. -/
def storedScalar : PyScalar → Scalar
  | .datetime wall utcOffset => .datetime (toMilliseconds (wall - utcOffset.getD 0))
  | s => s.toScalar

/-- What is stored of a scalar of a type. -/
def storedAs : ScalarType → PyScalar → BsonScalar
  | .id, .str text => .objectId text
  | _, s => .value (storedScalar s)

theorem convertToBson_scalar {s : PyScalar} (h : IsStorable s) :
    convertToBson (.scalar s) = .ok (.scalar (.value (storedScalar s))) := by
  cases s with
  | int i =>
    have hrange : -2 ^ 63 ≤ i ∧ i < 2 ^ 63 := h
    show encodeScalar (.int i) = _
    rw [encodeScalar, if_pos hrange]
    rfl
  | intEnum i =>
    have hrange : -2 ^ 63 ≤ i ∧ i < 2 ^ 63 := h
    show encodeScalar (.intEnum i) = _
    rw [encodeScalar, if_pos hrange]
    rfl
  | bool | float | str | datetime | strEnum | uuid | path => rfl

/-- **A scalar of a type is stored** if the driver takes it. -/
theorem convertField_scalar {type : ScalarType} {s : PyScalar} (hs : IsScalarOf type s)
    (hstorable : IsStorable s) :
    convertField (.scalar type) (.scalar s) = .ok (.scalar (storedAs type s)) := by
  cases type with
  | id =>
    cases s with
    | str text =>
      obtain ⟨hlength, hdigits, hlower⟩ := hs
      show objectId text = _
      rw [objectId, if_pos ⟨hlength, hdigits⟩, hlower]
      rfl
    | bool | int | float | datetime | intEnum | strEnum | uuid | path => exact hs.elim
  | bool | int | float | str | datetime | uuid | path | literal | intEnum | strEnum =>
    exact convertToBson_scalar hstorable

theorem storedAs_inj {type : ScalarType} (hdate : type ≠ .datetime) {s s' : PyScalar}
    (hs : IsScalarOf type s) (hs' : IsScalarOf type s') (h : storedAs type s = storedAs type s') :
    s = s' := by
  cases type with
  | datetime => exact (hdate rfl).elim
  | _ =>
    cases s <;> simp only [IsScalarOf] at hs
    all_goals
      cases s' <;> simp only [IsScalarOf] at hs'
      simpa [storedAs, storedScalar, PyScalar.toScalar] using h

theorem nodup_of_forall₂ {A B : Type} {R : A → B → Prop} {l : List A} {m : List B}
    (h : List.Forall₂ R l m) (hl : l.Nodup)
    (hinj : ∀ a ∈ l, ∀ a' ∈ l, ∀ b, R a b → R a' b → a = a') : m.Nodup := by
  induction h with
  | nil => exact List.nodup_nil
  | @cons a b l m hab hall ih =>
    obtain ⟨hnot, hl⟩ := List.nodup_cons.mp hl
    refine List.nodup_cons.mpr ⟨fun hmem => ?_, ih hl fun x hx y hy =>
      hinj x (List.mem_cons_of_mem a hx) y (List.mem_cons_of_mem a hy)⟩
    obtain ⟨a', ha', hR⟩ := exists_of_forall₂ hall hmem
    refine hnot ?_
    rwa [hinj a List.mem_cons_self a' (List.mem_cons_of_mem a ha') b hab hR]

theorem takes_set {type : ScalarType} {j : Json} {validItem : PyValue → Prop}
    (element : Takes definitions (.scalar type) j validItem) (notDate : type ≠ .datetime)
    (type_eq : entries.lookup "type" = some (Json.text "array"))
    (only : ∀ entry ∈ entries, IsRemark entry ∨ entry = ("type", Json.text "array") ∨
      entry = ("items", j) ∨ entry = ("uniqueItems", Json.bool true) ∨ IsSize entry) :
    Takes definitions (.generic .set [.scalar type]) (.document entries) fun v =>
      ∃ items, v = .sequence .set items ∧ items.Nodup ∧
        (∀ item ∈ items, validItem item ∧ ∃ s, item = .scalar s ∧ IsScalarOf type s ∧ IsStorable s) ∧
        ∀ entry ∈ entries, MeetsSize entry items.length := by
  refine takes_items element type_eq only ?_
  rintro v ⟨items, rfl, hnodup, hitems, hsizes⟩
  obtain ⟨j', -, -, htakes⟩ := element
  obtain ⟨bs, hbs, hforall⟩ := exists_mapM fun item hitem => htakes item (hitems item hitem).1
  refine ⟨items, bs, ?_, hforall.imp fun _ _ h => h.1, fun item hitem => (hitems item hitem).1,
    fun _ => nodup_of_forall₂ hforall hnodup fun item hitem item' hitem' b h h' => ?_, hsizes⟩
  · rw [convertField_set, hbs]
    rfl
  · obtain ⟨-, s, rfl, hs, hstorable⟩ := hitems item hitem
    obtain ⟨-, s', rfl, hs', hstorable'⟩ := hitems item' hitem'
    have hb := Except.ok.inj ((convertField_scalar hs hstorable).symm.trans h.1)
    have hb' := Except.ok.inj ((convertField_scalar hs' hstorable').symm.trans h'.1)
    have heq : storedAs type s = storedAs type s' := by
      injection hb.trans hb'.symm
    rw [storedAs_inj notDate hs hs' heq]

/-! ## Strings and other scalars -/

theorem takes_of_bsonType {name : String} (hresolve : resolveRef definitions entries = .ok merged)
    (hmap : mapToBsonType (translateKeywords merged) = .ok [("bsonType", Json.text name)])
    (hvalid : ∀ v, valid v → ∃ b, convertField a v = .ok b ∧
      (bsonDialect.typesOf b).contains name = true) :
    Takes definitions a (.document entries) valid := by
  refine takes_of_mapped hresolve hmap hvalid fun entry hentry _ => ?_
  obtain rfl := List.mem_singleton.mp hentry
  refine ⟨_, convertsKeyword_of "bsonType" (by decide) (converts_scalar _), fun out _ b hb => ?_⟩
  refine accepts_bsonType ?_
  show ([name].any (bsonDialect.typesOf b).contains) = true
  rw [List.any_cons, hb, Bool.true_or]

theorem takes_datetime (type_eq : entries.lookup "type" = some (Json.text "string"))
    (format_eq : entries.lookup "format" = some (Json.text "date-time"))
    (noRef : entries.lookup "$ref" = none) :
    Takes definitions (.scalar .datetime) (.document entries) fun v =>
      ∃ s, v = .scalar s ∧ IsScalarOf .datetime s := by
  refine takes_of_bsonType (resolveRef_none noRef) (mapToBsonType_datetime ?_ ?_) ?_
  · rw [lookup_translateKeywords (by decide), type_eq]
  · rw [lookup_translateKeywords (by decide), format_eq]
  · rintro v ⟨s, rfl, hs⟩
    cases s with
    | datetime wall utcOffset => exact ⟨_, rfl, rfl⟩
    | bool | int | float | str | intEnum | strEnum | uuid | path => exact hs.elim

theorem takes_id (type_eq : entries.lookup "type" = some (Json.text "string"))
    (format_ne : entries.lookup "format" ≠ some (Json.text "date-time"))
    (pattern_eq : entries.lookup "pattern" = some (Json.text idPattern))
    (noRef : entries.lookup "$ref" = none) :
    Takes definitions (.scalar .id) (.document entries) fun v => ∃ s, v = .scalar s ∧ IsScalarOf .id s := by
  refine takes_of_bsonType (resolveRef_none noRef) (mapToBsonType_id ?_ ?_ ?_) ?_
  · rw [lookup_translateKeywords (by decide), type_eq]
  · rw [lookup_translateKeywords (by decide)]
    exact format_ne
  · rw [lookup_translateKeywords (by decide), pattern_eq]
  · rintro v ⟨s, rfl, hs⟩
    cases s with
    | str text => exact ⟨_, convertField_scalar hs trivial, rfl⟩
    | bool | int | float | datetime | intEnum | strEnum | uuid | path => exact hs.elim

/-- **What the keywords are written as**, where no item has a validator of its own. -/
theorem mem_translateKeywords (hitems : entries.lookup "prefixItems" = none) {entry : String × Json}
    (h : entry ∈ translateKeywords entries) :
    (entry ∈ entries ∧
        (entry.1 = "minimum" → entries.lookup "exclusiveMinimum" = none ∨
          ∃ b, entries.lookup "exclusiveMinimum" = some (Json.bool b)) ∧
        (entry.1 = "maximum" → entries.lookup "exclusiveMaximum" = none ∨
          ∃ b, entries.lookup "exclusiveMaximum" = some (Json.bool b))) ∨
      (∃ x, entries.lookup "const" = some x ∧ entry = ("enum", .list [x])) ∨
      (∃ x, entries.lookup "exclusiveMinimum" = some x ∧
        (entry = ("exclusiveMinimum", Json.bool true) ∨ entry = ("minimum", x))) ∨
      ∃ x, entries.lookup "exclusiveMaximum" = some x ∧
        (entry = ("exclusiveMaximum", Json.bool true) ∨ entry = ("maximum", x)) := by
  have hconst {k : String} (hk : k ≠ "enum") : (translateConst entries).lookup k = entries.lookup k := by
    unfold translateConst
    split
    · rfl
    · rw [lookup_assign, if_neg hk]
  have htuple : translatePrefixItems (translateConst entries) = translateConst entries := by
    unfold translatePrefixItems
    rw [hconst (by decide), hitems]
  unfold translateKeywords at h
  rw [htuple] at h
  obtain ⟨h, hmaximum⟩ | ⟨x, hx, h⟩ := mem_translateBound h
  · obtain ⟨h, hminimum⟩ | ⟨x, hx, h⟩ := mem_translateBound h
    · rw [lookup_translateBound (by decide) (by decide), hconst (by decide)] at hmaximum
      rw [hconst (by decide)] at hminimum
      unfold translateConst at h
      split at h
      · exact .inl ⟨h, hminimum, hmaximum⟩
      · next x hx =>
        obtain h | ⟨h, -⟩ := mem_assign h
        · exact .inr (.inl ⟨x, hx, h⟩)
        · exact .inl ⟨h, hminimum, hmaximum⟩
    · rw [hconst (by decide)] at hx
      exact .inr (.inr (.inl ⟨x, hx, h⟩))
  · rw [lookup_translateBound (by decide) (by decide), hconst (by decide)] at hx
    exact .inr (.inr (.inr ⟨x, hx, h⟩))

/-- The bounds of a scalar. -/
def bounds : List String :=
  ["minimum", "maximum", "exclusiveMinimum", "exclusiveMaximum", "minLength", "maxLength"]

theorem IsConstraint.cases {entry : String × Json} (h : IsConstraint entry) :
    (∃ s, entry = ("const", .scalar s)) ∨
      (∃ items, entry = ("enum", .list items) ∧ ∀ item ∈ items, ∃ j, item = .scalar j) ∨
      entry.1 ∈ bounds ∧ ∃ q, entry.2 = Json.number q := by
  obtain ⟨k, x⟩ := entry
  unfold IsConstraint at h
  split at h
  · next hk hx =>
    subst hk hx
    exact .inl ⟨_, rfl⟩
  · next hk hx =>
    subst hk hx
    exact .inr (.inl ⟨_, rfl, h⟩)
  all_goals first
    | next hk hx =>
      subst hk hx
      exact .inr (.inr ⟨by simp [bounds], _, rfl⟩)
    | exact h.elim

theorem IsConstraint.ne {entry : String × Json} (h : IsConstraint entry) :
    entry.1 ≠ "prefixItems" ∧ entry.1 ≠ "$ref" ∧ entry.1 ≠ "pattern" := by
  have hnot : ∀ k ∈ "const" :: "enum" :: bounds, k ≠ "prefixItems" ∧ k ≠ "$ref" ∧ k ≠ "pattern" := by
    decide
  refine hnot _ ?_
  obtain ⟨s, rfl⟩ | ⟨items, rfl, -⟩ | ⟨hk, -⟩ := h.cases
  · exact List.mem_cons_self
  · exact List.mem_cons_of_mem _ List.mem_cons_self
  · exact List.mem_cons_of_mem _ (List.mem_cons_of_mem _ hk)

theorem IsConstraint.const {x : Json} (h : IsConstraint ("const", x)) : ∃ j, x = .scalar j := by
  cases x with
  | scalar j => exact ⟨j, rfl⟩
  | null | list | document => exact h.elim

theorem IsConstraint.bound {k : String} {x : Json} (h : IsConstraint (k, x)) (hk : k ∈ bounds) :
    ∃ r, x = Json.number r := by
  obtain ⟨s, heq⟩ | ⟨items, heq, -⟩ | ⟨-, hq⟩ := h.cases
  · rw [(Prod.mk.inj heq).1] at hk
    exact absurd hk (by decide)
  · rw [(Prod.mk.inj heq).1] at hk
    exact absurd hk (by decide)
  · exact hq

theorem converts_constraint {entry : String × Json} (h : IsConstraint entry) :
    ConvertsKeyword definitions entry entry := by
  obtain ⟨s, rfl⟩ | ⟨items, rfl, hitems⟩ | ⟨hk, q, hq⟩ := h.cases
  · exact convertsKeyword_of "const" (by decide) (converts_scalar s)
  · exact convertsKeyword_of "enum" (by decide) (converts_scalars hitems)
  · obtain ⟨k, x⟩ := entry
    obtain rfl : x = Json.number q := hq
    have hnot : ∀ k ∈ bounds, k ≠ "properties" ∧ k ≠ "patternProperties" := by decide
    exact convertsKeyword_of k (hnot k hk) (converts_scalar _)

theorem equals_of_equalsJson {j : Json} {s : Scalar} (h : equalsJson j s = true) :
    bsonDialect.equals j (.scalar (.value s)) = true := by
  cases j with
  | scalar j => exact h
  | null | list | document => cases h

theorem accepts_minimum {out : Entries} {s : Scalar} {r : ℚ}
    (h : ∀ q, bsonDialect.number? (.value s) = some q → r ≤ q)
    (hstrict : Dialect.isExclusive out "exclusiveMinimum" = true →
      ∀ q, bsonDialect.number? (.value s) = some q → r < q) :
    AcceptsEntry out (.scalar (.value s)) ("minimum", Json.number r) := by
  refine Dialect.isBounded_iff.mpr fun q hq => ?_
  split_ifs with hexclusive
  · exact decide_eq_true (hstrict hexclusive q hq)
  · exact decide_eq_true (h q hq)

theorem accepts_maximum {out : Entries} {s : Scalar} {r : ℚ}
    (h : ∀ q, bsonDialect.number? (.value s) = some q → q ≤ r)
    (hstrict : Dialect.isExclusive out "exclusiveMaximum" = true →
      ∀ q, bsonDialect.number? (.value s) = some q → q < r) :
    AcceptsEntry out (.scalar (.value s)) ("maximum", Json.number r) := by
  refine Dialect.isBounded_iff.mpr fun q hq => ?_
  split_ifs with hexclusive
  · exact decide_eq_true (hstrict hexclusive q hq)
  · exact decide_eq_true (h q hq)

theorem isSized_text {s : Scalar} {r : ℚ} {p : ℚ → ℚ → Bool}
    (h : ∀ text, bsonDialect.text? (.value s) = some text → p r text.toList.length = true) :
    Dialect.isSized ((bsonDialect.textOf (.scalar (.value s))).map fun s => s.toList.length)
      (Json.number r) p = true := by
  refine Dialect.isSized_iff.mpr fun n hn => ?_
  obtain ⟨text, htext, rfl⟩ := Option.map_eq_some_iff.mp hn
  exact h text htext

theorem accepts_constraint {out : Entries} {entry : String × Json} {s : Scalar}
    (h : IsConstraint entry) (hkept : mongoKeywords.contains entry.1 = true) (hmeets : Meets entry s)
    (hminimum : entry.1 = "minimum" → Dialect.isExclusive out "exclusiveMinimum" = false)
    (hmaximum : entry.1 = "maximum" → Dialect.isExclusive out "exclusiveMaximum" = false) :
    AcceptsEntry out (.scalar (.value s)) entry := by
  obtain ⟨j, rfl⟩ | ⟨items, rfl, -⟩ | ⟨hk, q, hq⟩ := h.cases
  · exact absurd hkept (show ¬mongoKeywords.contains "const" = true by decide)
  · obtain ⟨item, hitem, hequals⟩ := hmeets
    exact accepts_enum (List.any_eq_true.mpr ⟨item, hitem, equals_of_equalsJson hequals⟩)
  · obtain ⟨k, x⟩ := entry
    obtain rfl : x = Json.number q := hq
    simp only [bounds, List.mem_cons, List.not_mem_nil, or_false] at hk
    obtain rfl | rfl | rfl | rfl | rfl | rfl := hk
    · exact accepts_minimum hmeets fun h => absurd (h.symm.trans (hminimum rfl)) (by decide)
    · exact accepts_maximum hmeets fun h => absurd (h.symm.trans (hmaximum rfl)) (by decide)
    · rfl
    · rfl
    · exact isSized_text (p := (· ≤ ·)) fun text htext => decide_eq_true (hmeets text htext)
    · exact isSized_text (p := (· ≥ ·)) fun text htext => decide_eq_true (hmeets text htext)

theorem exists_bsonType (type : ScalarType) :
    ∃ bsonType, bsonTypes.lookup (jsonType type) = some bsonType := by
  cases type <;> exact ⟨_, rfl⟩

/-- **A scalar has the BSON type** of its type, if it is no id and no datetime. -/
theorem typesOf_scalar {type : ScalarType} {s : PyScalar} {bsonType : Json} (notId : type ≠ .id)
    (notDate : type ≠ .datetime) (hs : IsScalarOf type s)
    (hbson : bsonTypes.lookup (jsonType type) = some bsonType) :
    (bsonType.texts.any (bsonDialect.typesOf (.scalar (.value s.toScalar))).contains) = true := by
  cases type with
  | id => exact (notId rfl).elim
  | datetime => exact (notDate rfl).elim
  | int | intEnum =>
    obtain rfl := Option.some.inj hbson
    cases s <;> simp only [IsScalarOf] at hs
    next i =>
      show (["int", "long"].any
        [if -2 ^ 31 ≤ i ∧ i < 2 ^ 31 then "int" else "long", "number"].contains) = true
      split_ifs <;> rfl
  | bool | float | str | uuid | path | literal | strEnum =>
    obtain rfl := Option.some.inj hbson
    cases s <;> simp only [IsScalarOf] at hs
    rfl

theorem convertField_value {type : ScalarType} {s : PyScalar} (notId : type ≠ .id)
    (notDate : type ≠ .datetime) (hs : IsScalarOf type s) (hstorable : IsStorable s) :
    convertField (.scalar type) (.scalar s) = .ok (.scalar (.value s.toScalar)) := by
  rw [convertField_scalar hs hstorable]
  cases type with
  | id => exact (notId rfl).elim
  | datetime => exact (notDate rfl).elim
  | bool | int | float | str | uuid | path | literal | intEnum | strEnum =>
    cases s <;> simp only [IsScalarOf] at hs
    rfl

/-- **A keyword of a scalar's JSON schema**, once translated, is a remark, the type, or one that comes
to itself and takes each scalar that meets what is asked. -/
theorem accepts_translated {type : ScalarType} (only : ∀ entry ∈ entries, IsRemark entry ∨
      entry = ("type", Json.text (jsonType type)) ∨ IsConstraint entry)
    {entry : String × Json} (h : entry ∈ translateKeywords entries)
    (hkept : mongoKeywords.contains entry.1 = true) :
    IsRemark entry ∨ ConvertsKeyword definitions entry entry ∧
      ∀ (s : Scalar) (out : Entries), (∀ entry ∈ entries, Meets entry s) →
        (entries.lookup "exclusiveMinimum" = none →
          Dialect.isExclusive out "exclusiveMinimum" = false) →
        (entries.lookup "exclusiveMaximum" = none →
          Dialect.isExclusive out "exclusiveMaximum" = false) →
        AcceptsEntry out (.scalar (.value s)) entry := by
  have hconstraint {k : String} {x : Json} (hx : entries.lookup k = some x) (hk : k ∉ remarks)
      (htype : k ≠ "type") : IsConstraint (k, x) := by
    obtain h | h | h := only _ (mem_of_lookup hx)
    · exact absurd h.mem hk
    · exact absurd (congrArg Prod.fst h) htype
    · exact h
  have htuple : entries.lookup "prefixItems" = none := by
    cases hx : entries.lookup "prefixItems" with
    | none => rfl
    | some x => exact absurd rfl (hconstraint hx (by decide) (by decide)).ne.1
  obtain ⟨h, hminimum, hmaximum⟩ | ⟨x, hx, rfl⟩ | ⟨x, hx, h⟩ | ⟨x, hx, h⟩ :=
    mem_translateKeywords htuple h
  · obtain h' | rfl | h' := only entry h
    · exact .inl h'
    · exact absurd hkept (show ¬mongoKeywords.contains "type" = true by decide)
    · refine .inr ⟨converts_constraint h', fun s out hmeets hmin hmax =>
        accepts_constraint h' hkept (hmeets entry h) (fun heq => hmin ?_) fun heq => hmax ?_⟩
      · obtain h | ⟨b, h⟩ := hminimum heq
        · exact h
        · exact (hconstraint h (by decide) (by decide)).elim
      · obtain h | ⟨b, h⟩ := hmaximum heq
        · exact h
        · exact (hconstraint h (by decide) (by decide)).elim
  · obtain ⟨j, rfl⟩ := IsConstraint.const (hconstraint hx (by decide) (by decide))
    refine .inr ⟨convertsKeyword_of "enum" (by decide) (converts_scalars ?_), fun s out hmeets _ _ =>
      accepts_enum ?_⟩
    · exact fun j' hj' => ⟨j, List.mem_singleton.mp hj'⟩
    · have hmeets : equalsJson (.scalar j) s = true := hmeets _ (mem_of_lookup hx)
      show ([Value.scalar j].any fun j => bsonDialect.equals j _) = true
      rw [List.any_cons, equals_of_equalsJson hmeets, Bool.true_or]
  · obtain ⟨r, rfl⟩ := (hconstraint hx (by decide) (by decide)).bound (by decide)
    obtain rfl | rfl := h
    · exact .inr ⟨convertsKeyword_of _ (by decide) (converts_scalar _), fun _ _ _ _ _ => rfl⟩
    · refine .inr ⟨convertsKeyword_of _ (by decide) (converts_scalar _), fun s out hmeets _ _ => ?_⟩
      have hmeets : ∀ q, bsonDialect.number? (.value s) = some q → r < q := hmeets _ (mem_of_lookup hx)
      exact accepts_minimum (fun q hq => (hmeets q hq).le) fun _ => hmeets
  · obtain ⟨r, rfl⟩ := (hconstraint hx (by decide) (by decide)).bound (by decide)
    obtain rfl | rfl := h
    · exact .inr ⟨convertsKeyword_of _ (by decide) (converts_scalar _), fun _ _ _ _ _ => rfl⟩
    · refine .inr ⟨convertsKeyword_of _ (by decide) (converts_scalar _), fun s out hmeets _ _ => ?_⟩
      have hmeets : ∀ q, bsonDialect.number? (.value s) = some q → q < r := hmeets _ (mem_of_lookup hx)
      exact accepts_maximum (fun q hq => (hmeets q hq).le) fun _ => hmeets

theorem not_exclusive {bsonType : Json} {out : Entries} {k : String}
    (hitems : entries.lookup "prefixItems" = none)
    (hall : List.Forall₂ (ConvertsKeyword definitions)
      ((assign "bsonType" bsonType (translateKeywords entries)).filter fun entry =>
        mongoKeywords.contains entry.1) out)
    (hk : k ∈ ["exclusiveMinimum", "exclusiveMaximum"]) (hno : entries.lookup k = none) :
    Dialect.isExclusive out k = false := by
  have hkeyword : mongoKeywords.contains k = true ∧ k ≠ "bsonType" ∧ k ≠ "enum" ∧ k ≠ "minimum" ∧
      k ≠ "maximum" := by
    obtain rfl | rfl := List.mem_pair.mp hk <;> decide
  unfold Dialect.isExclusive
  obtain ⟨-, hnone⟩ | ⟨j, -, hj, -, -⟩ := lookup_out hall hkeyword.1 hkeyword.2.1
  · rw [hnone]
    rfl
  · obtain ⟨hmem, -, -⟩ | ⟨x, -, heq⟩ | ⟨x, hx, heq⟩ | ⟨x, hx, heq⟩ :=
      mem_translateKeywords hitems (mem_of_lookup hj)
    · exact absurd rfl (bne_iff_ne.mp (List.lookup_eq_none_iff.mp hno _ hmem))
    · exact (hkeyword.2.2.1 (congrArg Prod.fst heq)).elim
    · obtain heq | heq := heq
      · have hname : k = "exclusiveMinimum" := congrArg Prod.fst heq
        rw [hname, hx] at hno
        cases hno
      · exact (hkeyword.2.2.2.1 (congrArg Prod.fst heq)).elim
    · obtain heq | heq := heq
      · have hname : k = "exclusiveMaximum" := congrArg Prod.fst heq
        rw [hname, hx] at hno
        cases hno
      · exact (hkeyword.2.2.2.2 (congrArg Prod.fst heq)).elim

theorem takes_scalar {type : ScalarType} (notId : type ≠ .id) (notDate : type ≠ .datetime)
    (type_eq : entries.lookup "type" = some (Json.text (jsonType type)))
    (format_ne : entries.lookup "format" ≠ some (Json.text "date-time"))
    (only : ∀ entry ∈ entries, IsRemark entry ∨ entry = ("type", Json.text (jsonType type)) ∨
      IsConstraint entry) :
    Takes definitions (.scalar type) (.document entries) fun v =>
      ∃ s, v = .scalar s ∧ IsScalarOf type s ∧ IsStorable s ∧
        ∀ entry ∈ entries, Meets entry s.toScalar := by
  obtain ⟨bsonType, hbson⟩ := exists_bsonType type
  have hnone {k : String} (hk : ∀ entry, IsConstraint entry → entry.1 ≠ k) (hremark : k ∉ remarks)
      (htype : "type" ≠ k) : entries.lookup k = none := by
    refine lookup_none_of_ne fun entry hentry => ?_
    obtain h | rfl | h := only entry hentry
    · exact fun heq => hremark (heq ▸ h.mem)
    · exact htype
    · exact hk entry h
  have href : entries.lookup "$ref" = none := hnone (fun _ h => h.ne.2.1) (by decide) (by decide)
  have hpattern : entries.lookup "pattern" = none := hnone (fun _ h => h.ne.2.2) (by decide) (by decide)
  have htuple : entries.lookup "prefixItems" = none :=
    hnone (fun _ h => h.ne.1) (by decide) (by decide)
  have hmap : mapToBsonType (translateKeywords entries) =
      .ok (assign "bsonType" bsonType (translateKeywords entries)) := by
    refine mapToBsonType_type ?_ (fun _ => ?_) (fun _ => ?_) hbson
    · rw [lookup_translateKeywords (by decide), type_eq]
    · rw [lookup_translateKeywords (by decide)]
      exact format_ne
    · rw [lookup_translateKeywords (by decide), hpattern]
      nofun
  refine takes_of_mapped (resolveRef_none href) hmap (P := fun b => ∃ s, b = .scalar (.value s) ∧
      (bsonType.texts.any (bsonDialect.typesOf b).contains) = true ∧ ∀ entry ∈ entries, Meets entry s)
    ?_ fun entry hentry hcontains => ?_
  · rintro v ⟨s, rfl, hs, hstorable, hmeets⟩
    exact ⟨_, convertField_value notId notDate hs hstorable, s.toScalar, rfl,
      typesOf_scalar notId notDate hs hbson, hmeets⟩
  obtain rfl | ⟨hentry, -⟩ := mem_assign hentry
  · refine ⟨_, convertsKeyword_of "bsonType" (by decide) (converts_bsonType hbson), ?_⟩
    rintro out - b ⟨s, -, htype, -⟩
    exact accepts_bsonType htype
  · obtain hremark | ⟨hsame, haccepts⟩ := accepts_translated only hentry hcontains
    · obtain ⟨entry', hentry', haccepts⟩ := converts_remark hremark hcontains
      exact ⟨entry', hentry', fun out _ b _ => haccepts out b⟩
    · refine ⟨entry, hsame, ?_⟩
      rintro out hall _ ⟨s, rfl, -, hmeets⟩
      exact haccepts s out hmeets
        (not_exclusive htuple hall List.mem_cons_self)
        (not_exclusive htuple hall (List.mem_cons_of_mem _ List.mem_cons_self))

/-! ## Tuples and dicts -/

theorem convertToBson_of_takes {j' : Json} (hids : a.holdsIds = false)
    (h : ∀ v, valid v → ∃ b, convertField a v = .ok b ∧ bsonDialect.accepts j' b = true)
    {v : PyValue} (hv : valid v) : ∃ b, convertToBson v = .ok b ∧ bsonDialect.accepts j' b = true := by
  obtain ⟨b, hb, haccepts⟩ := h v hv
  rw [convertField_eq hids] at hb
  exact ⟨b, hb, haccepts⟩

theorem holdsIds_of_mem {args : List FieldType} (h : FieldType.holdsIdsIn args = false)
    (ha : a ∈ args) : a.holdsIds = false := by
  induction args with
  | nil => cases ha
  | cons other args ih =>
    rw [FieldType.holdsIdsIn, Bool.or_eq_false_iff] at h
    obtain rfl | ha := List.mem_cons.mp ha
    · exact h.1
    · exact ih h.2 ha

theorem exists_tuple {parts : List (FieldType × Json × (PyValue → Prop))} {js : List Json}
    {items : List PyValue} (hids : ∀ part ∈ parts, part.1.holdsIds = false)
    (hparts : ∀ part ∈ parts, Takes definitions part.1 part.2.1 part.2.2)
    (hjs : List.Forall₂ (fun part j => Converts definitions part.2.1 j) parts js)
    (hitems : List.Forall₂ (fun part item => part.2.2 item) parts items) :
    ∃ bs, items.mapM convertToBson = .ok bs ∧
      List.Forall₂ (fun j b => bsonDialect.accepts j b = true) js bs := by
  induction hitems generalizing js with
  | nil =>
    cases hjs
    exact ⟨[], rfl, .nil⟩
  | @cons part item parts items hitem _ ih =>
    cases hjs with
    | @cons _ j _ js hj hjs =>
    obtain ⟨j', hj', -, htakes⟩ := hparts part List.mem_cons_self
    obtain rfl := hj'.unique hj
    obtain ⟨b, hb, haccepts⟩ := convertToBson_of_takes (hids part List.mem_cons_self) htakes hitem
    obtain ⟨bs, hbs, hall⟩ := ih (fun part hpart => hids part (List.mem_cons_of_mem _ hpart))
      (fun part hpart => hparts part (List.mem_cons_of_mem _ hpart)) hjs
    refine ⟨b :: bs, ?_, .cons haccepts hall⟩
    rw [List.mapM_cons, hb, hbs]
    rfl

theorem exists_converts_parts {parts : List (FieldType × Json × (PyValue → Prop))}
    (hparts : ∀ part ∈ parts, Takes definitions part.1 part.2.1 part.2.2) :
    ∃ js, Converts definitions (.list (parts.map fun part => part.2.1)) (.list js) ∧
      List.Forall₂ (fun part j => Converts definitions part.2.1 j) parts js := by
  have hconverts : ∀ j ∈ parts.map fun part => part.2.1, ∃ j', Converts definitions j j' := by
    intro j hj
    obtain ⟨part, hpart, rfl⟩ := List.mem_map.mp hj
    obtain ⟨j', hj', -⟩ := hparts part hpart
    exact ⟨j', hj'⟩
  obtain ⟨js, hjs, hall⟩ := converts_list hconverts
  exact ⟨js, hjs, List.forall₂_map_left_iff.mp hall⟩

theorem translateKeywords_tuple {items : Json} (hitems : entries.lookup "prefixItems" = some items)
    (hnone : ∀ k ∈ ["const", "exclusiveMinimum", "exclusiveMaximum"], entries.lookup k = none) :
    translateKeywords entries =
      assign "additionalItems" (Json.bool false) (assign "items" items entries) := by
  have hconst : translateConst entries = entries := by
    unfold translateConst
    rw [hnone "const" (by decide)]
  have htuple : translatePrefixItems entries =
      assign "additionalItems" (Json.bool false) (assign "items" items entries) := by
    unfold translatePrefixItems
    rw [hitems]
  have hbound {bound limit : String} (hbound : bound ∈ ["exclusiveMinimum", "exclusiveMaximum"]) :
      translateBound bound limit
          (assign "additionalItems" (Json.bool false) (assign "items" items entries)) =
        assign "additionalItems" (Json.bool false) (assign "items" items entries) := by
    refine translateBound_none ?_
    have hne : bound ≠ "additionalItems" ∧ bound ≠ "items" := by
      obtain rfl | rfl := List.mem_pair.mp hbound <;> exact ⟨by decide, by decide⟩
    rw [lookup_assign, if_neg hne.1, lookup_assign, if_neg hne.2]
    exact hnone bound (List.mem_cons_of_mem _ hbound)
  unfold translateKeywords
  rw [hconst, htuple, hbound (by decide), hbound (by decide)]

theorem takes_tuple {parts : List (FieldType × Json × (PyValue → Prop))}
    (hids : FieldType.holdsIdsIn (parts.map Prod.fst) = false)
    (elements : ∀ part ∈ parts, Takes definitions part.1 part.2.1 part.2.2)
    (type_eq : entries.lookup "type" = some (Json.text "array"))
    (items_eq : entries.lookup "prefixItems" = some (.list (parts.map fun part => part.2.1)))
    (only : ∀ entry ∈ entries, IsRemark entry ∨ entry = ("type", Json.text "array") ∨
      entry = ("prefixItems", .list (parts.map fun part => part.2.1)) ∨ IsSize entry) :
    Takes definitions (.generic .tuple (parts.map Prod.fst)) (.document entries) fun v =>
      ∃ items, v = .sequence .tuple items ∧
        List.Forall₂ (fun part item => part.2.2 item) parts items ∧
        ∀ entry ∈ entries, MeetsSize entry items.length := by
  obtain ⟨js, hjs, hall⟩ := exists_converts_parts elements
  -- no other keyword of an array stands in the schema
  have hnone {k : String} (hsize : k ∉ ["minItems", "maxItems"]) (hremark : k ∉ remarks)
      (htype : "type" ≠ k) (htuple : "prefixItems" ≠ k) : entries.lookup k = none := by
    refine lookup_none_of_ne fun entry hentry => ?_
    obtain h | rfl | rfl | h := only entry hentry
    · exact fun heq => hremark (heq ▸ h.mem)
    · exact htype
    · exact htuple
    · exact fun heq => hsize (heq ▸ h.1)
  have htranslate := translateKeywords_tuple items_eq (by
    simp only [List.forall_mem_cons]
    exact ⟨hnone (by decide) (by decide) (by decide) (by decide),
      hnone (by decide) (by decide) (by decide) (by decide),
      hnone (by decide) (by decide) (by decide) (by decide), nofun⟩)
  have href : entries.lookup "$ref" = none :=
    hnone (by decide) (by decide) (by decide) (by decide)
  have hname : (assign "additionalItems" (Json.bool false)
      (assign "items" (.list (parts.map fun part => part.2.1)) entries)).lookup "type" =
        some (Json.text "array") := by
    rw [lookup_assign, if_neg (by decide), lookup_assign, if_neg (by decide), type_eq]
  have hmap := mapToBsonType_type hname (fun h => absurd h (by decide))
    (fun h => absurd h (by decide)) rfl
  rw [← htranslate] at hmap
  have hitems : ConvertsKeyword definitions ("items", .list (parts.map fun part => part.2.1))
      ("items", .list js) := convertsKeyword_of "items" (by decide) hjs
  refine takes_of_mapped (resolveRef_none href) hmap (P := fun b => ∃ bs, b = .list bs ∧
      List.Forall₂ (fun j b => bsonDialect.accepts j b = true) js bs ∧
      ∀ entry ∈ entries, MeetsSize entry bs.length) ?_ fun entry hentry hcontains => ?_
  · rintro v ⟨items, rfl, hvalid, hsizes⟩
    have hparts : ∀ part ∈ parts, part.1.holdsIds = false := fun part hpart =>
      holdsIds_of_mem hids (List.mem_map_of_mem hpart)
    have hwhole : FieldType.holdsIds (.generic .tuple (parts.map Prod.fst)) = false := hids
    obtain ⟨bs, hbs, haccepts⟩ := exists_tuple hparts elements hall hvalid
    refine ⟨.list bs, ?_, bs, rfl, haccepts, ?_⟩
    · rw [convertField_eq hwhole, convertToBson, convertItems_eq, hbs]
      rfl
    · rw [← haccepts.length_eq, ← hall.length_eq, hvalid.length_eq]
      exact hsizes
  -- the length that is looked at is that of the parts
  have hlength {out : Entries} (hout : List.Forall₂ (ConvertsKeyword definitions)
      ((assign "bsonType" (Json.text "array") (translateKeywords entries)).filter fun entry =>
        mongoKeywords.contains entry.1) out) : Dialect.tupleLength out = some js.length := by
    rw [htranslate] at hout
    unfold Dialect.tupleLength
    obtain ⟨hno, -⟩ | ⟨k, k', hk, hk', hconverts⟩ := lookup_out hout
      (show mongoKeywords.contains "items" = true by decide) (by decide)
    · rw [lookup_assign, if_neg (by decide), lookup_assign, if_pos rfl] at hno
      cases hno
    · rw [lookup_assign, if_neg (by decide), lookup_assign, if_pos rfl] at hk
      obtain rfl := Option.some.inj hk
      obtain rfl : k' = .list js := congrArg Prod.snd (hconverts.unique hitems)
      rw [hk']
  obtain rfl | ⟨hentry, -⟩ := mem_assign hentry
  · refine ⟨_, convertsKeyword_of "bsonType" (by decide) (converts_scalar _), ?_⟩
    rintro out - _ ⟨bs, rfl, -⟩
    exact accepts_bsonType rfl
  rw [htranslate] at hentry
  obtain rfl | ⟨hentry, -⟩ := mem_assign hentry
  · refine ⟨_, convertsKeyword_of "additionalItems" (by decide) (converts_scalar _), ?_⟩
    rintro out hout _ ⟨bs, rfl, haccepts, -⟩
    exact accepts_additionalItems ((hlength hout).trans (congrArg some haccepts.length_eq))
  obtain rfl | ⟨hentry, -⟩ := mem_assign hentry
  · refine ⟨_, hitems, ?_⟩
    rintro out hout _ ⟨bs, rfl, haccepts, -⟩
    exact accepts_tuple (hlength hout) haccepts
  obtain hremark | rfl | rfl | hsize := only entry hentry
  · obtain ⟨entry', hentry', haccepts⟩ := converts_remark hremark hcontains
    exact ⟨entry', hentry', fun out _ b _ => haccepts out b⟩
  · exact absurd hcontains (by decide)
  · exact absurd hcontains (show ¬mongoKeywords.contains "prefixItems" = true by decide)
  · refine ⟨_, converts_size hsize, ?_⟩
    rintro out - _ ⟨bs, rfl, -, hsizes⟩
    exact accepts_size hsize (hsizes entry hentry)

theorem takes_dict {key : FieldType} {j : Json} {validValue : PyValue → Prop}
    (hids : FieldType.holdsIdsIn [key, a] = false) (value : Takes definitions a j validValue)
    (type_eq : entries.lookup "type" = some (Json.text "object"))
    (only : ∀ entry ∈ entries, IsRemark entry ∨ entry = ("type", Json.text "object") ∨
      entry = ("additionalProperties", j)) :
    Takes definitions (.generic .dict [key, a]) (.document entries) fun v =>
      ∃ data, v = .dict data ∧ ∀ entry ∈ data, validValue entry.2 := by
  obtain ⟨j', hj, -, htakes⟩ := value
  have ha : a.holdsIds = false := holdsIds_of_mem hids (List.mem_cons_of_mem _ List.mem_cons_self)
  have hwhole : FieldType.holdsIds (.generic .dict [key, a]) = false := hids
  refine takes_of_type type_eq (by decide) rfl (P := fun b => ∃ document, b = .document document ∧
      ∀ field ∈ document, bsonDialect.accepts j' field.2 = true) (fun entry hentry => ?_) ?_ ?_
    fun entry hentry hcontains => ?_
  · obtain hremark | rfl | rfl := only entry hentry
    · exact remark_not_translated hremark
    · exact (show "type" ∉ translated by decide)
    · exact (show "additionalProperties" ∉ translated by decide)
  · rintro b ⟨document, rfl, -⟩
    rfl
  · rintro v ⟨data, rfl, hdata⟩
    obtain ⟨document, hdocument, hall⟩ := exists_mapM (f := fun entry : String × PyValue =>
        (do return (entry.1, ← convertToBson entry.2) : Except FindError (String × Bson)))
      (q := fun _ field => bsonDialect.accepts j' field.2 = true) fun entry hentry => by
        obtain ⟨b, hb, haccepts⟩ := convertToBson_of_takes ha htakes (hdata entry hentry)
        exact ⟨(entry.1, b), by rw [hb]; rfl, haccepts⟩
    refine ⟨.document document, ?_, document, rfl, fun field hfield => ?_⟩
    · rw [convertField_eq hwhole, convertToBson, convertEntries_eq, hdocument]
      rfl
    · obtain ⟨_, -, -, haccepts⟩ := exists_of_forall₂ hall hfield
      exact haccepts
  · obtain hremark | rfl | rfl := only entry hentry
    · obtain ⟨entry', hentry', haccepts⟩ := converts_remark hremark hcontains
      exact ⟨entry', hentry', fun out _ b _ => haccepts out b⟩
    · exact absurd hcontains (by decide)
    · refine ⟨_, convertsKeyword_of "additionalProperties" (by decide) hj, ?_⟩
      rintro out - _ ⟨document, rfl, haccepts⟩
      exact accepts_additionalProperties fun field hfield => .inr (haccepts field hfield)

/-! ## Unions -/

theorem takes_union {parts : List (FieldType × Json × (PyValue → Prop))}
    (hids : FieldType.holdsIdsIn (parts.map Prod.fst) = false ∨
      FieldType.isOptional (parts.map Prod.fst) = true)
    (members : ∀ part ∈ parts, Takes definitions part.1 part.2.1 part.2.2)
    (hnone : ∀ part ∈ parts, part.1 = .noneType → ∀ v, part.2.2 v → v = .none)
    (only : ∀ entry ∈ entries, IsRemark entry ∨
      entry = ("anyOf", .list (parts.map fun part => part.2.1))) :
    Takes definitions (.generic .union (parts.map Prod.fst)) (.document entries) fun v =>
      ∃ part ∈ parts, part.2.2 v := by
  obtain ⟨js, hjs, hall⟩ := exists_converts_parts members
  have hlookup {k : String} (hremark : k ∉ remarks) (hanyOf : "anyOf" ≠ k) :
      entries.lookup k = none := by
    refine lookup_none_of_ne fun entry hentry => ?_
    obtain h | rfl := only entry hentry
    · exact fun heq => hremark (heq ▸ h.mem)
    · exact hanyOf
  have htranslate : translateKeywords entries = entries := translateKeywords_none (by
    simp only [translated, List.forall_mem_cons]
    exact ⟨hlookup (by decide) (by decide), hlookup (by decide) (by decide),
      hlookup (by decide) (by decide), hlookup (by decide) (by decide),
      hlookup (by decide) (by decide), nofun⟩)
  have hmap := mapToBsonType_none (hlookup (k := "type") (by decide) (by decide))
  refine takes_of_mapped (resolveRef_none (hlookup (by decide) (by decide)))
    ((congrArg mapToBsonType htranslate).trans hmap)
    (P := fun b => ∃ j ∈ js, bsonDialect.accepts j b = true) ?_ fun entry hentry hcontains => ?_
  · rintro v ⟨part, hpart, hv⟩
    obtain ⟨j', hj', -, htakes⟩ := members part hpart
    obtain ⟨b, hb, haccepts⟩ := htakes v hv
    have hfield : convertField (.generic .union (parts.map Prod.fst)) v = convertField part.1 v := by
      obtain hids | hoptional := hids
      · have hwhole : FieldType.holdsIds (.generic .union (parts.map Prod.fst)) = false := hids
        rw [convertField_eq hwhole, convertField_eq (holdsIds_of_mem hids (List.mem_map_of_mem hpart))]
      · exact convertField_optional hoptional (List.mem_map_of_mem hpart)
          fun heq => hnone part hpart heq v hv
    refine ⟨b, hfield.trans hb, ?_⟩
    obtain ⟨j, hj, hconverts⟩ := exists_of_forall₂ hall.flip hpart
    obtain rfl := hj'.unique hconverts
    exact ⟨j', hj, haccepts⟩
  · obtain hremark | rfl := only entry hentry
    · obtain ⟨entry', hentry', haccepts⟩ := converts_remark hremark hcontains
      exact ⟨entry', hentry', fun out _ b _ => haccepts out b⟩
    · exact ⟨_, convertsKeyword_of "anyOf" (by decide) hjs, fun out _ b hb => accepts_anyOf hb⟩

end

end Mongo

end Mss
