import Mss.JobLists
import Mss.ValidDocuments

/-!
# What is read of what MSS writes

A document is read back into the data of a record, which is then validated. A valid record's document
gives the record's own data: an id that was stored as an ObjectId is its text again, wherever it
stands, and only a datetime is changed, to the millisecond.

* `readBack`: a value as it is read; `readBack_convertToBson`: without an Id.
* **`readsBack_of_isJsonSchema`**: with Ids, by the annotation of the value.
* **`dataOf_written`**: the data that is read of a record's document.
-/

namespace Mss

open Storage

namespace Mongo

mutual

/-- **A value as it is read back**: sequences are lists, and datetimes are those of the millisecond. -/
def readBack : PyValue → Value Scalar
  | .none => .null
  | .scalar s => .scalar (storedScalar s)
  | .sequence _ items => .list (readBackItems items)
  | .dict entries => .document (readBackEntries entries)

def readBackItems : List PyValue → List (Value Scalar)
  | [] => []
  | v :: vs => readBack v :: readBackItems vs

def readBackEntries : List (String × PyValue) → List (String × Value Scalar)
  | [] => []
  | (name, v) :: entries => (name, readBack v) :: readBackEntries entries

end

theorem readBackItems_eq (vs : List PyValue) : readBackItems vs = vs.map readBack := by
  induction vs with
  | nil => rfl
  | cons v vs ih => rw [readBackItems, List.map_cons, ih]

theorem readBackEntries_eq (data : List (String × PyValue)) :
    readBackEntries data = data.map fun entry => (entry.1, readBack entry.2) := by
  induction data with
  | nil => rfl
  | cons entry data ih => rw [readBackEntries, List.map_cons, ih]

theorem convertFromItems_eq (bs : List Bson) : convertFromItems bs = bs.map convertFromBson := by
  induction bs with
  | nil => rfl
  | cons b bs ih => rw [convertFromItems, List.map_cons, ih]

/-! ## Without Ids -/

theorem readBack_encodeScalar {s : PyScalar} {b : Bson} (h : encodeScalar s = .ok b) :
    convertFromBson b = .scalar (storedScalar s) := by
  cases s with
  | int i | intEnum i =>
    unfold encodeScalar at h
    dsimp only at h
    split_ifs at h
    rw [← Except.ok.inj h]
    rfl
  | uuid | path => cases h
  | bool | float | str | datetime | strEnum =>
    rw [← Except.ok.inj h]
    rfl

mutual

/-- **What is encoded reads back.** -/
theorem readBack_convertToBson : ∀ {v : PyValue} {b : Bson}, convertToBson v = .ok b →
    convertFromBson b = readBack v
  | .none, _, h => by
    rw [← Except.ok.inj h]
    rfl
  | .scalar s, b, h => by
    cases s with
    | uuid text | path text =>
      rw [← Except.ok.inj h]
      rfl
    | bool | int | float | str | datetime | intEnum | strEnum =>
      exact readBack_encodeScalar h
  | .sequence _ items, b, h => by
    rw [convertToBson] at h
    obtain ⟨bs, hbs, h⟩ := bind_ok h
    rw [← Except.ok.inj h, convertFromBson, readBack, readBack_convertItems hbs]
  | .dict entries, b, h => by
    rw [convertToBson] at h
    obtain ⟨document, hdocument, h⟩ := bind_ok h
    rw [← Except.ok.inj h, convertFromBson, readBack, readBack_convertEntries hdocument]

theorem readBack_convertItems : ∀ {vs : List PyValue} {bs : List Bson}, convertItems vs = .ok bs →
    convertFromItems bs = readBackItems vs
  | [], _, h => by
    rw [← Except.ok.inj h]
    rfl
  | v :: vs, bs, h => by
    rw [convertItems] at h
    obtain ⟨b, hb, h⟩ := bind_ok h
    obtain ⟨bs', hbs', h⟩ := bind_ok h
    rw [← Except.ok.inj h, convertFromItems, readBackItems, readBack_convertToBson hb,
      readBack_convertItems hbs']

theorem readBack_convertEntries : ∀ {entries : List (String × PyValue)} {document : Document},
    convertEntries entries = .ok document → convertFromFields document = readBackEntries entries
  | [], _, h => by
    rw [← Except.ok.inj h]
    rfl
  | (name, v) :: entries, document, h => by
    rw [convertEntries] at h
    obtain ⟨b, hb, h⟩ := bind_ok h
    obtain ⟨document', hdocument', h⟩ := bind_ok h
    rw [← Except.ok.inj h, convertFromFields, readBackEntries, readBack_convertToBson hb,
      readBack_convertEntries hdocument']

end

/-! ## With Ids -/

/-- The values that are valid for an annotation read back from what they are converted to. -/
def ReadsBack (a : FieldType) (valid : PyValue → Prop) : Prop :=
  ∀ v, valid v → ∀ b, convertField a v = .ok b → convertFromBson b = readBack v

section

variable {definitions : Entries} {a : FieldType} {j : Json} {valid : PyValue → Prop}

theorem readsBack_of_holdsIds (h : a.holdsIds = false) : ReadsBack a valid := by
  intro v _ b hb
  rw [convertField_eq h] at hb
  exact readBack_convertToBson hb

theorem readsBack_id : ReadsBack (.scalar .id) fun v => ∃ s, v = .scalar s ∧ IsScalarOf .id s := by
  rintro v ⟨s, rfl, hs⟩ b hb
  cases s with
  | str text =>
    rw [convertField_scalar hs trivial] at hb
    rw [← Except.ok.inj hb]
    rfl
  | bool | int | float | datetime | intEnum | strEnum | uuid | path => exact hs.elim

theorem readBack_mapM {items : List PyValue} {bs : List Bson} (h : ReadsBack a valid)
    (hitems : ∀ item ∈ items, valid item) (hbs : items.mapM (convertField a) = .ok bs) :
    bs.map convertFromBson = items.map readBack := by
  induction items generalizing bs with
  | nil =>
    rw [← Except.ok.inj hbs]
    rfl
  | cons item items ih =>
    rw [List.mapM_cons] at hbs
    obtain ⟨b, hb, hbs⟩ := bind_ok hbs
    obtain ⟨bs', hbs', hbs⟩ := bind_ok hbs
    rw [← Except.ok.inj hbs, List.map_cons, List.map_cons, h item (hitems item List.mem_cons_self) b hb,
      ih (fun item hitem => hitems item (List.mem_cons_of_mem _ hitem)) hbs']

theorem readsBack_list {a : FieldType} {valid : PyValue → Prop} (h : ReadsBack a valid)
    {validList : PyValue → Prop}
    (hvalid : ∀ v, validList v → ∃ items, v = .sequence .list items ∧ ∀ item ∈ items, valid item) :
    ReadsBack (.generic .list [a]) validList := by
  intro v hv b hb
  obtain ⟨items, rfl, hitems⟩ := hvalid v hv
  rw [convertField_list] at hb
  obtain ⟨bs, hbs, hb⟩ := bind_ok hb
  rw [← Except.ok.inj hb, convertFromBson, readBack, convertFromItems_eq, readBackItems_eq,
    readBack_mapM h hitems hbs]

theorem readsBack_set {type : ScalarType} {valid : PyValue → Prop}
    (h : ReadsBack (.scalar type) valid) {validSet : PyValue → Prop}
    (hvalid : ∀ v, validSet v → ∃ items, v = .sequence .set items ∧ ∀ item ∈ items, valid item) :
    ReadsBack (.generic .set [.scalar type]) validSet := by
  intro v hv b hb
  obtain ⟨items, rfl, hitems⟩ := hvalid v hv
  rw [convertField_set] at hb
  obtain ⟨bs, hbs, hb⟩ := bind_ok hb
  rw [← Except.ok.inj hb, convertFromBson, readBack, convertFromItems_eq, readBackItems_eq,
    readBack_mapM h hitems hbs]

theorem readBack_entries {fields : Fields} {data : List (String × PyValue)} {document : Document}
    (h : ∀ entry ∈ data, ∀ a, fields.lookup entry.1 = some a → ∀ b, convertField a entry.2 = .ok b →
      convertFromBson b = readBack entry.2)
    (hdocument : convertToDocumentValues fields data = .ok document) :
    convertFromFields document = readBackEntries data := by
  rw [convertToDocumentValues_eq] at hdocument
  induction data generalizing document with
  | nil =>
    rw [← Except.ok.inj hdocument]
    rfl
  | cons entry data ih =>
    rw [List.mapM_cons] at hdocument
    obtain ⟨field, hfield, hdocument⟩ := bind_ok hdocument
    obtain ⟨document', hdocument', hdocument⟩ := bind_ok hdocument
    obtain ⟨b, hb, hfield⟩ := bind_ok hfield
    have hread : convertFromBson b = readBack entry.2 := by
      cases ha : fields.lookup entry.1 with
      | none =>
        rw [ha] at hb
        exact readBack_convertToBson hb
      | some a =>
        rw [ha] at hb
        exact h entry List.mem_cons_self a ha b hb
    rw [← Except.ok.inj hdocument, ← Except.ok.inj hfield, convertFromFields, readBackEntries, hread,
      ih (fun entry hentry => h entry (List.mem_cons_of_mem _ hentry)) hdocument']

/-- **The valid values of every annotation read back**, if the store finds the Ids. -/
theorem readsBack_of_isJsonSchema (h : IsJsonSchema definitions a j valid)
    (hkeeps : a.keepsIds = true) : ReadsBack a valid := by
  induction h with
  | @scalar type _ notId =>
    have hids : (FieldType.scalar type).holdsIds = false := beq_false_of_ne notId
    exact readsBack_of_holdsIds hids
  | datetime | any | anything | noneType => exact readsBack_of_holdsIds rfl
  | id => exact readsBack_id
  | list _ _ _ _ ih =>
    refine readsBack_list (ih (FieldType.keepsIds_of_mem hkeeps List.mem_cons_self)) ?_
    rintro v ⟨items, hv, hitems, -⟩
    exact ⟨items, hv, hitems⟩
  | set _ _ _ _ _ ih =>
    refine readsBack_set (ih rfl) ?_
    rintro v ⟨items, hv, -, hitems, -⟩
    exact ⟨items, hv, fun item hitem => (hitems item hitem).1⟩
  | @tuple parts =>
    have hids : FieldType.holdsIdsIn (parts.map Prod.fst) = false := by
      simpa [FieldType.keepsIds] using hkeeps
    exact readsBack_of_holdsIds hids
  | @dict key a =>
    have hids : FieldType.holdsIdsIn [key, a] = false := by
      simpa [FieldType.keepsIds] using hkeeps
    exact readsBack_of_holdsIds hids
  | @union parts _ members _ _ ih =>
    rw [FieldType.keepsIds, Bool.or_eq_true, Bool.not_eq_true', Bool.and_eq_true] at hkeeps
    obtain hids | ⟨hoptional, hkeeps⟩ := hkeeps
    · have hwhole : FieldType.holdsIds (.generic .union (parts.map Prod.fst)) = false := hids
      exact readsBack_of_holdsIds hwhole
    · rintro v ⟨part, hpart, hv⟩ b hb
      rw [convertField_optional hoptional (List.mem_map_of_mem hpart)
        fun heq => eq_none_of_isJsonSchema (members part hpart) heq hv] at hb
      exact ih part hpart (FieldType.keepsIds_of_mem hkeeps (List.mem_map_of_mem hpart)) v hv b hb
  | @model _ fields _ _ _ _ _ ih =>
    rintro v ⟨data, rfl, hdata⟩ b hb
    have hb : convertNestedValue fields (.dict data) = .ok b := hb
    rw [convertNestedValue] at hb
    obtain ⟨document, hdocument, hb⟩ := bind_ok hb
    rw [← Except.ok.inj hb, convertFromBson, readBack, readBack_entries ?_ hdocument]
    intro entry hentry a ha b hb
    obtain ⟨v, hv, hvalid⟩ := hdata.field _ (mem_of_lookup ha)
    have hentry : data.lookup entry.1 = some entry.2 := lookup_of_mem hdata.names hentry
    obtain rfl := Option.some.inj (hentry.symm.trans hv)
    exact ih _ (mem_of_lookup ha) (FieldType.keepsIds_of_field hkeeps (mem_of_lookup ha)) _ hvalid b hb
  | ref _ _ _ ih => exact ih hkeeps

end

/-! ## Records -/

/-- **The data of a record as it is read**: the record's own, with the key that its document was given
if it had no id. -/
def readData (schema : Schema) (newId : String) (record : Record) : List (String × Value Scalar) :=
  let others := (record.filter fun entry => entry.1 != "id").map fun entry =>
    (entry.1, readBack entry.2)
  if (schema.declared "id").isSome then
    others ++ [("id", if (record.get "id").isNone then .scalar (.text newId)
      else readBack (record.get "id"))]
  else others

section

variable {schema : Schema} {record : Record} {converted : Document}

theorem get_converted (h : convertFromFields converted = readBackEntries record) (name : String) :
    convertFromBson (Value.get name converted) = readBack (record.get name) := by
  have hlookup : (convertFromFields converted).lookup name = (readBackEntries record).lookup name := by
    rw [h]
  rw [MongoStore.convertFromFields_eq, readBackEntries_eq, lookup_map fun _ => convertFromBson,
    lookup_map fun _ => readBack] at hlookup
  unfold Value.get Record.get
  cases hb : converted.lookup name with
  | none =>
    rw [hb] at hlookup
    cases hv : record.lookup name with
    | none => rfl
    | some v =>
      rw [hv] at hlookup
      cases hlookup
  | some b =>
    rw [hb] at hlookup
    cases hv : record.lookup name with
    | none =>
      rw [hv] at hlookup
      cases hlookup
    | some v =>
      rw [hv] at hlookup
      exact Option.some.inj hlookup

theorem isNone_iff (v : PyValue) : v.isNone = true ↔ readBack v = .null := by
  cases v <;> simp [PyValue.isNone, readBack]

theorem convertFromBson_null {b : Bson} (h : convertFromBson b = .null) : b = .null := by
  cases b with
  | null => rfl
  | scalar s => cases s <;> cases h
  | list | document => cases h

theorem others_read (h : convertFromFields converted = readBackEntries record) :
    convertFromFields (converted.filter fun field => field.1 != "id") =
      (record.filter fun entry => entry.1 != "id").map fun entry => (entry.1, readBack entry.2) := by
  rw [MongoStore.convertFromFields_eq, readBackEntries_eq] at h
  have hfilter := congrArg (List.filter fun field => field.1 != "id") h
  rw [List.filter_map, List.filter_map] at hfilter
  rw [MongoStore.convertFromFields_eq]
  exact hfilter

/-- **What is read of a record's document** is the data of the record. -/
theorem dataOf_written (h : convertFromFields converted = readBackEntries record)
    (hno : converted.lookup keyField = none) {newId : String} {key : Bson}
    (hkey : Value.get "id" converted = .null ∧ key = .scalar (.objectId newId) ∨
      converted.lookup "id" = some key ∧ key ≠ .null) :
    dataOf schema ((converted.filter fun field => field.1 != "id") ++ [(keyField, key)]) =
      readData schema newId record := by
  have hget := get_converted h "id"
  have hlast : convertFromBson key = if (record.get "id").isNone then .scalar (.text newId)
      else readBack (record.get "id") := by
    obtain ⟨hnull, rfl⟩ | ⟨hlookup, hne⟩ := hkey
    · rw [hnull] at hget
      rw [if_pos ((isNone_iff _).mpr hget.symm)]
      rfl
    · rw [Value.get, hlookup, Option.getD_some] at hget
      rw [if_neg fun hnone => hne (convertFromBson_null (hget.trans ((isNone_iff _).mp hnone))), hget]
  have hothers : (converted.filter fun field => field.1 != "id").lookup keyField = none := by
    rw [lookup_filter (fun k => k != "id"), if_pos (by decide), hno]
  have hread : convertFromFields ((converted.filter fun field => field.1 != "id") ++ [(keyField, key)]) =
      ((record.filter fun entry => entry.1 != "id").map fun entry => (entry.1, readBack entry.2)) ++
        [(keyField, convertFromBson key)] := by
    rw [← others_read h, MongoStore.convertFromFields_eq, MongoStore.convertFromFields_eq,
      List.map_append]
    rfl
  generalize hL : (record.filter fun entry => entry.1 != "id").map
    (fun entry => (entry.1, readBack entry.2)) = others at hread
  have hkeyField : others.lookup keyField = none := by
    rw [← hL, ← others_read h, MongoStore.convertFromFields_eq, lookup_map fun _ => convertFromBson,
      hothers]
    rfl
  have hid : others.lookup "id" = none := by
    rw [← hL, lookup_map fun _ => readBack, lookup_filter (fun k => k != "id"), if_neg (by decide)]
    rfl
  have hfields : (others ++ [(keyField, convertFromBson key)]).filter (fun field => field.1 != keyField) =
      others := by
    rw [List.filter_append, filter_eq_self_of_lookup hkeyField]
    simp
  have hgetKey : Value.get keyField (others ++ [(keyField, convertFromBson key)]) =
      convertFromBson key := by
    rw [Value.get, List.lookup_append, hkeyField]
    simp
  unfold dataOf readData
  dsimp only
  rw [hread, hfields, hgetKey, hL, filter_eq_self_of_lookup hid, hlast]

end

/-- **A record reads back from MongoDB as it was written**: for each valid record of a schema, what is
validated of its stored document is the record's own data, datetimes to the millisecond, with the key
that the document was given if the record had no id. -/
theorem convertToRecord_written {definitions : Entries} {schema : Schema} {schemas : String → Json}
    {validField : String → PyValue → Prop}
    (members : ∀ field ∈ schema.fields,
      IsJsonSchema definitions field.2 (schemas field.1) (validField field.1))
    (hkeeps : FieldType.keepsIdsFields schema.fields = true) {record : Record}
    (hrecord : IsRecordData schema validField record) {R : Type}
    (validate : Value Scalar → Except ValidationError R) (newId : String) :
    ∃ document, convertToDocument schema record = .ok document ∧
      convertToRecord validate schema (withKey newId document) =
        validate (.document (readData schema newId record)) := by
  obtain ⟨properties, -, hall⟩ := exists_properties fun field hfield =>
    takes_of_isJsonSchema (members field hfield) (FieldType.keepsIds_of_field hkeeps hfield)
  obtain ⟨converted, hconverted, hstored⟩ := exists_storedFields hall hrecord
  have hno := lookup_key_stored hrecord hstored
  obtain ⟨document, key, hdocument, hwritten, hkey⟩ := exists_written hconverted hno newId
  refine ⟨document, hdocument, ?_⟩
  have hread : convertFromFields converted = readBackEntries record := by
    refine readBack_entries (fun entry hentry a ha b hb => ?_) hconverted
    by_cases hnone : entry.2 = .none
    · rw [hnone, convertField_none] at hb
      rw [hnone, ← Except.ok.inj hb]
      rfl
    have hvalid := valid_of_record hrecord hentry (fun heq => hnone (congrArg Prod.snd heq)) ha
    exact readsBack_of_isJsonSchema (members _ (mem_of_lookup ha))
      (FieldType.keepsIds_of_field hkeeps (mem_of_lookup ha)) _ hvalid b hb
  rw [convertToRecord, hwritten, dataOf_written hread hno hkey]

theorem convertToRecord_written_optedOut :
    ∃ document, convertToDocument preferencesSchema optedOut = .ok document ∧
      convertToRecord .ok preferencesSchema (withKey optedOutId document) =
        .ok (.document (readData preferencesSchema optedOutId optedOut)) :=
  convertToRecord_written isJsonSchema_preferences (by decide) isRecordData_optedOut .ok optedOutId

end Mongo

end Mss
