import Mss.JobLists

/-!
# Windows of time

Jobs of a window are counted by the texts of when they were created. The text of a whole second has
no fraction, and comes after those of the rest of its second.

* `datetimeToZulu_lt_iff_before`: where the texts are in the order of time.
* `IsSplit`: an instant that the texts put on the wrong side of a window's bounds.
* **`countsByTime_iff`**: a window counts the jobs created in it exactly where no instant is split.
-/

namespace Mss

open Storage

/-! ## The order of the texts -/

theorem datetimeToZulu_lt_of_starts {a b : Instant} (h : a.StartsSecondOf b) :
    datetimeToZulu a < datetimeToZulu b ↔ ¬ a.Before b := by
  obtain ⟨hclock, hwhole⟩ := h
  have hfields : ¬ b.toClock.fields < b.toClock.fields := List.lt_irrefl _
  rw [datetimeToZulu_lt_iff, Instant.Before]
  simp only [hclock, hfields, false_or, true_and]
  unfold Instant.IsWhole at hwhole ⊢
  omega

theorem datetimeToZulu_lt_of_not_starts {a b : Instant} (h : ¬ a.StartsSecondOf b) :
    datetimeToZulu a < datetimeToZulu b ↔ a.Before b := by
  rw [datetimeToZulu_lt_iff, Instant.Before]
  refine or_congr_right (and_congr_right fun hclock => ?_)
  unfold Instant.StartsSecondOf at h
  have hwhole : ¬ (a.IsWhole ↔ ¬ b.IsWhole) := fun hstarts => h ⟨hclock, hstarts⟩
  unfold Instant.IsWhole at hwhole ⊢
  omega

/-- **Texts are in the order of time** exactly where neither instant starts the other's second. -/
theorem datetimeToZulu_lt_iff_before (a b : Instant) :
    (datetimeToZulu a < datetimeToZulu b ↔ a.Before b) ↔ ¬ a.StartsSecondOf b := by
  constructor
  · intro h hstarts
    have hnot := datetimeToZulu_lt_of_starts hstarts
    exact iff_not_self (h.symm.trans hnot)
  · exact datetimeToZulu_lt_of_not_starts

/-! ## Windows -/

/-- An instant is in the window of a start and an end. -/
def IsWithin (start end_ t : Instant) : Prop := ¬ t.Before start ∧ t.Before end_

instance (start end_ t : Instant) : Decidable (IsWithin start end_ t) := by
  unfold IsWithin
  infer_instance

/-- The text of an instant is in the window of texts. -/
def IsTextWithin (start end_ t : Instant) : Prop :=
  ¬ datetimeToZulu t < datetimeToZulu start ∧ datetimeToZulu t < datetimeToZulu end_

instance (start end_ t : Instant) : Decidable (IsTextWithin start end_ t) := by
  unfold IsTextWithin
  infer_instance

/-- **The texts put an instant on the wrong side**: of the start alone, while it comes before the end,
or of the end alone, while it does not come before the start. -/
def IsSplit (start end_ t : Instant) : Prop :=
  t.StartsSecondOf start ∧ ¬ t.StartsSecondOf end_ ∧ t.Before end_ ∨
    t.StartsSecondOf end_ ∧ ¬ t.StartsSecondOf start ∧ ¬ t.Before start

instance (start end_ t : Instant) : Decidable (IsSplit start end_ t) := by
  unfold IsSplit
  infer_instance

theorem before_iff_of_starts {start end_ t : Instant} (hstart : t.StartsSecondOf start)
    (hend : t.StartsSecondOf end_) : t.Before start ↔ t.Before end_ := by
  obtain ⟨hclock, hwhole⟩ := hstart
  obtain ⟨hclock', hwhole'⟩ := hend
  have hfields : ¬ t.toClock.fields < t.toClock.fields := List.lt_irrefl _
  rw [Instant.Before, Instant.Before, ← hclock, ← hclock']
  simp only [hfields, false_or, true_and]
  unfold Instant.IsWhole at hwhole hwhole'
  omega

/-- **An instant is in a window exactly where its text is**, unless it is split. -/
theorem isTextWithin_iff (start end_ t : Instant) :
    (IsTextWithin start end_ t ↔ IsWithin start end_ t) ↔ ¬ IsSplit start end_ t := by
  unfold IsTextWithin IsWithin IsSplit
  by_cases hstart : t.StartsSecondOf start
  · rw [datetimeToZulu_lt_of_starts hstart]
    by_cases hend : t.StartsSecondOf end_
    · rw [datetimeToZulu_lt_of_starts hend]
      have hboth := before_iff_of_starts hstart hend
      tauto
    · rw [datetimeToZulu_lt_of_not_starts hend]
      tauto
  · rw [datetimeToZulu_lt_of_not_starts hstart]
    by_cases hend : t.StartsSecondOf end_
    · rw [datetimeToZulu_lt_of_starts hend]
      tauto
    · rw [datetimeToZulu_lt_of_not_starts hend]
      tauto

/-! ## Counting -/

/-- **A window counts these of the stored jobs**: each once, or each of their submitters. -/
structure Counts {D : Type} (jobs : Reads Job) (start end_ : Instant) (submitter : D → Option Id)
    (counted : List D) : Prop where
  all : countJobSubmitters jobs start end_ false = .ok counted.length
  distinct : countJobSubmitters jobs start end_ true =
    .ok (counted.filterMap submitter).dedup.length

theorem length_known {values : List (Value Scalar)} {ids : List Id} (hnodup : values.Nodup)
    (hmem : ∀ v, v ≠ .null → (v ∈ values ↔ ∃ id ∈ ids, v = .scalar (.text id))) :
    (values.filter fun v => !isNullValue v).length = ids.dedup.length := by
  have hids : (ids.dedup.map fun id => Value.scalar (Scalar.text id)).Nodup :=
    (List.nodup_dedup ids).map fun a b hab => Scalar.text.inj (Value.scalar.inj hab)
  have hperm : (values.filter fun v => !isNullValue v).Perm
      (ids.dedup.map fun id => Value.scalar (Scalar.text id)) := by
    refine (List.perm_ext_iff_of_nodup (hnodup.filter _) hids).mpr fun v => ?_
    rw [List.mem_filter, List.mem_map, Bool.not_eq_true', ← Bool.not_eq_true, isNullValue_iff]
    simp only [List.mem_dedup]
    constructor
    · rintro ⟨hv, hnull⟩
      obtain ⟨id, hid, rfl⟩ := (hmem v hnull).mp hv
      exact ⟨id, hid, rfl⟩
    · rintro ⟨id, hid, rfl⟩
      have hnull : Value.scalar (Scalar.text id) ≠ .null := by simp
      exact ⟨(hmem _ hnull).mpr ⟨id, hid, rfl⟩, hnull⟩
  rw [hperm.length_eq, List.length_map]

/-- The bounds of a window, as its filter has them. -/
def windowCondition (start end_ : Instant) : PyValue :=
  .dict [("$gte", .scalar (.str (datetimeToZulu start))),
    ("$lt", .scalar (.str (datetimeToZulu end_)))]

theorem isOperatorMap_window (start end_ : Instant) :
    isOperatorMap (windowCondition start end_) = true := by
  have hgte : isOperatorName "$gte" = true := by decide
  simp [windowCondition, isOperatorMap, hgte]

theorem operatorsOf_window (start end_ : Instant) : operatorsOf (windowCondition start end_) =
    [("$gte", .scalar (.str (datetimeToZulu start))),
      ("$lt", .scalar (.str (datetimeToZulu end_)))] :=
  if_pos (isOperatorMap_window start end_)

theorem checkFilter_window (start end_ : Instant) :
    checkFilter jobSchema (windowFilter start end_) = .ok () := by
  have hname : isOperatorName "created_at" = false := by decide
  have hgte : FieldOperator.ofName "$gte" = some .gte := by decide
  have hlt : FieldOperator.ofName "$lt" = some .lt := by decide
  have hfield : resolveField jobSchema "created_at" = .ok (some (optional (.scalar .str))) :=
    resolveField_declared rfl
  have hmodel : isModelList (some (optional (.scalar .str))) = false := by decide
  have hkey : ∀ name ∈ ["$gte", "$lt"], (name == elementMatch) = false ∧
      (name == "$regex") = false ∧ (name == "$options") = false := by decide
  have hmap := isOperatorMap_window start end_
  unfold windowCondition at hmap
  rw [windowFilter, checkFilter, checkEntry, checkField, hfield, hmap]
  simp [hname, hmodel, hasKey, hkey, checkCondition, hmap, checkOperator, hgte, hlt, bind,
    Except.bind, checkFilter, pure, Except.pure]

theorem counts_reads {D : Type} {store : Reads Job} {start end_ : Instant}
    {submitter : D → Option Id} {counted : List D} (values : List (Value Scalar))
    (hcount : store.count (windowFilter start end_) = .ok counted.length)
    (hdistinct : store.findDistinct "user_id" (windowFilter start end_) = .ok values)
    (hnodup : values.Nodup) (hmem : ∀ v, v ≠ .null →
      (v ∈ values ↔ ∃ id ∈ counted.filterMap submitter, v = .scalar (.text id))) :
    Counts (Database.reads jobSchema store) start end_ submitter counted where
  all := by
    change (checkRead jobSchema (windowFilter start end_) >>= fun _ =>
      store.count (windowFilter start end_)) = _
    rw [checkRead, checkFilter_window]
    exact hcount
  distinct := by
    have hfield : resolveField jobSchema "user_id" = .ok (some (optional (.scalar .id))) :=
      resolveField_declared rfl
    change ((checkRead jobSchema (windowFilter start end_) >>= fun _ =>
      (resolveField jobSchema "user_id").mapError FindError.refused >>= fun _ =>
        store.findDistinct "user_id" (windowFilter start end_)).map
          fun values => (values.filter fun v => !isNullValue v).length) = _
    rw [checkRead, checkFilter_window, hfield]
    change (store.findDistinct "user_id" (windowFilter start end_)).map _ = _
    rw [hdistinct]
    exact congrArg Except.ok (length_known hnodup hmem)

/-! ## SQL -/

namespace SqlStore

variable {lower : String → String} {database : SqlDatabase} {text : TextOrder}
  {plan : SqlPlan text} {validate : Value Scalar → Except ValidationError Job} {now : ℤ}
  {references : References} (s : SqlTables database references jobTables) {start end_ : Instant}

/-- The submitter of a row's job. -/
def submitterOf (row : Row) : Option Id := textAt (row "user_id")

theorem sent_window (dialect : SqlDialect) (start end_ : Instant) :
    (∀ entry ∈ operatorsOf (windowCondition start end_), isChecked entry) ∧
      hasOwnOperands .string (windowCondition start end_) = true ∧
      hasKeptOperands dialect (windowCondition start end_) = true := by
  have hgte : FieldOperator.ofName "$gte" = some .gte := by decide
  have hlt : FieldOperator.ofName "$lt" = some .lt := by decide
  refine ⟨?_, ?_, ?_⟩
  · rw [operatorsOf_window]
    simp [isChecked, hgte, hlt]
  · rw [hasOwnOperands, operatorsOf_window]
    simp [hasOwnOperand, hgte, hlt, isOwn, PyValue.isNone, PyScalar.kind, PyScalar.toScalar,
      Scalar.kind]
  · rw [hasKeptOperands, operatorsOf_window]
    simp [hasKeptOperand, hgte, hlt, isKept, PyValue.isBool]

theorem isMatchedBy_window {row : Row} (hrow : row ∈ s.rows) {t : Instant}
    (ht : row "created_at" = .scalar (.text (datetimeToZulu t))) :
    isMatchedBy lower database now s.stored.toStoredRows (windowFilter start end_) row = true ↔
      IsTextWithin start end_ t := by
  have hgte : FieldOperator.ofName "$gte" = some .gte := by decide
  have hlt : FieldOperator.ofName "$lt" = some .lt := by decide
  obtain ⟨hchecked, hown, hkept⟩ := sent_window database.dialect start end_
  have hfilter : windowFilter start end_ = [.field "created_at" (windowCondition start end_)] := rfl
  rw [hfilter, isMatchedBy_column (isJobColumn_text "created_at" (by decide)) hchecked hown hkept
    hrow, ConditionMatches, operatorsOf_window, ht, IsTextWithin]
  simp [OperatorMatches, hgte, hlt, Compares, PyScalar.kind, PyScalar.toScalar, Scalar.kind,
    Scalar.lt]

theorem userId_text {row : Row} (hrow : row ∈ s.rows) (hnull : row "user_id" ≠ .null) :
    ∃ userId, row "user_id" = .scalar (.text userId) := by
  have hcolumn := isJobColumn_text "user_id" (by decide)
  have hfits : Fits .string (row "user_id") :=
    s.stored.typed row hrow ("user_id", .string) (mem_of_lookup hcolumn.lookup)
  obtain hx | ⟨a, hx, hkind⟩ := hfits.cases hcolumn.scalar
  · exact absurd hx hnull
  · cases a with
    | text userId => exact ⟨userId, hx⟩
    | _ => cases hkind

theorem eq_of_textAt {x : Value Scalar} {t : String} (h : textAt x = some t) :
    x = .scalar (.text t) := by
  cases x with
  | scalar a =>
    cases a with
    | text u =>
      cases h
      rfl
    | _ => cases h
  | _ => cases h

theorem counts_window (instant : Row → Instant) (hwritten : ∀ row ∈ s.rows,
    row "created_at" = .scalar (.text (datetimeToZulu (instant row)))) :
    Counts (jobReads lower database plan validate now s.stored.toStoredRows) start end_ submitterOf
      (s.rows.filter fun row => IsTextWithin start end_ (instant row)) := by
  obtain ⟨hchecked, hown, hkept⟩ := sent_window database.dialect start end_
  obtain ⟨clause, hclause, -⟩ := translateFilter_column lower database now
    (isJobColumn_text "created_at" (by decide)) hchecked hown hkept
  have hmatched : matchedRows database s.stored.toStoredRows clause =
      s.rows.filter fun row => IsTextWithin start end_ (instant row) := by
    rw [matchedRows_eq hclause]
    refine List.filter_congr fun row hrow => Bool.eq_iff_iff.mpr ?_
    rw [decide_eq_true_eq]
    exact isMatchedBy_window s hrow (hwritten row hrow)
  have hfilter : windowFilter start end_ = [.field "created_at" (windowCondition start end_)] := rfl
  have hlist : jobTables.listTables.lookup "user_id" = none := by
    rw [List.isEmpty_iff.mp jobTables_spec.2.1]
    rfl
  have hcolumn : jobTables.columns.lookup "user_id" = some .string :=
    (isJobColumn_text "user_id" (by decide)).lookup
  unfold jobReads
  refine counts_reads ((s.rows.filter fun row =>
    IsTextWithin start end_ (instant row)).map fun row => row "user_id").dedup ?_ ?_
    (List.nodup_dedup _) fun v hv => ?_
  · change count lower database s.stored.toStoredRows now (windowFilter start end_) = _
    unfold count
    rw [hfilter, hclause]
    exact congrArg (fun rows => Except.ok rows.length) hmatched
  · change findDistinct lower database s.stored.toStoredRows now "user_id"
      (windowFilter start end_) = _
    unfold findDistinct
    rw [hfilter, hclause, hlist, hcolumn]
    exact congrArg (fun rows => Except.ok (rows.map fun row => row "user_id").dedup) hmatched
  · rw [List.mem_dedup, List.mem_map]
    constructor
    · rintro ⟨row, hrow, rfl⟩
      obtain ⟨userId, huser⟩ := userId_text s (List.mem_filter.mp hrow).1 hv
      exact ⟨userId, List.mem_filterMap.mpr ⟨row, hrow, by rw [submitterOf, huser]; rfl⟩, huser⟩
    · rintro ⟨userId, hid, rfl⟩
      obtain ⟨row, hrow, hsubmitter⟩ := List.mem_filterMap.mp hid
      exact ⟨row, hrow, eq_of_textAt hsubmitter⟩

end SqlStore

/-! ## MongoDB -/

namespace MongoStore

open Mongo

/-- The submitter of a document's job. -/
def submitterOf (document : Document) : Option Id :=
  match Value.get "user_id" document with
  | .scalar (.objectId hex) => some hex
  | _ => none

/-- **How the server tells apart submitters**: each that the documents have, once. -/
def TellsApart (distinct : MongoDistinct) : Prop :=
  ∀ documents, (∀ document ∈ documents, IsJob document) →
    (distinct none "user_id" documents).Nodup ∧
      ∀ v, v ≠ .null → (v ∈ distinct none "user_id" documents ↔
        ∃ document ∈ documents, Value.get "user_id" document = v)

/-- The query of a window. -/
def windowQuery (start end_ : Instant) : Document :=
  [("created_at", .document [("$gte", .scalar (.value (.text (datetimeToZulu start)))),
    ("$lt", .scalar (.value (.text (datetimeToZulu end_))))])]

variable {server : MongoServer} {same : Char → Char → Bool} {fold : String → String} {now : ℤ}
  {start end_ : Instant}

theorem translateFilter_window (start end_ : Instant) :
    Mongo.translateFilter jobSchema (windowFilter start end_) = .ok (windowQuery start end_) := by
  have hfilter : windowFilter start end_ = [.field "created_at" (windowCondition start end_)] := rfl
  have hfield : resolveField jobSchema "created_at" = .ok (some (optional (.scalar .str))) :=
    resolveField_declared rfl
  have hvalue (t : Instant) : convertToBsonValue jobSchema "created_at"
      (.scalar (.str (datetimeToZulu t))) = .ok (.scalar (.value (.text (datetimeToZulu t)))) := by
    have hidField : (optional (.scalar .str)).isIdField = false := by decide
    have hnested : (optional (.scalar .str)).findNestedModel = none := rfl
    rw [convertToBsonValue, hfield]
    simp [Except.mapError, bind, Except.bind, hidField, hnested, convertToBson, encodeScalar,
      PyScalar.toScalar]
  have hname : getDocumentField "created_at" = "created_at" := by decide
  have hkey : ("$gte" == elementMatch) = false ∧ ("$lt" == elementMatch) = false := by decide
  have hmap := isOperatorMap_window start end_
  rw [hfilter]
  unfold windowCondition at hmap ⊢
  simp [Mongo.translateFilter, Mongo.translateEntry, Mongo.translateField, hmap, hasKey, hkey,
    hname, translateCondition, hvalue, windowQuery, bind, Except.bind, pure, Except.pure]

theorem isMatch_window (hserver : server.Collates same fold (windowQuery start end_))
    {document : Document} {t : Instant}
    (ht : Value.get "created_at" document = .scalar (.value (.text (datetimeToZulu t)))) :
    server.isMatch none (windowQuery start end_) document = true ↔ IsTextWithin start end_ t := by
  have hgte : FieldOperator.ofName "$gte" = some .gte := by decide
  have hlt : FieldOperator.ofName "$lt" = some .lt := by decide
  have hname : isOperatorName "$gte" = true := by decide
  have hpath : pathParts "created_at" = ["created_at"] := pathParts_name (by decide)
  refine (hserver none document).trans ?_
  rw [windowQuery, QueryMatches, QueryMatches, and_true, EntryMatches, Mongo.FieldMatches,
    Mongo.operatorsOf, if_pos hname, readUnder_none, hpath, Value.candidates_field, ht, IsTextWithin]
  · simp [Mongo.OperatorMatches, hgte, hlt, Mongo.Compares, TextReading.exact, readText_id,
      Value.items, Scalar.kind, Scalar.lt]
  · intro _ h
    cases h

theorem eq_of_submitterOf {document : Document} {hex : Id} (h : submitterOf document = some hex) :
    Value.get "user_id" document = .scalar (.objectId hex) := by
  unfold submitterOf at h
  split at h
  · next heq =>
    cases h
    exact heq
  · cases h

theorem mem_distinct {distinct : MongoDistinct} {documents : List Document}
    (hjobs : ∀ document ∈ documents, IsJob document)
    (hmem : ∀ v, v ≠ .null → (v ∈ distinct none "user_id" documents ↔
      ∃ document ∈ documents, Value.get "user_id" document = v)) :
    ∀ v ∈ distinct none "user_id" documents, v = .null ∨ ∃ hex, v = .scalar (.objectId hex) := by
  intro v hv
  by_cases hnull : v = .null
  · exact .inl hnull
  · obtain ⟨document, hdocument, rfl⟩ := (hmem v hnull).mp hv
    exact (hjobs document hdocument).userId

theorem counts_window {plan : MongoPlan server}
    {validate : Value Scalar → Except ValidationError Job} {distinct : MongoDistinct}
    (hdistinct : TellsApart distinct) (hserver : server.Collates same fold (windowQuery start end_))
    {documents : List Document} (hjobs : ∀ document ∈ documents, IsJob document)
    (instant : Document → Instant) (hwritten : ∀ document ∈ documents,
      Value.get "created_at" document = .scalar (.value (.text (datetimeToZulu (instant document))))) :
    Counts (jobReads plan validate now distinct documents) start end_ submitterOf
      (documents.filter fun document => IsTextWithin start end_ (instant document)) := by
  have hmatched : matchedDocuments server jobSchema documents now (windowFilter start end_) =
      .ok (documents.filter fun document => IsTextWithin start end_ (instant document)) := by
    unfold matchedDocuments
    rw [translateUnexpiredFilter_jobs, translateFilter_window, getQueryCollation_jobs]
    refine congrArg Except.ok (List.filter_congr fun document hmem => Bool.eq_iff_iff.mpr ?_)
    rw [decide_eq_true_eq]
    exact isMatch_window hserver (hwritten document hmem)
  have hcounted : ∀ document ∈ documents.filter fun document =>
      IsTextWithin start end_ (instant document), IsJob document := fun document hmem =>
    hjobs document (List.mem_filter.mp hmem).1
  obtain ⟨hnodup, hmem⟩ := hdistinct _ hcounted
  have hids := mem_distinct hcounted hmem
  unfold jobReads
  refine counts_reads ((distinct none "user_id" (documents.filter fun document =>
    IsTextWithin start end_ (instant document))).map convertFromBson) ?_ ?_ ?_ fun v hv => ?_
  · change count jobSchema documents now server (windowFilter start end_) = _
    unfold count
    rw [hmatched]
    rfl
  · change findDistinct distinct jobSchema documents now server "user_id"
      (windowFilter start end_) = _
    unfold findDistinct
    rw [hmatched, getQueryCollation_jobs]
    rfl
  · refine hnodup.map_on fun v hv w hw hvw => ?_
    obtain rfl | ⟨a, rfl⟩ := hids v hv
    · obtain rfl | ⟨b, rfl⟩ := hids w hw
      · rfl
      · cases hvw
    · obtain rfl | ⟨b, rfl⟩ := hids w hw
      · cases hvw
      · cases hvw
        rfl
  · rw [List.mem_map]
    constructor
    · rintro ⟨w, hw, rfl⟩
      obtain rfl | ⟨hex, rfl⟩ := hids w hw
      · exact absurd rfl hv
      · obtain ⟨document, hdocument, hget⟩ := (hmem _ (by simp)).mp hw
        exact ⟨hex, List.mem_filterMap.mpr ⟨document, hdocument, by rw [submitterOf, hget]⟩, rfl⟩
    · rintro ⟨hex, hhex, rfl⟩
      obtain ⟨document, hdocument, hsubmitter⟩ := List.mem_filterMap.mp hhex
      exact ⟨.scalar (.objectId hex),
        (hmem _ (by simp)).mpr ⟨document, hdocument, eq_of_submitterOf hsubmitter⟩, rfl⟩

end MongoStore

/-! ## Both stores -/

/-- **The jobs counted are those created in the window**, exactly where none was created at an instant
that the texts split. -/
theorem filter_isTextWithin_iff {D : Type} (data : List D) (instant : D → Instant)
    (start end_ : Instant) :
    data.filter (fun d => IsTextWithin start end_ (instant d)) =
        data.filter (fun d => IsWithin start end_ (instant d)) ↔
      ∀ d ∈ data, ¬ IsSplit start end_ (instant d) := by
  constructor
  · intro hsame d hd
    have hmem : d ∈ data.filter (fun d => IsTextWithin start end_ (instant d)) ↔
        d ∈ data.filter fun d => IsWithin start end_ (instant d) := by rw [hsame]
    rw [← isTextWithin_iff]
    simpa [hd] using hmem
  · intro hsplit
    refine List.filter_congr fun d hd => ?_
    exact decide_eq_decide.mpr ((isTextWithin_iff start end_ (instant d)).mpr (hsplit d hd))

/-- **A window counts the jobs that were created in it** exactly where the texts split none of the
instants, in both stores; and the texts have the order of time but in a second that one of the
instants starts. -/
theorem countsByTime_iff (start end_ : Instant) :
    (∀ a b : Instant, (datetimeToZulu a < datetimeToZulu b ↔ a.Before b) ↔ ¬ a.StartsSecondOf b) ∧
      (∀ (lower : String → String) (database : SqlDatabase) (references : References)
          (text : TextOrder) (plan : SqlPlan text)
          (validate : Value Scalar → Except ValidationError Job) (now : ℤ)
          (s : SqlTables database references jobTables) (instant : Row → Instant),
        (∀ row ∈ s.rows, row "created_at" = .scalar (.text (datetimeToZulu (instant row)))) →
        ∃ counted,
          counted = s.rows.filter (SqlStore.isMatchedBy lower database now s.stored.toStoredRows
            (windowFilter start end_)) ∧
          Counts (SqlStore.jobReads lower database plan validate now s.stored.toStoredRows) start end_
            SqlStore.submitterOf counted ∧
          (counted = s.rows.filter (fun row => IsWithin start end_ (instant row)) ↔
            ∀ row ∈ s.rows, ¬ IsSplit start end_ (instant row))) ∧
      ∀ (server : MongoServer) (same : Char → Char → Bool) (fold : String → String)
          (plan : MongoPlan server) (validate : Value Scalar → Except ValidationError Job)
          (distinct : MongoStore.MongoDistinct) (now : ℤ) (documents : List Document)
          (instant : Document → Instant),
        MongoStore.TellsApart distinct →
        server.Collates same fold (MongoStore.windowQuery start end_) →
        (∀ document ∈ documents, MongoStore.IsJob document ∧
          Value.get "created_at" document =
            .scalar (.value (.text (datetimeToZulu (instant document))))) →
        ∃ counted,
          counted = documents.filter (server.isMatch none (MongoStore.windowQuery start end_)) ∧
          Counts (MongoStore.jobReads plan validate now distinct documents) start end_
            MongoStore.submitterOf counted ∧
          (counted = documents.filter (fun document => IsWithin start end_ (instant document)) ↔
            ∀ document ∈ documents, ¬ IsSplit start end_ (instant document)) := by
  refine ⟨datetimeToZulu_lt_iff_before, ?_, ?_⟩
  · intro lower database references text plan validate now s instant hwritten
    refine ⟨s.rows.filter fun row => IsTextWithin start end_ (instant row), ?_,
      SqlStore.counts_window s instant hwritten, filter_isTextWithin_iff _ _ _ _⟩
    refine List.filter_congr fun row hrow => Bool.eq_iff_iff.mpr ?_
    rw [decide_eq_true_eq]
    exact (SqlStore.isMatchedBy_window s hrow (hwritten row hrow)).symm
  · intro server same fold plan validate distinct now documents instant hdistinct hserver hjobs
    refine ⟨documents.filter fun document => IsTextWithin start end_ (instant document), ?_,
      MongoStore.counts_window hdistinct hserver (fun document hmem =>
        (hjobs document hmem).1) instant fun document hmem => (hjobs document hmem).2,
      filter_isTextWithin_iff _ _ _ _⟩
    refine List.filter_congr fun document hmem => Bool.eq_iff_iff.mpr ?_
    rw [decide_eq_true_eq]
    exact (MongoStore.isMatch_window hserver (hjobs document hmem).2).symm

/-! ## A job of the first second of a window -/

/-- Noon of a day. -/
def noon : Instant := ⟨⟨2026, 1, 1, 12, 0, 0, by decide, by decide, by decide, by decide, by decide,
  by decide⟩, 0, by decide⟩

/-- Half a second later. -/
def justAfterNoon : Instant := { noon with microsecond := 500000, microsecond_lt := by decide }

/-- An hour later. -/
def oneOClock : Instant := { noon with hour := 13, hour_lt := by decide }

/-- Half an hour later. -/
def halfPastNoon : Instant := { noon with minute := 30, minute_lt := by decide }

/-- A job created half an hour after noon. -/
def lunchJobs : SqlTables sqlite (fun _ _ => true) jobTables where
  rows := [fun column => if column = "created_at" then .scalar (.text (datetimeToZulu halfPastNoon))
    else jobRow 1 "a" (.scalar (.text annId)) column]
  childRows := fun _ => []
  typed := by decide +kernel
  notNull := by decide +kernel
  unique := by decide +kernel
  foreignKeys := by decide +kernel

/-- The document of that job. -/
def lunchDocument : Document :=
  ("created_at", .scalar (.value (.text (datetimeToZulu halfPastNoon)))) :: jobDocument "a" annId

open Classical in
/-- The different values of a field. -/
noncomputable def distinctValues : MongoStore.MongoDistinct := fun _ field documents =>
  (documents.map (Value.get field)).dedup

theorem tellsApart_distinctValues : MongoStore.TellsApart distinctValues := by
  intro documents _
  refine ⟨List.nodup_dedup _, fun v _ => ?_⟩
  rw [distinctValues, List.mem_dedup, List.mem_map]

/-- The job is counted in the hour after noon, in both stores. -/
theorem countsByTime_iff_lunch :
    (∀ (plan : SqlPlan byCodePoint) (validate : Value Scalar → Except ValidationError Job),
        countJobSubmitters (SqlStore.jobReads String.toLower sqlite plan validate 0
          lunchJobs.stored.toStoredRows) noon oneOClock false = .ok 1) ∧
      ∀ (plan : MongoPlan (collatingServer sqlite.same latinLower))
        (validate : Value Scalar → Except ValidationError Job),
        countJobSubmitters (MongoStore.jobReads plan validate 0 distinctValues [lunchDocument])
          noon oneOClock true = .ok 1 := by
  have hsplit : ¬ IsSplit noon oneOClock halfPastNoon := by decide +kernel
  have hwithin : IsWithin noon oneOClock halfPastNoon := by decide +kernel
  obtain ⟨-, hsql, hmongo⟩ := countsByTime_iff noon oneOClock
  refine ⟨fun plan validate => ?_, fun plan validate => ?_⟩
  · obtain ⟨counted, -, hcounts, hiff⟩ := hsql String.toLower sqlite _ byCodePoint plan validate 0
      lunchJobs (fun _ => halfPastNoon) (by decide +kernel)
    have hcounted := hiff.mpr fun _ _ => hsplit
    rw [hcounts.all, hcounted]
    simp only [hwithin, decide_true, List.filter_true]
    rfl
  · have hjob : MongoStore.IsJob lunchDocument := ⟨⟨"a", rfl⟩, .inr ⟨annId, rfl⟩⟩
    obtain ⟨counted, -, hcounts, hiff⟩ := hmongo (collatingServer sqlite.same latinLower) sqlite.same
      latinLower plan validate distinctValues 0 [lunchDocument] (fun _ => halfPastNoon)
      tellsApart_distinctValues (fun collation document => isMatch_collatingServer collation _ document)
      (List.forall_mem_singleton.mpr ⟨hjob, rfl⟩)
    have hcounted := hiff.mpr fun _ _ => hsplit
    rw [hcounts.distinct, hcounted]
    simp only [hwithin, decide_true, List.filter_true]
    rfl

/-- A job created just after noon. -/
def noonJobs : SqlTables sqlite (fun _ _ => true) jobTables where
  rows := [fun column => if column = "created_at" then .scalar (.text (datetimeToZulu justAfterNoon))
    else jobRow 1 "a" (.scalar (.text annId)) column]
  childRows := fun _ => []
  typed := by decide +kernel
  notNull := by decide +kernel
  unique := by decide +kernel
  foreignKeys := by decide +kernel

/-- The job is created in the hour after noon, and not counted there. -/
theorem noon_job_not_counted :
    justAfterNoon.Before oneOClock ∧ noon.Before justAfterNoon ∧
      ¬ datetimeToZulu noon < datetimeToZulu justAfterNoon ∧
      (∀ row ∈ noonJobs.rows,
        row "created_at" = .scalar (.text (datetimeToZulu justAfterNoon))) ∧
      ∀ (plan : SqlPlan byCodePoint) (validate : Value Scalar → Except ValidationError Job),
        countJobSubmitters (SqlStore.jobReads String.toLower sqlite plan validate 0
          noonJobs.stored.toStoredRows) noon oneOClock false = .ok 0 ∧
        countJobSubmitters (SqlStore.jobReads String.toLower sqlite plan validate 0
          noonJobs.stored.toStoredRows) noon oneOClock true = .ok 0 := by
  refine ⟨by decide +kernel, by decide +kernel, by decide +kernel, by decide +kernel,
    fun plan validate => ?_⟩
  have hcounts := @SqlStore.counts_window String.toLower sqlite byCodePoint plan validate 0 _
    noonJobs noon oneOClock (fun _ => justAfterNoon) (by decide +kernel)
  have hnone : (noonJobs.rows.filter fun _ => IsTextWithin noon oneOClock justAfterNoon) = [] := by
    have hout : ¬ IsTextWithin noon oneOClock justAfterNoon := by decide +kernel
    simp [hout]
  rw [hnone] at hcounts
  exact ⟨hcounts.all, hcounts.distinct⟩

end Mss
