import Mss.CaseFolding

/-!
# Text searches

A text is searched for with its special letters escaped, as a filter wants it. The filter gives the
text back, which becomes a pattern of `LIKE` with the wildcards escaped. What a value is to hold is
the text, letter for letter without case; which letters are one without case the database decides.

* `unescape_reEscape`: the text is recovered from its escaped form.
* `Filter.patterns`, **`isEscaped_of_checkFilter`**: a filter takes no other patterns.
* `SearchesLiterally`: what a search for a text is to be.
* **`literal_search_iff`**: it is that exactly if the database takes the letters of the text for
  those that are the same without case. `umlaut_not_found`: SQLite does not, outside ASCII.
-/

namespace Mss

open Storage

/-! ## Escaping -/

theorem unescape_cons {c : Char} (hc : c ≠ '\\') (cs : List Char) :
    unescape (c :: cs) = c :: unescape cs := by
  cases cs with
  | nil => rfl
  | cons d cs => rw [unescape, if_neg hc]

/-- **A text is recovered from its escaped form.** -/
theorem unescape_reEscape (text : List Char) : unescape (reEscape text) = text := by
  induction text with
  | nil => rfl
  | cons c text ih =>
    have hcons : reEscape (c :: text) =
        (if specialLetters.contains c then ['\\', c] else [c]) ++ reEscape text := rfl
    rw [hcons]
    by_cases hspecial : specialLetters.contains c = true
    · rw [if_pos hspecial, List.cons_append, List.singleton_append, unescape, if_pos rfl, ih]
    · have hc : c ≠ '\\' := by
        rintro rfl
        exact hspecial (by decide)
      rw [if_neg hspecial, List.singleton_append, unescape_cons hc, ih]

/-- The text, its special letters escaped. -/
def escapedText (text : String) : String := String.ofList (reEscape text.toList)

theorem getSearchedText_escapedText (text : String) :
    getSearchedText (escapedText text) = text.toList := by
  rw [getSearchedText, escapedText, String.toList_ofList, unescape_reEscape]

theorem isOperatorName_regex : isOperatorName "$regex" = true := by decide

/-- The filter of a search for a text in a field. -/
def textSearch (field text : String) : Filter :=
  [.field field (.dict [("$regex", .scalar (.str (escapedText text))),
    ("$options", .scalar (.str "i"))])]

theorem checkFilter_textSearch {schema : Schema} {field : String} {fieldInfo : Option FieldType}
    (hname : isOperatorName field = false) (hfield : resolveField schema field = .ok fieldInfo)
    (hmodels : isModelList fieldInfo = false) (text : String) :
    checkFilter schema (textSearch field text) = .ok ⟨⟩ := by
  have hescaped : PyValue.isEscapedText (.scalar (.str (escapedText text))) = true := by
    rw [PyValue.isEscapedText, getSearchedText_escapedText, escapedText, String.toList_ofList,
      beq_self_eq_true]
  have hsearch : checkTextSearch field [("$regex", .scalar (.str (escapedText text))),
      ("$options", .scalar (.str "i"))] = .ok ⟨⟩ := by
    simp [checkTextSearch, hescaped, PyValue.isText, List.lookup_cons]
  have hcondition : checkCondition field (.dict [("$regex", .scalar (.str (escapedText text))),
      ("$options", .scalar (.str "i"))]) = .ok ⟨⟩ := by
    rw [checkCondition, if_pos (by simp [isOperatorMap, isOperatorName_regex]), if_pos (by rfl),
      hsearch]
    rfl
  have hmatch : hasKey elementMatch (.dict [("$regex", .scalar (.str (escapedText text))),
      ("$options", .scalar (.str "i"))]) = false := by rfl
  have hchecked : checkField schema field (.dict [("$regex", .scalar (.str (escapedText text))),
      ("$options", .scalar (.str "i"))]) = .ok ⟨⟩ := by
    simp only [checkField, hname, hmatch, Bool.and_false, Bool.false_eq_true, if_false, hfield]
    exact (congrArg (fun b => if b = true then _ else _) hmodels).trans hcondition
  rw [textSearch, checkFilter, checkEntry, hchecked]
  rfl

/-! ## The patterns that are accepted -/

/-- The operands of `$regex` in a condition. -/
def conditionPatterns : PyValue → List PyValue
  | .dict entries => (entries.filter fun entry => entry.1 == "$regex").map Prod.snd
  | _ => []

/-- The operands of `$regex` in a condition on a field, those of an `$elemMatch` included. -/
def fieldPatterns (condition : PyValue) : List PyValue :=
  match elementFilterOf condition with
  | some entries => entries.flatMap fun entry => conditionPatterns entry.2
  | none => conditionPatterns condition

mutual

/-- The patterns of an entry. -/
def Entry.patterns : Entry → List PyValue
  | .logical _ filters => Filter.allPatterns filters
  | .field _ condition => fieldPatterns condition

/-- **The patterns of a filter**, nested filters included. -/
def Filter.patterns : List Entry → List PyValue
  | [] => []
  | entry :: entries => entry.patterns ++ Filter.patterns entries

/-- The patterns of a list of filters. -/
def Filter.allPatterns : List (List Entry) → List PyValue
  | [] => []
  | filter :: filters => Filter.patterns filter ++ Filter.allPatterns filters

end

/-- The pattern is the escaped form of a text. -/
def IsEscaped (pattern : PyValue) : Prop := ∃ text, pattern = .scalar (.str (escapedText text))

theorem isEscaped_of_isEscapedText {pattern : PyValue} (h : pattern.isEscapedText = true) :
    IsEscaped pattern := by
  unfold PyValue.isEscapedText at h
  split at h
  · rename_i p
    refine ⟨String.ofList (getSearchedText p), ?_⟩
    rw [escapedText, String.toList_ofList, beq_iff_eq.mp h, String.ofList_toList]
  · cases h

theorem isEscaped_of_checkTextSearch {field : String} {entries : List (String × PyValue)}
    (h : checkTextSearch field entries = .ok ⟨⟩) {operand : PyValue}
    (hmem : ("$regex", operand) ∈ entries) : IsEscaped operand := by
  simp only [checkTextSearch] at h
  split at h
  · cases h
  · rename_i hkeys
    rw [not_or, not_and_or, not_not, not_not] at hkeys
    split at h
    · cases h
    · rename_i htext
      rw [lookup_regex hkeys.1 hmem] at htext
      exact isEscaped_of_isEscapedText (by simpa using htext)

theorem isEscaped_of_checkCondition {field : String} {condition : PyValue}
    (h : checkCondition field condition = .ok ⟨⟩) :
    ∀ pattern ∈ conditionPatterns condition, IsEscaped pattern := by
  intro pattern hpattern
  cases condition with
  | none | scalar | sequence => cases hpattern
  | dict entries =>
    obtain ⟨⟨name, operand⟩, hmem, rfl⟩ := List.mem_map.mp hpattern
    obtain ⟨hmem, hname⟩ := List.mem_filter.mp hmem
    obtain rfl := beq_iff_eq.mp hname
    have hmap : isOperatorMap (.dict entries) = true :=
      List.any_eq_true.mpr ⟨_, hmem, isOperatorName_regex⟩
    have hkey : hasKey "$regex" (.dict entries) = true := List.any_eq_true.mpr ⟨_, hmem, hname⟩
    rw [checkCondition, if_pos hmap, hkey, Bool.true_or, if_pos rfl] at h
    obtain ⟨_, hsearch, _⟩ := bind_ok h
    exact isEscaped_of_checkTextSearch hsearch hmem

theorem checkCondition_of_checkElementMatch {schema : Schema} {field : String}
    {entries : List (String × PyValue)}
    (h : checkElementMatch schema field (.dict [(elementMatch, .dict entries)]) = .ok ⟨⟩) :
    ∀ entry ∈ entries, ∃ name, checkCondition name entry.2 = .ok ⟨⟩ := by
  intro entry hentry
  obtain ⟨fieldInfo, _, h⟩ := bind_ok h
  split_ifs at h
  · cases entries with
    | nil => cases hentry
    | cons e es =>
      obtain ⟨_, _, hcheck⟩ := bind_ok (forM_eq_ok h entry hentry)
      exact ⟨_, hcheck⟩

theorem isEscaped_of_checkField {schema : Schema} {field : String} {condition : PyValue}
    (h : checkField schema field condition = .ok ⟨⟩) :
    ∀ pattern ∈ fieldPatterns condition, IsEscaped pattern := by
  intro pattern hpattern
  unfold fieldPatterns at hpattern
  cases hfilter : elementFilterOf condition with
  | some entries =>
    rw [hfilter] at hpattern
    obtain ⟨entry, hentry, hsearched⟩ := List.mem_flatMap.mp hpattern
    obtain rfl := eq_of_elementFilterOf hfilter
    unfold checkField at h
    split at h
    · cases h
    · rw [if_pos (by rw [isOperatorMap_elementMatch]; simp [hasKey])] at h
      obtain ⟨name, hcheck⟩ := checkCondition_of_checkElementMatch h entry hentry
      exact isEscaped_of_checkCondition hcheck pattern hsearched
  | none =>
    rw [hfilter] at hpattern
    unfold checkField at h
    split at h
    · cases h
    · split at h
      · rename_i hmap
        obtain ⟨entries, _, hentries, _⟩ :=
          checkElementMatch_spec (Bool.and_eq_true_iff.mp hmap).2 h
        rw [hfilter] at hentries
        cases hentries
      · obtain ⟨_, _, h⟩ := bind_ok h
        split at h
        · cases h
        · exact isEscaped_of_checkCondition h pattern hpattern

mutual

theorem isEscaped_of_checkEntry {schema : Schema} : ∀ {entry : Entry},
    checkEntry schema entry = .ok ⟨⟩ → ∀ pattern ∈ entry.patterns, IsEscaped pattern
  | .logical operator filters, h, pattern, hpattern => by
    rw [checkEntry] at h
    split_ifs at h
    exact isEscaped_of_checkFilters h pattern hpattern
  | .field name condition, h, pattern, hpattern => isEscaped_of_checkField h pattern hpattern

theorem isEscaped_of_checkFilter {schema : Schema} : ∀ {filter : List Entry},
    checkFilter schema filter = .ok ⟨⟩ → ∀ pattern ∈ Filter.patterns filter, IsEscaped pattern
  | [], _, _, hpattern => by cases hpattern
  | entry :: entries, h, pattern, hpattern => by
    obtain ⟨_, hentry, h⟩ := bind_ok h
    obtain hpattern | hpattern := List.mem_append.mp hpattern
    · exact isEscaped_of_checkEntry hentry pattern hpattern
    · exact isEscaped_of_checkFilter h pattern hpattern

theorem isEscaped_of_checkFilters {schema : Schema} : ∀ {filters : List (List Entry)},
    checkFilters schema filters = .ok ⟨⟩ →
      ∀ pattern ∈ Filter.allPatterns filters, IsEscaped pattern
  | [], _, _, hpattern => by cases hpattern
  | filter :: filters, h, pattern, hpattern => by
    obtain ⟨_, hfilter, h⟩ := bind_ok h
    obtain hpattern | hpattern := List.mem_append.mp hpattern
    · exact isEscaped_of_checkFilter hfilter pattern hpattern
    · exact isEscaped_of_checkFilters h pattern hpattern

end

/-! ## What is found -/

/-- Whether two letters are the same without case, in some folding of case. -/
def caseless (fold : Char → Char) (c d : Char) : Bool := fold c == fold d

/-- **A search for a text is a literal one**: its filter is taken, the text is recovered from it, and
its pattern matches a column exactly where the value read holds the text without case. -/
structure SearchesLiterally (database : SqlDatabase) {tables : SchemaTables}
    (stored : StoredRows tables) (fold : Char → Char) (text : String) : Prop where
  accepted : ∀ (schema : Schema) field fieldInfo, isOperatorName field = false →
    resolveField schema field = .ok fieldInfo → isModelList fieldInfo = false →
      checkFilter schema (textSearch field text) = .ok ⟨⟩
  recovered : getSearchedText (escapedText text) = text.toList
  finds : ∀ (column : Column) (row : Row) (value : String),
    database.read column row = .scalar (.text value) →
      ((getSubstringClause column (getSearchedText (escapedText text))).eval database stored row =
        .yes ↔ Holds (caseless fold) text.toList value.toList)

theorem eval_getSubstringClause_read {database : SqlDatabase} {tables : SchemaTables}
    {stored : StoredRows tables} {column : Column} {row : Row} {value : String}
    (hread : database.read column row = .scalar (.text value)) (text : List Char) :
    (getSubstringClause column text).eval database stored row = .yes ↔
      Holds database.same text value.toList := by
  rw [getSubstringClause, Clause.eval, hread, SqlDatabase.ilike, Truth.ofBool_eq_yes,
    likeMatches_escapeLike]

/-- **A search is a literal one exactly if the database takes each letter of the text for those that
are the same without case**, whatever letters are special; and no other pattern is accepted. -/
theorem literal_search_iff (database : SqlDatabase) (hsame : ∀ c, database.same c c = true)
    {tables : SchemaTables} (stored : StoredRows tables) (fold : Char → Char) :
    (∀ text : String, SearchesLiterally database stored fold text ↔
      ∀ c ∈ text.toList, ∀ d, database.same c d = caseless fold c d) ∧
    ∀ (schema : Schema) (filter : Filter), checkFilter schema filter = .ok ⟨⟩ →
      ∀ pattern ∈ Filter.patterns filter, IsEscaped pattern := by
  refine ⟨fun text => ?_, fun schema filter => isEscaped_of_checkFilter⟩
  have hfold (c : Char) : caseless fold c c = true := beq_self_eq_true _
  rw [← holds_congr_iff hsame hfold]
  constructor
  · intro h value
    -- a row that reads the value in every column
    have hfinds := h.finds ⟨"", false⟩ (fun _ => .scalar (.text (String.ofList value)))
      (String.ofList value) rfl
    rw [eval_getSubstringClause_read rfl, h.recovered, String.toList_ofList] at hfinds
    exact hfinds
  · intro h
    refine ⟨fun schema field fieldInfo hname hfield hmodels =>
      checkFilter_textSearch hname hfield hmodels text, getSearchedText_escapedText text,
      fun column row value hread => ?_⟩
    rw [eval_getSubstringClause_read hread, getSearchedText_escapedText]
    exact h value.toList

/-- Where only the letters of ASCII have a case, SQLite searches for any text literally. -/
theorem literal_search_ascii : SearchesLiterally sqlite accountRows Char.toLower "50%_\\Å.*\n" :=
  ((literal_search_iff sqlite (fun _ => beq_self_eq_true _) accountRows Char.toLower).1 _).mpr
    fun _ _ _ => rfl

/-- The lower case of Latin letters. -/
def latinFold (c : Char) : Char := if c = 'Ä' then 'ä' else c.toLower

/-- SQLite takes no letter outside ASCII for another: it finds no "Ä" in "ärta". -/
theorem umlaut_not_found :
    (getSubstringClause ⟨"email", false⟩ (getSearchedText (escapedText "Ä"))).eval sqlite accountRows
        (accountRow 1 "ärta@x.se" "Ärta") = .no ∧
      Holds (caseless latinFold) "Ä".toList "ärta@x.se".toList ∧
      ¬ SearchesLiterally sqlite accountRows latinFold "Ä" := by
  have hno : (getSubstringClause ⟨"email", false⟩ (getSearchedText (escapedText "Ä"))).eval sqlite
      accountRows (accountRow 1 "ärta@x.se" "Ärta") = .no := by decide +kernel
  have hholds : Holds (caseless latinFold) "Ä".toList "ärta@x.se".toList :=
    ⟨[], ['ä'], "rta@x.se".toList, by decide, .cons (by decide) .nil⟩
  refine ⟨hno, hholds, fun h => ?_⟩
  have hyes := (h.finds ⟨"email", false⟩ (accountRow 1 "ärta@x.se" "Ärta") "ärta@x.se" rfl).mpr hholds
  rw [hno] at hyes
  cases hyes

end Mss
