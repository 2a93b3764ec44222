import Mss.Storage.SetupChecks

/-!
# Whether the schemas of a database get their tables

The schemas that a database accepts are to get their tables, or to be refused, whichever of them
reference which. They are ordered by a recursion that marks a schema only after those it references,
so references in a cycle fill the stack; and what nothing looks for crashes the setup.

* `DependsOn`: a schema references another, directly or through others.
* **`GetsTables`**: the schemas get their tables, each after those it depends on, or are refused.
* `says_buildNext`, `builtUpTo_of_foldlM`, `passes_of_foldlM`: what building the tables of one more
  schema, and of some one after another, comes to.
* `CanBeBuilt`, **`getsTables_iff`**: exactly when schemas get their tables, in whatever order they
  are listed.
-/

namespace Mss.Setup

open Storage Verdict Relation

variable {σ : Type} [DecidableEq σ] (classes : σ → SchemaClass σ)

/-- A schema references another of those given, directly or through others. -/
def DependsOn (schemas : List σ) (s t : σ) : Prop :=
  TransGen (References (otherReferences classes schemas)) s t

/-- **The schemas get their tables**: each once, and each that no references run back to after those
it depends on; or they are refused. -/
def GetsTables (limit : ℕ) (schemas : List σ) : Prop :=
  match getSchemaTables classes limit schemas with
  | .ok built => (built.map (·.schema)).Perm schemas ∧
      ∀ before x after, built = before ++ x :: after →
        ¬ DependsOn classes schemas x.schema x.schema →
        ∀ t, DependsOn classes schemas x.schema t → t ∈ before.map (·.schema)
  | .error e => e.isRefusal

/-- The tables of some schemas. -/
def allTableNames (schemas : List σ) : List String := schemas.flatMap fun s => tableNames (classes s)

/-- **No references run in a cycle, and before a schema crashes one is refused**: where the tables of
a schema crash with those of some others defined, none of which depends on it, a schema that comes
before it then, as one of those or as one that they or it depend on, is refused. -/
structure CanBeBuilt (schemas : List σ) : Prop where
  acyclic : ∀ s ∈ schemas, ¬ DependsOn classes schemas s s
  refusedFirst : ∀ s ∈ schemas, ∀ earlier, earlier ⊆ schemas → s ∉ earlier →
    (∀ t ∈ earlier, ¬ DependsOn classes schemas t s) →
    verdict classes (allTableNames classes earlier) s = crash →
    ∃ u, (DependsOn classes schemas s u ∨
      ∃ t ∈ earlier, t = u ∨ DependsOn classes schemas t u) ∧ verdict classes [] u = refuse

/-! ## One after another -/

/-- The tables of some schemas are built. -/
structure BuiltUpTo (done : List σ) (acc : List (SchemaTables σ) × List String) : Prop where
  schemas : acc.1.map (·.schema) = done
  names : ∀ x ∈ acc.1, x.table.names = columnNames (classes x.schema)
  taken : acc.2 = allTableNames classes done

/-- The schemas that a schema references are among those given. -/
def Closed (schemas : List σ) : Prop :=
  ∀ s ∈ schemas, ∀ field ∈ (classes s).storage.references, (classes s).target field ∈ schemas

section Runs

variable {classes} {schemas : List σ} (hclosed : Closed classes schemas)
include hclosed

/-- **The tables of one more schema are built as its checks say**, where those it references come
before it. -/
theorem says_buildNext {done rest : List σ} {s : σ} (hs : s ∈ schemas)
    (hlisted : Listed (otherReferences classes schemas) (done ++ s :: rest))
    {acc : List (SchemaTables σ) × List String} (hacc : BuiltUpTo classes done acc) :
    Says SetupError.isRefusal (buildNext classes acc s)
      (checks classes (allTableNames classes done) s) (BuiltUpTo classes (done ++ [s])) := by
  have hready : Ready classes acc.1 s := by
    refine ⟨hacc.names, fun field hfield hother => ?_, ?_⟩
    · rw [hacc.schemas]
      refine hlisted.first done s rest rfl _ ?_
      unfold otherReferences
      rw [List.mem_filter]
      exact ⟨List.mem_map_of_mem hfield, by simpa using ⟨hother, hclosed s hs field hfield⟩⟩
    · rw [hacc.schemas]
      exact hlisted.notMem_before
  have hsays := says_getTablesOf hready acc.2
  rw [hacc.taken] at hsays
  unfold buildNext
  rw [hacc.taken]
  refine hsays.map fun x hx => ?_
  obtain ⟨hschema, hnames, htaken⟩ := hx
  refine ⟨?_, ?_, ?_⟩
  · rw [List.map_append, hacc.schemas, List.map_singleton, hschema]
  · intro y hy
    rcases List.mem_append.mp hy with hy | hy
    · exact hacc.names y hy
    · obtain rfl := List.mem_singleton.mp hy
      rw [hschema, hnames]
  · rw [htaken]
    unfold allTableNames
    simp

/-- **What is built one after another.** -/
theorem builtUpTo_of_foldlM {start done rest : List σ} (hmem : done ⊆ schemas)
    (hlisted : Listed (otherReferences classes schemas) (start ++ (done ++ rest)))
    {acc₀ acc : List (SchemaTables σ) × List String} (hacc : BuiltUpTo classes start acc₀)
    (h : done.foldlM (buildNext classes) acc₀ = .ok acc) : BuiltUpTo classes (start ++ done) acc := by
  induction done generalizing start acc₀ with
  | nil =>
    cases h
    rw [List.append_nil]
    exact hacc
  | cons s done ih =>
    rw [List.foldlM_cons] at h
    obtain ⟨acc₁, hfirst, h⟩ := bind_ok h
    have hsays := says_buildNext hclosed (hmem List.mem_cons_self) hlisted hacc
    rw [hfirst] at hsays
    rw [← List.singleton_append, ← List.append_assoc]
    refine ih (fun t ht => hmem (List.mem_cons_of_mem _ ht)) ?_ hsays.2 h
    rw [List.append_assoc]
    exact hlisted

theorem says_verdict {before after : List σ} {s : σ}
    (hmem : before ++ s :: after ⊆ schemas)
    (hlisted : Listed (otherReferences classes schemas) (before ++ s :: after))
    {acc : List (SchemaTables σ) × List String}
    (h : before.foldlM (buildNext classes) ([], []) = .ok acc) :
    Says SetupError.isRefusal (buildNext classes acc s)
      (checks classes (allTableNames classes before) s) fun _ => True := by
  have hacc : BuiltUpTo classes ([] ++ before) acc :=
    builtUpTo_of_foldlM hclosed (fun t ht => hmem (List.mem_append_left _ ht)) hlisted
      ⟨rfl, fun x hx => absurd hx List.not_mem_nil, rfl⟩ h
  exact (says_buildNext hclosed (hmem (by simp)) hlisted hacc).mono fun _ _ => trivial

/-- Each of the schemas whose tables are built has passed. -/
theorem passes_of_foldlM {before after rest : List σ} {s : σ}
    (hmem : before ++ s :: (after ++ rest) ⊆ schemas)
    (hlisted : Listed (otherReferences classes schemas) (before ++ s :: (after ++ rest)))
    {acc : List (SchemaTables σ) × List String}
    (h : (before ++ s :: after).foldlM (buildNext classes) ([], []) = .ok acc) :
    verdict classes (allTableNames classes before) s = pass := by
  rw [List.foldlM_append] at h
  obtain ⟨acc₁, hbefore, h⟩ := bind_ok h
  rw [List.foldlM_cons] at h
  obtain ⟨acc₂, hs, -⟩ := bind_ok h
  have hsays := says_verdict hclosed hmem hlisted hbefore
  rw [hs] at hsays
  exact hsays.1

theorem first_of_foldlM {order : List σ} (hmem : order ⊆ schemas)
    (hlisted : Listed (otherReferences classes schemas) order) {e : SetupError}
    (h : order.foldlM (buildNext classes) ([], []) = .error e) :
    ∃ before s after, order = before ++ s :: after ∧
      verdict classes (allTableNames classes before) s = (if e.isRefusal then refuse else crash) ∧
      ∀ first t last, before = first ++ t :: last →
        verdict classes (allTableNames classes first) t = pass := by
  obtain ⟨before, s, after, acc, rfl, hbefore, hs⟩ := foldlM_error h
  refine ⟨before, s, after, rfl, ?_, ?_⟩
  · have hsays := says_verdict hclosed hmem hlisted hbefore
    rw [hs] at hsays
    exact hsays
  · rintro first t last rfl
    rw [List.append_assoc, List.cons_append] at hmem hlisted
    exact passes_of_foldlM hclosed hmem hlisted hbefore

end Runs

/-! ## In whatever order they are listed -/

section Listings

variable {classes} {limit : ℕ} {schemas listed : List σ}

theorem otherReferences_perm (h : listed.Perm schemas) :
    otherReferences classes listed = otherReferences classes schemas := by
  funext s
  unfold otherReferences
  refine List.filter_congr fun t _ => ?_
  simp [h.mem_iff]

theorem orderByReferences_eq (h : listed.Perm schemas) :
    orderByReferences classes limit listed =
      visitAll (otherReferences classes schemas) .recursionError limit listed := by
  rw [← otherReferences_perm h]
  rfl

theorem mem_of_mem_otherReferences {s t : σ}
    (h : t ∈ otherReferences classes schemas s) : t ∈ schemas := by
  unfold otherReferences at h
  rw [List.mem_filter] at h
  exact (by simpa using h.2 : t ≠ s ∧ t ∈ schemas).2

theorem perm_of_visitAll {order : List σ} (hnodup : schemas.Nodup) (h : listed.Perm schemas)
    (horder : visitAll (otherReferences classes schemas) SetupError.recursionError limit listed =
      .ok order) :
    order.Perm schemas := by
  obtain ⟨hlisted, hall, hfrom⟩ := visitAll_listed horder
  rw [List.perm_ext_iff_of_nodup hlisted.nodup hnodup]
  intro s
  constructor
  · intro hs
    obtain ⟨t, ht, hreach⟩ := hfrom s hs
    rcases Relation.reflTransGen_iff_eq_or_transGen.mp hreach with rfl | hreach
    · exact h.subset ht
    · obtain ⟨u, -, hu⟩ := TransGen.tail'_iff.mp hreach
      exact mem_of_mem_otherReferences hu
  · intro hs
    exact hall s (h.symm.subset hs)

theorem getsTables_of_order {order : List σ} (hnodup : schemas.Nodup)
    (hclosed : Closed classes schemas) (h : listed.Perm schemas)
    (horder : visitAll (otherReferences classes schemas) SetupError.recursionError limit listed =
      .ok order)
    (hnot : ∀ e, order.foldlM (buildNext classes) ([], []) = .error e → e.isRefusal = true) :
    GetsTables classes limit listed := by
  have hperm := perm_of_visitAll hnodup h horder
  obtain ⟨hlisted, -, -⟩ := visitAll_listed horder
  unfold GetsTables getSchemaTables
  rw [orderByReferences_eq h, horder]
  change match (order.foldlM (buildNext classes) ([], []) >>= fun acc => .ok acc.1) with
    | .ok built => _
    | .error e => _
  cases hbuild : order.foldlM (buildNext classes) ([], []) with
  | error e => exact hnot e hbuild
  | ok acc =>
    have hacc : BuiltUpTo classes ([] ++ order) acc :=
      builtUpTo_of_foldlM hclosed hperm.subset (List.append_nil order ▸ hlisted)
        ⟨rfl, fun x hx => absurd hx List.not_mem_nil, rfl⟩ hbuild
    have hschemas : acc.1.map (·.schema) = order := hacc.schemas
    refine ⟨by rw [hschemas]; exact hperm.trans h.symm, ?_⟩
    intro before x after hsplit _ t ht
    rw [hsplit, List.map_append, List.map_cons] at hschemas
    rw [← hschemas] at hlisted
    unfold DependsOn at ht
    rw [otherReferences_perm h] at ht
    exact hlisted.mem_before ht

theorem isRefusal_of_getsTables {order : List σ} (h : listed.Perm schemas)
    (horder : visitAll (otherReferences classes schemas) SetupError.recursionError limit listed =
      .ok order) (hgets : GetsTables classes limit listed) {e : SetupError}
    (he : order.foldlM (buildNext classes) ([], []) = .error e) : e.isRefusal = true := by
  unfold GetsTables getSchemaTables at hgets
  rw [orderByReferences_eq h, horder] at hgets
  change match (order.foldlM (buildNext classes) ([], []) >>= fun acc => .ok acc.1) with
    | .ok built => _
    | .error e => _ at hgets
  rw [he] at hgets
  exact hgets

theorem not_getsTables {e : SetupError} (h : getSchemaTables classes limit schemas = .error e)
    (he : e.isRefusal = false) : ¬ GetsTables classes limit schemas := by
  unfold GetsTables
  rw [h]
  simp [he]

theorem verdict_eq_or_crash {taken taken' : List String} (h : taken ⊆ taken') (s : σ) :
    verdict classes taken s = verdict classes taken' s ∨ verdict classes taken' s = crash :=
  (harsher_checks h).overall_eq_or_crash

theorem verdict_of_subset {taken taken' : List String} (h : taken ⊆ taken') {s : σ} {v : Verdict}
    (hv : verdict classes taken' s = v) (hne : v ≠ crash) : verdict classes taken s = v := by
  rcases verdict_eq_or_crash h s with hsame | hcrash
  · rw [hsame, hv]
  · exact absurd (hv.symm.trans hcrash) hne

theorem exists_order (hacyclic : ∀ s ∈ schemas, ¬ DependsOn classes schemas s s)
    (hlimit : schemas.length ≤ limit) (h : listed.Perm schemas) :
    ∃ order, visitAll (otherReferences classes schemas) SetupError.recursionError limit listed =
      .ok order := by
  rw [visitAll_ok_iff _ (fun s _ t ht => h.symm.subset (mem_of_mem_otherReferences ht))
    (h.length_eq.trans_le hlimit)]
  intro s hs
  exact hacyclic s (h.subset hs)

theorem CanBeBuilt.getsTables (h : CanBeBuilt classes schemas) (hnodup : schemas.Nodup)
    (hclosed : Closed classes schemas) (hlimit : schemas.length ≤ limit)
    (hperm : listed.Perm schemas) : GetsTables classes limit listed := by
  obtain ⟨order, horder⟩ := exists_order h.acyclic hlimit hperm
  refine getsTables_of_order hnodup hclosed hperm horder fun e he => ?_
  obtain ⟨hlisted, -, -⟩ := visitAll_listed horder
  have hsubset := (perm_of_visitAll hnodup hperm horder).subset
  obtain ⟨before, s, after, rfl, hverdict, hpasses⟩ := first_of_foldlM hclosed hsubset hlisted he
  by_contra hcrash
  rw [if_neg hcrash] at hverdict
  -- what a schema before it depends on comes before it too, and it does not
  have hearlier : ∀ t ∈ before, ∀ u, DependsOn classes schemas t u → u ∈ before := by
    intro t ht u hu
    obtain ⟨first, last, rfl⟩ := List.append_of_mem ht
    rw [List.append_assoc] at hlisted
    exact List.mem_append_left _ (hlisted.mem_before hu)
  have hnot := hlisted.notMem_before
  obtain ⟨u, hu, hrefused⟩ := h.refusedFirst s (hsubset (by simp)) before
    (fun t ht => hsubset (List.mem_append_left _ ht)) hnot
    (fun t ht hdepends => hnot (hearlier t ht s hdepends)) hverdict
  have hmem : u ∈ before := by
    rcases hu with hu | ⟨t, ht, rfl | hu⟩
    · exact hlisted.mem_before hu
    · exact ht
    · exact hearlier t ht u hu
  obtain ⟨first, last, rfl⟩ := List.append_of_mem hmem
  have hpass := verdict_of_subset (List.nil_subset _) (hpasses first u last rfl) (by decide)
  rw [hpass] at hrefused
  cases hrefused

theorem recursionError_of_cycle {s : σ} (hs : s ∈ schemas) (hcycle : DependsOn classes schemas s s) :
    getSchemaTables classes limit schemas = .error .recursionError := by
  unfold getSchemaTables
  rw [orderByReferences_eq (.refl schemas), visitAll_of_cycle hs hcycle]
  rfl

theorem refused_of_crash {before after : List σ} {s : σ} (hclosed : Closed classes schemas)
    (hmem : before ++ s :: after ⊆ schemas)
    (hlisted : Listed (otherReferences classes schemas) (before ++ s :: after))
    (hcrash : verdict classes (allTableNames classes before) s = crash)
    (hnot : ∀ e, (before ++ s :: after).foldlM (buildNext classes) ([], []) = .error e →
      e.isRefusal = true) : ∃ u ∈ before, verdict classes [] u = refuse := by
  cases hbuild : (before ++ s :: after).foldlM (buildNext classes) ([], []) with
  | ok acc =>
    rw [← List.append_nil after] at hmem hlisted
    rw [passes_of_foldlM hclosed hmem hlisted hbuild] at hcrash
    cases hcrash
  | error e =>
    obtain ⟨first, u, last, hsplit, hverdict, hpasses⟩ := first_of_foldlM hclosed hmem hlisted hbuild
    rw [if_pos (hnot e hbuild)] at hverdict
    refine ⟨u, ?_, verdict_of_subset (List.nil_subset _) hverdict (by decide)⟩
    -- the schema is neither the one refused nor one of those passed
    have hother : s ≠ u ∨ before ≠ first := by
      by_contra! hsame
      obtain ⟨rfl, rfl⟩ := hsame
      rw [hverdict] at hcrash
      cases hcrash
    rcases List.append_eq_append_iff.mp hsplit with ⟨mid, rfl, hmid⟩ | ⟨mid, rfl, hmid⟩
    · obtain _ | ⟨t, mid⟩ := mid
      · cases hmid
        simp at hother
      · cases hmid
        rw [hpasses before s mid rfl] at hcrash
        cases hcrash
    · obtain _ | ⟨t, mid⟩ := mid
      · cases hmid
        simp at hother
      · cases hmid
        simp

theorem perm_listedFirst {earlier : List σ} {s : σ} (hnodup : schemas.Nodup) (hs : s ∈ schemas)
    (hnot : s ∉ earlier) :
    (schemas.filter (· ∈ earlier) ++ s :: schemas.filter fun t => t ∉ earlier ∧ t ≠ s).Perm
      schemas := by
  rw [List.perm_ext_iff_of_nodup _ hnodup]
  · intro t
    simp only [List.mem_append, List.mem_cons, List.mem_filter, decide_eq_true_eq]
    constructor
    · rintro (⟨ht, -⟩ | rfl | ⟨ht, -⟩)
      · exact ht
      · exact hs
      · exact ht
    · intro ht
      by_cases hearlier : t ∈ earlier
      · exact .inl ⟨ht, hearlier⟩
      · by_cases hself : t = s
        · exact .inr (.inl hself)
        · exact .inr (.inr ⟨ht, hearlier, hself⟩)
  · refine List.nodup_append.mpr ⟨hnodup.filter _, List.nodup_cons.mpr ⟨by simp, hnodup.filter _⟩, ?_⟩
    rintro t ht u hu rfl
    rw [List.mem_filter, decide_eq_true_eq] at ht
    rcases List.mem_cons.mp hu with rfl | hu
    · exact hnot ht.2
    · rw [List.mem_filter, decide_eq_true_eq] at hu
      exact hu.2.1 ht.2

theorem canBeBuilt_of_getsTables (hnodup : schemas.Nodup) (hclosed : Closed classes schemas)
    (hlimit : schemas.length ≤ limit)
    (h : ∀ listed : List σ, listed.Perm schemas → GetsTables classes limit listed) :
    CanBeBuilt classes schemas := by
  have hacyclic : ∀ s ∈ schemas, ¬ DependsOn classes schemas s s := fun s hs hcycle =>
    not_getsTables (recursionError_of_cycle hs hcycle) rfl (h schemas (.refl _))
  refine ⟨hacyclic, fun s hs earlier hsubset hnot hearlier hcrash => ?_⟩
  -- those are listed first, and then the schema
  have hperm := perm_listedFirst hnodup hs hnot
  obtain ⟨order, horder⟩ := exists_order hacyclic hlimit hperm
  obtain ⟨before, after, rfl, hbefore, hfrom⟩ := visitAll_before horder fun t ht hreach => by
    rw [List.mem_filter, decide_eq_true_eq] at ht
    rcases Relation.reflTransGen_iff_eq_or_transGen.mp hreach with rfl | hreach
    · exact hnot ht.2
    · exact hearlier t ht.2 hreach
  obtain ⟨hlisted, -, -⟩ := visitAll_listed horder
  have hmem := (perm_of_visitAll hnodup hperm horder).subset
  have hcrashes : verdict classes (allTableNames classes before) s = crash := by
    have htaken : allTableNames classes earlier ⊆ allTableNames classes before := by
      intro name hname
      obtain ⟨t, ht, hname⟩ := List.mem_flatMap.mp hname
      exact List.mem_flatMap.mpr
        ⟨t, hbefore t (List.mem_filter.mpr ⟨hsubset ht, decide_eq_true ht⟩), hname⟩
    rcases verdict_eq_or_crash htaken s with hsame | hcrash'
    · rw [← hsame, hcrash]
    · exact hcrash'
  obtain ⟨u, hu, hrefused⟩ := refused_of_crash hclosed hmem hlisted hcrashes
    fun e he => isRefusal_of_getsTables hperm horder (h _ hperm) he
  refine ⟨u, ?_, hrefused⟩
  obtain ⟨t, ht, hreach⟩ := hfrom u hu
  rcases List.mem_cons.mp ht with rfl | ht
  · rcases Relation.reflTransGen_iff_eq_or_transGen.mp hreach with rfl | hreach
    · exact absurd hu hlisted.notMem_before
    · exact .inl hreach
  · rw [List.mem_filter, decide_eq_true_eq] at ht
    refine .inr ⟨t, ht.2, ?_⟩
    rcases Relation.reflTransGen_iff_eq_or_transGen.mp hreach with rfl | hreach
    · exact .inl rfl
    · exact .inr hreach

end Listings

/-! ## What a database accepts -/

variable {classes} {schemas : List σ}

theorem closed_of_checked (h : ∀ s ∈ schemas, checkStorageSpec classes schemas s = .ok ()) :
    Closed classes schemas := by
  intro s hs field hfield
  have hcheck := h s hs
  unfold checkStorageSpec at hcheck
  obtain ⟨-, -, hcheck⟩ := bind_ok hcheck
  obtain ⟨-, -, hcheck⟩ := bind_ok hcheck
  have hthis := forM_eq_ok hcheck field hfield
  by_contra hnot
  rw [if_neg hnot] at hthis
  cases hthis

/-- **Schemas that a database accepts get their tables or are refused exactly when they can be
built**, on a stack with room for a call for each, in whatever order they are listed. -/
theorem getsTables_iff {limit : ℕ} (hnodup : schemas.Nodup) (hlimit : schemas.length ≤ limit)
    (hcheck : ∀ s ∈ schemas, checkStorageSpec classes schemas s = .ok ()) :
    (∀ listed : List σ, listed.Perm schemas → GetsTables classes limit listed) ↔
      CanBeBuilt classes schemas := by
  have hclosed := closed_of_checked hcheck
  constructor
  · intro h
    exact canBeBuilt_of_getsTables hnodup hclosed hlimit h
  · intro h listed hperm
    exact h.getsTables hnodup hclosed hlimit hperm

/-! ## Users and projects -/

/-- The schemas of users and of projects. -/
inductive Kind
  | user
  | project
  deriving DecidableEq, Repr

/-- Users, and projects of many users. -/
def membership : Kind → SchemaClass Kind
  | .user =>
    { name := "User", fields := [("id", .scalar .id), ("email", .scalar .str)]
      storage := { table := "auth_users", key := "id", unique := [["email"]] }
      target := fun _ => .user, distinct := by decide, referencedOnce := by decide }
  | .project =>
    { name := "Project"
      fields := [("id", .scalar .id), ("user_ids", .generic .list [.scalar .str])]
      storage := { table := "auth_projects", key := "id", references := ["user_ids"] }
      target := fun _ => .user, distinct := by decide, referencedOnce := by decide }

theorem dependsOn_membership {s t : Kind} (h : DependsOn membership [.project, .user] s t) :
    s = .project ∧ t = .user := by
  have hone : ∀ s t, t ∈ otherReferences membership [.project, .user] s →
      s = .project ∧ t = .user := by
    intro s t
    cases s <;> cases t <;> decide
  induction h with
  | single h => exact hone _ _ h
  | tail _ h ih => exact ⟨ih.1, (hone _ _ h).2⟩

theorem canBeBuilt_membership : CanBeBuilt membership [.project, .user] := by
  refine ⟨fun s _ hcycle => ?_, fun s _ earlier _ hnot hearlier hcrash => ?_⟩
  · obtain ⟨rfl, huser⟩ := dependsOn_membership hcycle
    cases huser
  · exfalso
    cases s with
    | user =>
      have hnone : earlier = [] := by
        refine List.eq_nil_iff_forall_not_mem.mpr fun t ht => ?_
        cases t with
        | user => exact hnot ht
        | project => exact hearlier _ ht (.single (by decide : Kind.user ∈ otherReferences _ _ _))
      rw [hnone] at hcrash
      revert hcrash
      decide +kernel
    | project =>
      have htaken : allTableNames membership earlier ⊆ ["auth_users"] := by
        intro name hname
        obtain ⟨t, ht, hname⟩ := List.mem_flatMap.mp hname
        cases t with
        | user => exact hname
        | project => exact absurd ht hnot
      have hpass : verdict membership ["auth_users"] .project = pass := by decide +kernel
      rw [verdict_of_subset htaken hpass (by decide)] at hcrash
      cases hcrash

/-- Users and projects get their tables, whichever are listed first. -/
theorem getsTables_membership :
    GetsTables membership 1000 [.project, .user] ∧ GetsTables membership 1000 [.user, .project] := by
  have h : ∀ listed : List Kind, listed.Perm [.project, .user] → GetsTables membership 1000 listed :=
    (getsTables_iff (by decide) (by decide) (by decide +kernel)).mpr canBeBuilt_membership
  exact ⟨h _ (.refl _), h _ (.swap _ _ _)⟩

/-- Projects that are parts of projects. -/
def parts : Kind → SchemaClass Kind
  | .user => membership .user
  | .project =>
    { name := "Project", fields := [("id", .scalar .id), ("parent_id", .scalar .str)]
      storage := { table := "auth_projects", key := "id", references := ["parent_id"] }
      target := fun _ => .project, distinct := by decide, referencedOnce := by decide }

/-- Projects of one admin each, and users of one project each. -/
def admins : Kind → SchemaClass Kind
  | .user =>
    { name := "User", fields := [("id", .scalar .id), ("project_id", .scalar .str)]
      storage := { table := "auth_users", key := "id", references := ["project_id"] }
      target := fun _ => .project, distinct := by decide, referencedOnce := by decide }
  | .project =>
    { name := "Project", fields := [("id", .scalar .id), ("admin_id", .scalar .str)]
      storage := { table := "auth_projects", key := "id", references := ["admin_id"] }
      target := fun _ => .user, distinct := by decide, referencedOnce := by decide }

/-- **A schema that references itself and schemas in a cycle are accepted, and neither get their
tables nor are refused**: the lookup of its own tables raises a `KeyError`, and ordering them a
`RecursionError`. -/
theorem accepted_without_tables :
    ((∀ s ∈ [Kind.project], checkStorageSpec parts [.project] s = .ok ()) ∧
      getSchemaTables parts 1000 [.project] = .error (.keyError "Project") ∧
      ¬ GetsTables parts 1000 [.project]) ∧
    ((∀ s ∈ [Kind.user, .project], checkStorageSpec admins [.user, .project] s = .ok ()) ∧
      getSchemaTables admins 1000 [.user, .project] = .error .recursionError ∧
      ¬ GetsTables admins 1000 [.user, .project]) := by
  have hparts : getSchemaTables parts 1000 [.project] = .error (.keyError "Project") := rfl
  have hadmins : getSchemaTables admins 1000 [.user, .project] = .error .recursionError := by
    have hproject : Kind.project ∈ otherReferences admins [.user, .project] .user := by decide
    have huser : Kind.user ∈ otherReferences admins [.user, .project] .project := by decide
    exact recursionError_of_cycle (by decide) (.tail (.single hproject) huser)
  exact ⟨⟨by decide +kernel, hparts, not_getsTables hparts rfl⟩,
    by decide +kernel, hadmins, not_getsTables hadmins rfl⟩

end Mss.Setup
