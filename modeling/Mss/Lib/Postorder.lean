import Mathlib.Data.List.Chain
import Mathlib.Data.List.Nodup
import Mathlib.Data.List.Perm.Subperm
import Mathlib.Logic.Relation
import Mss.Lib.Refusals

/-!
# Listing what is referenced first

Each of some things references others. A recursion lists a thing after it has listed those that the
thing references, and marks it as listed only then, so it goes round a cycle until its stack is full.

* **`visit`**, `visitAll`: the recursion, on a stack with room for so many calls.
* `Listed`: each is listed once, after those it references, and no references run on from it.
* `visit_listed`, **`visitAll_listed`**: what the recursion lists, if it ends.
* `visit_ok`: it ends where no chain of references is longer than the stack;
  `visitAll_of_cycle`: it does not where they run in a cycle.
* **`visitAll_ok_iff`**: where the stack has room for a call for each, it ends exactly if no references
  run in a cycle.
-/

namespace Storage

open Relation

variable {ε A : Type} (refs : A → List A) (full : ε)

/-- **List a thing after those it references**, unless it is listed. -/
def visit [DecidableEq A] : ℕ → A → List A → Except ε (List A)
  | 0, _, _ => .error full
  | n + 1, a, listed =>
    if a ∈ listed then .ok listed
    else ((refs a).foldlM (fun listed b => visit n b listed) listed).map fun listed => listed ++ [a]

/-- **List some things**, each after those it references. -/
def visitAll [DecidableEq A] (n : ℕ) (l : List A) : Except ε (List A) :=
  l.foldlM (fun listed a => visit refs full n a listed) []

/-- One thing references another. -/
def References (a b : A) : Prop := b ∈ refs a

/-- **Each is listed once, after those it references**, and no references run on from it. -/
structure Listed (l : List A) : Prop where
  nodup : l.Nodup
  first : ∀ before a after, l = before ++ a :: after → ∀ b ∈ refs a, b ∈ before
  ends : ∀ a ∈ l, Acc (fun b a => References refs a b) a

variable {refs full}

namespace Listed

theorem nil : Listed refs [] where
  nodup := List.nodup_nil
  first before a after h := by simp at h
  ends a ha := absurd ha List.not_mem_nil

theorem concat {l : List A} (hl : Listed refs l) {a : A} (ha : a ∉ l) (hrefs : ∀ b ∈ refs a, b ∈ l) :
    Listed refs (l ++ [a]) where
  nodup := by
    rw [← List.concat_eq_append]
    exact hl.nodup.concat ha
  first before x after h := by
    rcases List.eq_nil_or_concat after with rfl | ⟨after, last, rfl⟩
    · obtain ⟨rfl, hx⟩ := List.append_inj' h rfl
      cases hx
      exact hrefs
    · have hsplit : l ++ [a] = (before ++ x :: after) ++ [last] := by
        rw [h, List.concat_eq_append, List.append_assoc, List.cons_append]
      obtain ⟨rfl, -⟩ := List.append_inj' hsplit rfl
      exact hl.first before x after rfl
  ends x hx := by
    rcases List.mem_append.mp hx with hx | hx
    · exact hl.ends x hx
    · obtain rfl := List.mem_singleton.mp hx
      exact .intro x fun b hb => hl.ends b (hrefs b hb)

theorem mem_before {before after : List A} {a : A} (hl : Listed refs (before ++ a :: after)) {b : A}
    (hb : TransGen (References refs) a b) : b ∈ before := by
  induction hb with
  | single hb => exact hl.first before a after rfl _ hb
  | tail _ hc ih =>
    obtain ⟨first, rest, rfl⟩ := List.append_of_mem ih
    refine List.mem_append_left _ (hl.first first _ (rest ++ a :: after) ?_ _ hc)
    rw [List.append_assoc, List.cons_append]

theorem notMem_before {before after : List A} {a : A} (hl : Listed refs (before ++ a :: after)) :
    a ∉ before := fun hmem =>
  (List.nodup_append.mp hl.nodup).2.2 a hmem a List.mem_cons_self rfl

theorem not_cycle {l : List A} (hl : Listed refs l) {a : A} (ha : a ∈ l) :
    ¬ TransGen (References refs) a a := by
  obtain ⟨before, after, rfl⟩ := List.append_of_mem ha
  intro hcycle
  exact hl.notMem_before (hl.mem_before hcycle)

end Listed

/-! ## What the recursion lists -/

/-- What listing one thing adds: nothing if it is listed, or things it references and then itself. -/
structure Appends (refs : A → List A) (l : List A) (a : A) (l' : List A) : Prop where
  listed : Listed refs l'
  cases : (a ∈ l ∧ l' = l) ∨ ∃ before, l' = l ++ (before ++ [a]) ∧
    ∀ b ∈ before, ReflTransGen (References refs) a b

theorem Appends.mem {l l' : List A} {a : A} (h : Appends refs l a l') : a ∈ l' := by
  rcases h.cases with ⟨ha, rfl⟩ | ⟨before, rfl, -⟩
  · exact ha
  · simp

theorem foldlM_listed {f : List A → A → Except ε (List A)}
    (hf : ∀ l a l', Listed refs l → f l a = .ok l' → Appends refs l a l') {as l l' : List A}
    (hl : Listed refs l) (h : as.foldlM f l = .ok l') :
    Listed refs l' ∧ (∀ a ∈ as, a ∈ l') ∧
      ∃ new, l' = l ++ new ∧ ∀ b ∈ new, ∃ a ∈ as, ReflTransGen (References refs) a b := by
  induction as generalizing l with
  | nil =>
    cases h
    exact ⟨hl, fun a ha => absurd ha List.not_mem_nil, [], (List.append_nil _).symm,
      fun b hb => absurd hb List.not_mem_nil⟩
  | cons a as ih =>
    rw [List.foldlM_cons] at h
    obtain ⟨l₁, hfirst, hrest⟩ := bind_ok h
    have hadds := hf l a l₁ hl hfirst
    obtain ⟨hl', hall, new, rfl, hnew⟩ := ih hadds.listed hrest
    refine ⟨hl', List.forall_mem_cons.mpr ⟨List.mem_append_left _ hadds.mem, hall⟩, ?_⟩
    have hlater : ∀ b ∈ new, ∃ x ∈ a :: as, ReflTransGen (References refs) x b := by
      intro b hb
      obtain ⟨x, hx, hreach⟩ := hnew b hb
      exact ⟨x, List.mem_cons_of_mem _ hx, hreach⟩
    rcases hadds.cases with ⟨-, rfl⟩ | ⟨before, rfl, hbefore⟩
    · exact ⟨new, rfl, hlater⟩
    · refine ⟨before ++ [a] ++ new, by rw [List.append_assoc], fun b hb => ?_⟩
      rcases List.mem_append.mp hb with hb | hb
      · rcases List.mem_append.mp hb with hb | hb
        · exact ⟨a, List.mem_cons_self, hbefore b hb⟩
        · obtain rfl := List.mem_singleton.mp hb
          exact ⟨b, List.mem_cons_self, .refl⟩
      · exact hlater b hb

/-- **What listing one thing adds.** -/
theorem visit_listed [DecidableEq A] {n : ℕ} {a : A} {l l' : List A} (hl : Listed refs l)
    (h : visit refs full n a l = .ok l') : Appends refs l a l' := by
  induction n generalizing a l l' with
  | zero => cases h
  | succ n ih =>
    rw [visit] at h
    split_ifs at h with ha
    · cases h
      exact ⟨hl, .inl ⟨ha, rfl⟩⟩
    · cases hfold : (refs a).foldlM (fun listed b => visit refs full n b listed) l with
      | error e =>
        rw [hfold] at h
        cases h
      | ok l₁ =>
        rw [hfold] at h
        cases h
        obtain ⟨hl₁, hall, new, rfl, hnew⟩ :=
          foldlM_listed (fun l b l' hl hb => ih hl hb) hl hfold
        have hreach : ∀ b ∈ new, TransGen (References refs) a b := by
          intro b hb
          obtain ⟨x, hx, hxb⟩ := hnew b hb
          exact .head' hx hxb
        -- it is not added by those it references, as they are on no cycle
        have hnot : a ∉ l ++ new := by
          intro hmem
          rcases List.mem_append.mp hmem with hmem | hmem
          · exact ha hmem
          · exact hl₁.not_cycle (List.mem_append_right _ hmem) (hreach a hmem)
        exact ⟨hl₁.concat hnot hall, .inr ⟨new, List.append_assoc _ _ _,
          fun b hb => (hreach b hb).to_reflTransGen⟩⟩

/-- **What listing some things lists**: those, and what they reference. -/
theorem visitAll_listed [DecidableEq A] {n : ℕ} {as l : List A} (h : visitAll refs full n as = .ok l) :
    Listed refs l ∧ (∀ a ∈ as, a ∈ l) ∧ ∀ b ∈ l, ∃ a ∈ as, ReflTransGen (References refs) a b := by
  obtain ⟨hl, hall, new, rfl, hnew⟩ :=
    foldlM_listed (fun l a l' hl ha => visit_listed hl ha) .nil h
  exact ⟨hl, hall, hnew⟩

theorem visitAll_before [DecidableEq A] {n : ℕ} {as rest l : List A} {a : A}
    (h : visitAll refs full n (as ++ a :: rest) = .ok l)
    (ha : ∀ b ∈ as, ¬ ReflTransGen (References refs) b a) :
    ∃ before after, l = before ++ a :: after ∧ (∀ b ∈ as, b ∈ before) ∧
      ∀ c ∈ before, ∃ b ∈ a :: as, ReflTransGen (References refs) b c := by
  unfold visitAll at h
  rw [List.foldlM_append] at h
  obtain ⟨l₁, hfirst, h⟩ := bind_ok h
  rw [List.foldlM_cons] at h
  obtain ⟨l₂, hsecond, hrest⟩ := bind_ok h
  obtain ⟨hl₁, hall, hfrom⟩ := visitAll_listed hfirst
  have hadds := visit_listed hl₁ hsecond
  obtain ⟨-, -, after, rfl, -⟩ :=
    foldlM_listed (fun l a l' hl ha => visit_listed hl ha) hadds.listed hrest
  rcases hadds.cases with ⟨hmem, -⟩ | ⟨before, rfl, hbefore⟩
  · obtain ⟨b, hb, hreach⟩ := hfrom a hmem
    exact absurd hreach (ha b hb)
  · refine ⟨l₁ ++ before, after, by simp, fun b hb => List.mem_append_left _ (hall b hb), ?_⟩
    intro c hc
    rcases List.mem_append.mp hc with hc | hc
    · obtain ⟨b, hb, hreach⟩ := hfrom c hc
      exact ⟨b, List.mem_cons_of_mem _ hb, hreach⟩
    · exact ⟨a, List.mem_cons_self, hbefore c hc⟩

/-! ## When the recursion ends -/

theorem foldlM_ok {B : Type} {f : B → A → Except ε B} {as : List A}
    (hf : ∀ a ∈ as, ∀ b, ∃ b', f b a = .ok b') (b : B) : ∃ b', as.foldlM f b = .ok b' := by
  induction as generalizing b with
  | nil => exact ⟨b, rfl⟩
  | cons a as ih =>
    obtain ⟨b₁, hb₁⟩ := hf a List.mem_cons_self b
    obtain ⟨b₂, hb₂⟩ := ih (fun a ha => hf a (List.mem_cons_of_mem _ ha)) b₁
    refine ⟨b₂, ?_⟩
    rw [List.foldlM_cons, hb₁]
    exact hb₂

/-- **It ends where no chain of references is longer than the stack.** -/
theorem visit_ok [DecidableEq A] {n : ℕ} {a : A}
    (h : ∀ path, List.IsChain (References refs) (a :: path) → path.length < n) (l : List A) :
    ∃ l', visit refs full n a l = .ok l' := by
  induction n generalizing a l with
  | zero => exact absurd (h [] (.singleton a)) (Nat.not_lt_zero _)
  | succ n ih =>
    rw [visit]
    split_ifs with ha
    · exact ⟨l, rfl⟩
    · have hrefs : ∀ b ∈ refs a, ∀ l, ∃ l', visit refs full n b l = .ok l' := by
        intro b hb l
        refine ih (fun path hpath => ?_) l
        have hlonger := h (b :: path) (.cons_cons hb hpath)
        rw [List.length_cons] at hlonger
        omega
      obtain ⟨l', hl'⟩ := foldlM_ok hrefs l
      rw [hl']
      exact ⟨_, rfl⟩

theorem nodup_of_isChain {as path : List A} (hclosed : ∀ a ∈ as, ∀ b ∈ refs a, b ∈ as)
    (hacyclic : ∀ a ∈ as, ¬ TransGen (References refs) a a) {a : A} (ha : a ∈ as)
    (hpath : List.IsChain (References refs) (a :: path)) :
    (a :: path).Nodup ∧ ∀ b ∈ a :: path, b ∈ as := by
  have hpairs : (a :: path).Pairwise (TransGen (References refs)) :=
    (hpath.imp fun _ _ => TransGen.single).pairwise
  have hmem : ∀ b ∈ a :: path, b ∈ as := by
    have hreach : ∀ b, TransGen (References refs) a b → b ∈ as := by
      intro b hb
      induction hb with
      | single hb => exact hclosed a ha _ hb
      | tail _ hc ih => exact hclosed _ ih _ hc
    refine List.forall_mem_cons.mpr ⟨ha, fun b hb => hreach b ?_⟩
    exact (List.pairwise_cons.mp hpairs).1 b hb
  refine ⟨hpairs.imp_of_mem fun hb _ hbc => ?_, hmem⟩
  rintro rfl
  exact hacyclic _ (hmem _ hb) hbc

theorem visit_error [DecidableEq A] {n : ℕ} {a : A} {l : List A} {e : ε}
    (h : visit refs full n a l = .error e) : e = full := by
  induction n generalizing a l with
  | zero =>
    cases h
    rfl
  | succ n ih =>
    rw [visit] at h
    split_ifs at h
    cases hfold : (refs a).foldlM (fun listed b => visit refs full n b listed) l with
    | error e' =>
      rw [hfold] at h
      cases h
      obtain ⟨earlier, b, later, l', -, -, hb⟩ := foldlM_error hfold
      exact ih hb
    | ok l' =>
      rw [hfold] at h
      cases h

/-- **Round a cycle the stack gets full.** -/
theorem visitAll_of_cycle [DecidableEq A] {n : ℕ} {as : List A} {a : A} (ha : a ∈ as)
    (hcycle : TransGen (References refs) a a) : visitAll refs full n as = .error full := by
  cases hall : visitAll refs full n as with
  | ok l =>
    obtain ⟨hlisted, hmem, -⟩ := visitAll_listed hall
    exact absurd hcycle (hlisted.not_cycle (hmem a ha))
  | error e =>
    obtain ⟨earlier, b, later, l, -, -, hb⟩ := foldlM_error hall
    rw [visit_error hb]

variable (full) in
theorem visitAll_ok_iff [DecidableEq A] {n : ℕ} {as : List A} (hclosed : ∀ a ∈ as, ∀ b ∈ refs a, b ∈ as)
    (hn : as.length ≤ n) :
    (∃ l, visitAll refs full n as = .ok l) ↔ ∀ a ∈ as, ¬ TransGen (References refs) a a := by
  constructor
  · rintro ⟨l, hl⟩ a ha hcycle
    rw [visitAll_of_cycle ha hcycle] at hl
    cases hl
  · intro hacyclic
    refine foldlM_ok (fun a ha l => visit_ok (fun path hpath => ?_) l) []
    obtain ⟨hnodup, hmem⟩ := nodup_of_isChain hclosed hacyclic ha hpath
    have hlength := (hnodup.subperm hmem).length_le
    rw [List.length_cons] at hlength
    omega

end Storage
