import Mss.Lib.Refusals
import Mss.Services.NoticeReads

/-!
# Read states

A notice keeps its read state twice: who has read it, and, if it is addressed to a user, when that
user read it. Every update writes both, or the one that a broadcast has.

* `Valid`, `validateRecord_eq_ok`: what the rules of a notice say.
* `KeepsValid`, `exec_valid`: the updates and the inserts that keep notices valid.
* `OnlyOf`, `exec_onlyOf`: the updates that leave the read states of all but one user alone.
* **`notices_valid_and_independent`**: over any sequence of calls.
-/

namespace Mss.Reads

open Atomic Storage Prog

variable {h : Host} {w : World} {n : Notice} {f : NoticeFilter} {u : NoticeChanges} {userId : Id}

/-! ## Valid notices -/

/-- **What the rules of a notice say.** -/
structure Valid (n : Notice) : Prop where
  author : n.type = .custom → n.createdBy ≠ none
  shared : n.type = .customBroadcast → isTruthy n.userId = false ∧ isTruthy n.readAt = false
  addressed : n.type ≠ .customBroadcast → ∃ userId, n.userId = some userId ∧
    (isTruthy n.readAt = true → userId ∈ n.dismissedBy)

theorem validateRecord_eq_ok : n.validateRecord = .ok ⟨⟩ ↔ Valid n := by
  unfold Notice.validateRecord
  by_cases hauthor : n.createdBy = none ∧ n.type = .custom
  · rw [if_pos hauthor]
    exact iff_of_false (by simp) fun hvalid => hvalid.author hauthor.2 hauthor.1
  rw [if_neg hauthor]
  have hauthor : n.type = .custom → n.createdBy ≠ none := fun ht hc => hauthor ⟨hc, ht⟩
  by_cases hshared : n.type = .customBroadcast
  · rw [if_pos hshared]
    have hvalid : Valid n ↔ isTruthy n.userId = false ∧ isTruthy n.readAt = false :=
      ⟨fun hvalid => hvalid.shared hshared,
        fun hnone => ⟨hauthor, fun _ => hnone, fun hne => absurd hshared hne⟩⟩
    rw [hvalid]
    cases isTruthy n.userId <;> cases isTruthy n.readAt <;> simp
  · rw [if_neg hshared]
    have hvalid : Valid n ↔ ∃ userId, n.userId = some userId ∧
        (isTruthy n.readAt = true → userId ∈ n.dismissedBy) :=
      ⟨fun hvalid => hvalid.addressed hshared,
        fun haddressed => ⟨hauthor, fun ht => absurd ht hshared, fun _ => haddressed⟩⟩
    rw [hvalid]
    cases n.userId with
    | none => simp
    | some userId => simp

theorem validateRecord_of_modelValidate {n' : Notice} (hok : n.modelValidate = .ok n') :
    Valid n' := by
  unfold Notice.modelValidate at hok
  split_ifs at hok
  split at hok
  · next hvalid =>
    cases hok
    exact validateRecord_eq_ok.mp hvalid
  · cases hok

/-! ## What keeps notices valid -/

/-- Every notice stored is valid. -/
def AllValid (w : World) : Prop := ∀ n ∈ w.notices.rows, Valid n

/-- An update that leaves every valid notice that it may reach valid. -/
def KeepsValid (f : NoticeFilter) (u : NoticeChanges) : Prop :=
  ∀ n, Valid n → f.matches n = true → Valid (n.apply u)

/-- An operation that updates so, or inserts what is valid. -/
def SafeOp : Op → Prop
  | .updateNotice f u | .updateNotices f u => KeepsValid f u
  | .insertNotices ns => ∀ n ∈ ns, Valid n
  | _ => True

theorem keepsValid_broadcast (hf : ∀ n, f.matches n = true → n.type = .customBroadcast)
    (hread : u.readAt = none) : KeepsValid f u := by
  intro n hvalid hmatch
  have ht := hf n hmatch
  refine ⟨hvalid.author, fun _ => ?_, fun hne => absurd ht hne⟩
  have hread : (n.apply u).readAt = n.readAt := by simp [Notice.apply, hread]
  rw [hread]
  exact hvalid.shared ht

/-- An update of what is addressed to a user leaves it valid, if it marks it read by that user, or
unread. -/
theorem keepsValid_direct (hf : ∀ n, f.matches n = true → n.type ≠ .customBroadcast)
    (hread : u.readAt = some none ∨
      ∃ id, u.dismissedBy = some (.addToSet id) ∧
        ∀ n, f.matches n = true → n.userId ≠ none → n.userId = id) : KeepsValid f u := by
  intro n hvalid hmatch
  have ht := hf n hmatch
  refine ⟨hvalid.author, fun hb => absurd hb ht, fun _ => ?_⟩
  obtain ⟨userId, huser, -⟩ := hvalid.addressed ht
  refine ⟨userId, huser, fun htruthy => ?_⟩
  obtain hnone | ⟨id, hadd, hid⟩ := hread
  · have hunread : (n.apply u).readAt = none := by simp [Notice.apply, hnone]
    rw [hunread] at htruthy
    cases htruthy
  · obtain rfl : some userId = id := huser ▸ hid n hmatch (huser ▸ Option.some_ne_none _)
    have hdismissed : (n.apply u).dismissedBy =
        if userId ∈ n.dismissedBy then n.dismissedBy else n.dismissedBy ++ [userId] := by
      simp [Notice.apply, hadd, DismissedChange.apply]
    rw [hdismissed]
    split_ifs with hmem
    · exact hmem
    · simp

theorem mem_insertMany {b : Backend} {t : Table Notice Notice.id} {ns : List Notice}
    (hn : n ∈ (insertMany b t ns).2.rows) : n ∈ t.rows ∨ n ∈ ns := by
  have hinsert : ∀ t' inserted, t.insertInOrder (fun _ _ => False) ns = (t', inserted) → n ∈ t'.rows →
      n ∈ t.rows ∨ n ∈ ns := by
    intro t' inserted heq hmem
    exact Table.mem_insertInOrder (by rw [heq]; exact hmem)
  unfold insertMany at hn
  split at hn
  · next heq => exact hinsert _ _ heq hn
  · exact .inl hn
  · next heq => exact hinsert _ _ heq hn

/-- **What a safe operation leaves is valid.** -/
theorem exec_valid {o : Op} (ho : SafeOp o) (hw : AllValid w) : AllValid (exec h o w).2 := by
  have hmodify : ∀ f u, KeepsValid f u → ∀ n ∈ w.notices.rows, w.reaches f n = true →
      Valid (n.apply u) := fun f u hkeeps n hn hreach =>
    hkeeps n (hw n hn) (Bool.and_eq_true_iff.mp hreach).1
  cases o with
  | updateNotice f u =>
    simp only [exec]
    split
    · next m hm =>
      intro n hn
      obtain ⟨r, hr, rfl⟩ := List.mem_map.mp hn
      split_ifs with hid
      · obtain rfl : r = m := List.inj_on_of_nodup_map w.notices.nodup hr
          (List.mem_of_find?_eq_some hm) hid
        exact hmodify f u ho r hr (List.find?_some hm)
      · exact hw r hr
    · exact hw
  | updateNotices f u =>
    intro n hn
    obtain ⟨r, hr, rfl⟩ := List.mem_map.mp hn
    unfold World.updateIf
    split_ifs with hreach
    · exact hmodify f u ho r hr hreach
    · exact hw r hr
  | insertNotices ns =>
    intro n hn
    exact (mem_insertMany hn).elim (hw n) (ho n)
  | deleteExpired now => exact fun n hn => hw n (Table.mem_eraseWhere.mp hn).1
  | readClock | findDistinctUserIds | getTemplate | findPreferences | findUsersByEmail | getProject
  | getDeletedProject | passTime => exact hw

/-! ## The calls are safe -/

theorem matches_append {f g : NoticeFilter} :
    NoticeFilter.matches (f ++ g) n = true ↔ f.matches n = true ∧ NoticeFilter.matches g n = true := by
  simp [NoticeFilter.matches]

theorem matches_singleton {c : NoticeCondition} :
    NoticeFilter.matches [c] n = true ↔ c.matches n = true := by
  simp [NoticeFilter.matches]

theorem of_matches_concat {c : NoticeCondition} (hmatch : NoticeFilter.matches (f ++ [c]) n = true) :
    c.matches n = true := matches_singleton.mp (matches_append.mp hmatch).2

theorem type_of_broadcast (hmatch : NoticeFilter.matches (f ++ [.type .customBroadcast]) n = true) :
    n.type = .customBroadcast := by
  simpa [NoticeCondition.matches] using of_matches_concat hmatch

theorem type_of_direct (hmatch : NoticeFilter.matches (f ++ [.typeNot .customBroadcast]) n = true) :
    n.type ≠ .customBroadcast := by
  simpa [NoticeCondition.matches] using of_matches_concat hmatch

/-- A filter of a user's notices matches theirs, and those that all share. -/
def IsOfUser (userId : Id) (f : NoticeFilter) : Prop :=
  ∀ n, f.matches n = true → n.userId = some userId ∨ n.userId = none

theorem IsOfUser.append {g : NoticeFilter} (hf : IsOfUser userId f) : IsOfUser userId (f ++ g) :=
  fun n hmatch => hf n (matches_append.mp hmatch).1

theorem keepsValid_reading (hf : IsOfUser userId f) (isRead : Bool) (now : String) :
    KeepsValid (f ++ [.type .customBroadcast]) (broadcastUpdate userId isRead now) ∧
      KeepsValid (f ++ [.typeNot .customBroadcast]) (directUpdate userId isRead now) := by
  constructor
  · refine keepsValid_broadcast (fun n => type_of_broadcast) ?_
    cases isRead <;> rfl
  · refine keepsValid_direct (fun n => type_of_direct) ?_
    cases isRead with
    | false => exact .inl rfl
    | true =>
      refine .inr ⟨some userId, rfl, fun n hmatch huser => ?_⟩
      exact (hf n (matches_append.mp hmatch).1).resolve_right huser

theorem isOfUser_single (pk userId : Id) : IsOfUser userId [.id pk, .userIn [some userId, none]] := by
  intro n hmatch
  simp only [NoticeFilter.matches, List.all_cons, List.all_nil, Bool.and_true, Bool.and_eq_true,
    NoticeCondition.matches, List.mem_cons, List.not_mem_nil, or_false, decide_eq_true_eq] at hmatch
  exact hmatch.2

theorem isOfUser_many {query : NoticeQuery} (hquery : query.userId = some userId)
    (hid : isId userId = true) : IsOfUser userId (getNoticeFilter query) := by
  have htruthy : isTruthy query.userId = true := by
    rw [hquery, isTruthy, Option.any_some, decide_eq_true_eq]
    rintro rfl
    exact absurd hid (by decide)
  intro n hmatch
  have hmem : NoticeCondition.userIn [query.userId, none] ∈ getNoticeFilter query := by
    rw [getNoticeFilter, if_pos htruthy]
    exact List.mem_flatten.mpr ⟨_, List.mem_cons_self, List.mem_singleton.mpr rfl⟩
  have hmeets := List.all_eq_true.mp hmatch _ hmem
  rw [hquery] at hmeets
  simpa [NoticeCondition.matches] using hmeets

theorem calls_getCurrentTimestamp (P : Op → Prop) (hP : P .readClock) :
    (getCurrentTimestamp h).Calls P :=
  calls_bind ((calls_perform _).mpr hP) fun _ => calls_ret _

theorem calls_setReadStatus {P : Op → Prop} {pk : Id} {isRead : Bool} (hclock : P .readClock)
    (hbroadcast : ∀ now, P (.updateNotice
      ([.id pk, .userIn [some userId, none]] ++ [.type .customBroadcast])
      (broadcastUpdate userId isRead now)))
    (hdirect : ∀ now, P (.updateNotice
      ([.id pk, .userIn [some userId, none]] ++ [.typeNot .customBroadcast])
      (directUpdate userId isRead now))) : (setReadStatus h pk userId isRead).Calls P := by
  refine calls_bind (calls_getCurrentTimestamp P hclock) fun now => ?_
  refine ⟨hbroadcast now, fun broadcast => ?_⟩
  cases broadcast with
  | some notice => exact calls_ret _
  | none =>
    refine ⟨hdirect now, fun direct => ?_⟩
    cases direct with
    | some notice => exact calls_ret _
    | none => exact calls_raise _

theorem calls_setReadStatusMany {P : Op → Prop} {isRead : Bool} (hclock : P .readClock)
    (hupdates : ∀ f, IsOfUser userId f → ∀ now,
      P (.updateNotices (f ++ [.type .customBroadcast]) (broadcastUpdate userId isRead now)) ∧
        P (.updateNotices (f ++ [.typeNot .customBroadcast]) (directUpdate userId isRead now))) :
    (setReadStatusMany h userId isRead).Calls P := by
  unfold setReadStatusMany
  split_ifs with hid
  · have hof : IsOfUser userId (getNoticeFilter
        { userId := some userId, shouldIncludeDismissed := true, isRead := some (!isRead) }) :=
      isOfUser_many rfl hid
    refine calls_bind (calls_getCurrentTimestamp P hclock) fun now => ?_
    refine calls_bind ((calls_perform _).mpr (hupdates _ hof now).1) fun _ => ?_
    exact calls_bind ((calls_perform _).mpr (hupdates _ hof now).2) fun _ => calls_ret _
  · exact calls_raise _

theorem calls_markEachRead (timestamp : String) (now : ℤ) (userIds : List (Option Id)) :
    (markEachRead (f ++ [.typeNot .customBroadcast]) timestamp now userIds).Calls SafeOp := by
  induction userIds with
  | nil => exact calls_ret _
  | cons userId userIds ih =>
    refine calls_bind ((calls_perform _).mpr ?_) fun _ => calls_bind ih fun _ => calls_ret _
    refine keepsValid_direct (fun n hmatch => type_of_direct (matches_append.mp hmatch).1)
      (.inr ⟨userId, rfl, fun n hmatch _ => ?_⟩)
    simpa [NoticeCondition.matches] using of_matches_concat hmatch

theorem calls_clearNoticesByReference (refTypeIdsMap : List (RefType × List Id)) :
    (clearNoticesByReference h refTypeIdsMap).Calls SafeOp := by
  unfold clearNoticesByReference
  split_ifs
  · exact calls_ret _
  · refine calls_bind ((calls_perform _).mpr trivial) fun now => ?_
    refine calls_bind (calls_getCurrentTimestamp _ trivial) fun timestamp => ?_
    have hexpire : SafeOp (.updateNotices (getUnreadRefFilter refTypeIdsMap now ++
        [.type .customBroadcast]) { expiresAt := some now, updatedAt := timestamp }) :=
      keepsValid_broadcast (fun n => type_of_broadcast) rfl
    refine calls_bind ((calls_perform _).mpr hexpire) fun _ => ?_
    refine calls_bind ?_ fun _ => calls_ret _
    exact calls_bind ((calls_perform _).mpr trivial) fun userIds =>
      calls_markEachRead timestamp now userIds

theorem valid_of_fromTemplate {template : NoticeTemplate} {context : NoticeContext}
    {fields : NoticeFields} (hok : Notice.fromTemplate h template context fields = .ok n) :
    Valid n := by
  obtain ⟨title, _, hok⟩ := bind_ok hok
  obtain ⟨body, _, hok⟩ := bind_ok hok
  exact validateRecord_of_modelValidate hok

theorem valid_of_mapM {α : Type} {template : Option NoticeTemplate} {context : NoticeContext}
    {fields : α → NoticeFields} {l : List α} {ns : List Notice}
    (hok : (l.mapM fun a => do
      let template ← requireTemplate template
      Notice.fromTemplate h template context (fields a)) = .ok ns) : ∀ n ∈ ns, Valid n := by
  refine forall_of_mapM_ok hok fun a _ n hn => ?_
  obtain ⟨template, _, hn⟩ := bind_ok hn
  exact valid_of_fromTemplate hn

theorem calls_insert {r : Except Exc (List Notice)} (hr : ∀ ns, r = .ok ns → ∀ n ∈ ns, Valid n) :
    (do
      let notices ← (ofExcept r : Service (List Notice))
      let inserted ← call (.insertNotices notices)
      ofExcept inserted
      return notices).Calls SafeOp := by
  cases r with
  | error e => exact calls_raise _
  | ok ns =>
    rw [ofExcept_ok, ret_bind]
    refine calls_bind ((calls_perform _).mpr (hr ns rfl)) fun inserted => ?_
    exact calls_bind (calls_ofExcept _) fun _ => calls_ret _

theorem calls_publishCustomNotice (g : Generated) (currentUserId : Id)
    (payload : CustomNoticeCreate) :
    (publishCustomNotice h g currentUserId payload).Calls SafeOp := by
  unfold publishCustomNotice CustomNoticeCreate.toDocuments
  split_ifs
  · simp only [bind_assoc]
    refine calls_bind ((calls_perform _).mpr trivial) fun users => ?_
    refine calls_bind ((calls_perform _).mpr trivial) fun template => ?_
    exact calls_insert fun ns hok => valid_of_mapM hok
  · simp only [bind_assoc]
    refine calls_bind ((calls_perform _).mpr trivial) fun template => ?_
    refine calls_insert fun ns hok => ?_
    obtain ⟨template, _, hok⟩ := bind_ok hok
    obtain ⟨notice, hnotice, hok⟩ := bind_ok hok
    cases hok
    exact List.forall_mem_singleton.mpr (valid_of_fromTemplate hnotice)

theorem calls_withProjectName {P : Op → Prop} (context : NoticeContext)
    (hproject : ∀ id, P (.getProject id)) (hdeleted : ∀ id, P (.getDeletedProject id)) :
    (withProjectName context).Calls P := by
  unfold withProjectName
  cases context with
  | custom title body => exact calls_ret _
  | projectRequest c =>
    dsimp only
    split_ifs
    · refine calls_bind ((calls_perform _).mpr (hproject _)) fun project => ?_
      cases project with
      | some p => exact calls_ret _
      | none =>
        refine calls_bind ((calls_perform _).mpr (hdeleted _)) fun deleted => ?_
        cases deleted <;> exact calls_ret _
    · exact calls_ret _

theorem calls_createSystemNotice (conf : NoticesConfig) (g : Generated) (create : SystemNoticeCreate) :
    (createSystemNotice h conf g create).Calls SafeOp := by
  unfold createSystemNotice
  split_ifs
  · exact calls_ret _
  · refine calls_tryCatch ?_ fun _ => calls_ret _
    refine calls_bind (calls_withProjectName _ (fun _ => trivial) fun _ => trivial) fun context => ?_
    refine calls_bind ((calls_perform _).mpr trivial) fun template => ?_
    refine calls_bind ((calls_perform _).mpr trivial) fun preferences => ?_
    refine calls_bind ((calls_perform _).mpr trivial) fun now => ?_
    exact calls_insert fun ns hok => valid_of_mapM hok

/-- **Every call is safe.** -/
theorem calls_service (c : Call) : (c.service h).Calls SafeOp := by
  cases c with
  | setReadStatus pk userId isRead =>
    refine calls_bind ?_ fun _ => calls_ret _
    exact calls_setReadStatus trivial
      (fun now => (keepsValid_reading (isOfUser_single pk userId) isRead now).1)
      fun now => (keepsValid_reading (isOfUser_single pk userId) isRead now).2
  | setReadStatusMany userId isRead =>
    refine calls_bind ?_ fun _ => calls_ret _
    exact calls_setReadStatusMany trivial fun f hf now => keepsValid_reading hf isRead now
  | clearNoticesByReference refTypeIdsMap =>
    exact calls_bind (calls_clearNoticesByReference refTypeIdsMap) fun _ => calls_ret _
  | publishCustomNotice g currentUserId payload =>
    exact calls_bind (calls_publishCustomNotice g currentUserId payload) fun _ => calls_ret _
  | createSystemNotice conf g create =>
    exact calls_bind (calls_createSystemNotice conf g create) fun _ => calls_ret _
  | deleteExpired now => exact (calls_perform _).mpr trivial
  | passTime micros => exact (calls_perform _).mpr trivial

/-- **What a call leaves is valid.** -/
theorem run_valid (c : Call) (hw : AllValid w) : AllValid (c.run h w) :=
  run_invariant ((calls_service c).mono fun _ ho _ hs => exec_valid ho hs) hw

theorem runCalls_valid (calls : List Call) (hw : AllValid w) : AllValid (runCalls h calls w) := by
  induction calls generalizing w with
  | nil => exact hw
  | cons c calls ih => exact ih (run_valid c hw)

/-- **However calls interleave**, the stored notices stay valid. -/
theorem reach_valid {ι : Type} [DecidableEq ι] {pool : ι → Call} (hw : AllValid w)
    {c : Config World ι Resp Exc Unit}
    (hr : Reach (exec h) anyStep (.start w fun i => (pool i).service h) c) : AllValid c.store :=
  (hr.calls_invariant (fun _ _ ho hs => exec_valid ho hs) (fun i => calls_service (pool i)) hw).2

/-! ## Read states are independent -/

/-- **Only the read state of a user differs**: the others have read what they had, and a notice
addressed to another is as it was. -/
structure OnlyOf (userId : Id) (n n' : Notice) : Prop where
  dismissedBy : ∀ v ≠ userId, v ∈ n'.dismissedBy ↔ v ∈ n.dismissedBy
  addressed : ∀ v ≠ userId, n.userId = some v → n' = n
  sameUser : n'.userId = n.userId

theorem OnlyOf.refl (userId : Id) (n : Notice) : OnlyOf userId n n :=
  ⟨fun _ _ => Iff.rfl, fun _ _ _ => rfl, rfl⟩

theorem OnlyOf.trans {m l : Notice} (hnm : OnlyOf userId n m) (hml : OnlyOf userId m l) :
    OnlyOf userId n l where
  dismissedBy v hv := (hml.dismissedBy v hv).trans (hnm.dismissedBy v hv)
  addressed v hv huser := (hml.addressed v hv (hnm.sameUser ▸ huser)).trans (hnm.addressed v hv huser)
  sameUser := hml.sameUser.trans hnm.sameUser

/-- The notices of two worlds are the same, but for the read state of a user. -/
def OnlyReadOf (userId : Id) (w w' : World) : Prop :=
  ∀ id, Option.Rel (OnlyOf userId) (w.notices.get id) (w'.notices.get id)

theorem OnlyReadOf.refl (userId : Id) (w : World) : OnlyReadOf userId w w := by
  intro id
  cases w.notices.get id with
  | none => exact .none
  | some n => exact .some (.refl userId n)

theorem OnlyReadOf.trans {w₁ w₂ w₃ : World} (h₁ : OnlyReadOf userId w₁ w₂)
    (h₂ : OnlyReadOf userId w₂ w₃) : OnlyReadOf userId w₁ w₃ := by
  intro id
  have hfirst := h₁ id
  have hsecond := h₂ id
  generalize w₁.notices.get id = n₁ at hfirst ⊢
  generalize w₂.notices.get id = n₂ at hfirst hsecond
  generalize w₃.notices.get id = n₃ at hsecond ⊢
  cases hfirst with
  | none => exact hsecond
  | some hnm =>
    cases hsecond with
    | some hml => exact .some (hnm.trans hml)

/-- An update of a user's notices that adds or takes out that user alone. -/
structure UpdatesOnly (userId : Id) (f : NoticeFilter) (u : NoticeChanges) : Prop where
  ofUser : IsOfUser userId f
  change : u.dismissedBy = some (.addToSet (some userId)) ∨ u.dismissedBy = some (.pull userId)

theorem UpdatesOnly.onlyOf (hu : UpdatesOnly userId f u) (hmatch : f.matches n = true) :
    OnlyOf userId n (n.apply u) where
  dismissedBy v hv := by
    obtain hadd | hpull := hu.change
    · simp only [Notice.apply, hadd, Option.map_some, Option.getD_some, DismissedChange.apply]
      split_ifs
      · rfl
      · simp [hv]
    · simp [Notice.apply, hpull, DismissedChange.apply, hv]
  addressed v hv huser := by
    obtain hsome | hnone := hu.ofUser n hmatch
    · exact absurd (Option.some.inj (huser.symm.trans hsome)) hv
    · rw [huser] at hnone
      cases hnone
  sameUser := rfl

/-- An operation that reads, or updates so. -/
def OnlyOp (userId : Id) : Op → Prop
  | .readClock => True
  | .updateNotice f u | .updateNotices f u => UpdatesOnly userId f u
  | _ => False

theorem rel_map {r : Option Notice} {g : Notice → Notice} (hg : ∀ n ∈ r, OnlyOf userId n (g n)) :
    Option.Rel (OnlyOf userId) r (r.map g) := by
  cases r with
  | none => exact .none
  | some n => exact .some (hg n rfl)

/-- **What such an operation leaves** differs in the read state of the user only. -/
theorem exec_onlyOf {o : Op} (ho : OnlyOp userId o) : OnlyReadOf userId w (exec h o w).2 := by
  cases o with
  | readClock => exact .refl userId w
  | updateNotice f u =>
    simp only [exec]
    split
    · next m hm =>
      intro id
      rw [Table.get_modify]
      split_ifs with hid
      · have hget : w.notices.get m.id = some m :=
          Table.get_eq_some.mpr ⟨List.mem_of_find?_eq_some hm, rfl⟩
        rw [hid, hget]
        have hreach : w.reaches f m = true := List.find?_some hm
        exact .some (ho.onlyOf (Bool.and_eq_true_iff.mp hreach).1)
      · exact OnlyReadOf.refl userId w id
    · exact .refl userId w
  | updateNotices f u =>
    intro id
    simp only [exec, Table.get_mapRows]
    refine rel_map fun n _ => ?_
    unfold World.updateIf
    split_ifs with hreach
    · exact ho.onlyOf (Bool.and_eq_true_iff.mp hreach).1
    · exact .refl userId n
  | findDistinctUserIds | insertNotices | getTemplate | findPreferences | findUsersByEmail
  | getProject | getDeletedProject | deleteExpired | passTime => exact ho.elim

theorem updatesOnly_broadcast (hf : IsOfUser userId f) (isRead : Bool) (now : String) :
    UpdatesOnly userId f (broadcastUpdate userId isRead now) :=
  ⟨hf, by cases isRead; exacts [.inr rfl, .inl rfl]⟩

theorem updatesOnly_direct (hf : IsOfUser userId f) (isRead : Bool) (now : String) :
    UpdatesOnly userId f (directUpdate userId isRead now) :=
  ⟨hf, by cases isRead; exacts [.inr rfl, .inl rfl]⟩

theorem calls_reader {c : Call} (hc : c.reader = some userId) :
    (c.service h).Calls (OnlyOp userId) := by
  cases c with
  | setReadStatus pk reader isRead =>
    obtain rfl : reader = userId := Option.some.inj hc
    refine calls_bind ?_ fun _ => calls_ret _
    exact calls_setReadStatus trivial
      (fun now => updatesOnly_broadcast (isOfUser_single pk reader).append isRead now)
      fun now => updatesOnly_direct (isOfUser_single pk reader).append isRead now
  | setReadStatusMany reader isRead =>
    obtain rfl : reader = userId := Option.some.inj hc
    refine calls_bind ?_ fun _ => calls_ret _
    exact calls_setReadStatusMany trivial fun f hf now =>
      ⟨updatesOnly_broadcast hf.append isRead now, updatesOnly_direct hf.append isRead now⟩
  | clearNoticesByReference | publishCustomNotice | createSystemNotice | deleteExpired | passTime =>
    cases hc

/-- **A call that sets a user's read state leaves that of the others alone.** -/
theorem run_onlyReadOf {c : Call} (hc : c.reader = some userId) (w : World) :
    OnlyReadOf userId w (c.run h w) :=
  run_invariant ((calls_reader hc).mono fun _ ho _ hs => hs.trans (exec_onlyOf ho))
    (OnlyReadOf.refl userId w)

/-! ## Sequences of calls -/

/-- **Notices stay valid, and read states are independent**: after every sequence of calls the
stored notices keep the rules of their schema, and each call in it that sets a user's read state
leaves who else has read a notice, and what is addressed to others, as it was. -/
theorem notices_valid_and_independent (h : Host) (calls : List Call) (w : World)
    (hw : ∀ n ∈ w.notices.rows, n.validateRecord = .ok ⟨⟩) :
    (∀ n ∈ (runCalls h calls w).notices.rows, n.validateRecord = .ok ⟨⟩) ∧
      ∀ before c after, calls = before ++ c :: after → ∀ userId, c.reader = some userId →
        ∀ id, Option.Rel (OnlyOf userId) ((runCalls h before w).notices.get id)
          ((runCalls h (before ++ [c]) w).notices.get id) := by
  constructor
  · intro n hn
    have hvalid : AllValid w := fun m hm => validateRecord_eq_ok.mp (hw m hm)
    exact validateRecord_eq_ok.mpr (runCalls_valid calls hvalid n hn)
  · intro before c after _ userId hc id
    have hrun : runCalls h (before ++ [c]) w = c.run h (runCalls h before w) := by
      simp [runCalls]
    rw [hrun]
    exact run_onlyReadOf hc _ id

/-- A host of one instant, whose templates hold no values. -/
def plainHost : Host := ⟨fun _ => "2026-01-01T00:00:00Z", id, id, fun text _ => .ok text⟩

/-- A world with a broadcast, and a notice addressed to a user. -/
def twoNotices : World where
  backend := .sql
  now := 0
  notices := ⟨[{ id := "a", type := .customBroadcast, title := "", body := "", updatedAt := none },
    { id := "b", type := .custom, title := "", body := "", userId := some "0123456789abcdef01234567",
      createdBy := some "1123456789abcdef01234567", refType := some .project, refId := some "p",
      updatedAt := none }], by decide⟩

/-- A user reads the broadcast, then all notices; then a project's are cleared. -/
def readingCalls : List Call :=
  [.setReadStatus "a" "2123456789abcdef01234567" true,
    .setReadStatusMany "0123456789abcdef01234567" true,
    .clearNoticesByReference [(.project, ["p"])]]

theorem notices_valid_and_independent_reading :
    (∀ n ∈ (runCalls plainHost readingCalls twoNotices).notices.rows,
      n.validateRecord = .ok ⟨⟩) ∧
      ∀ before c after, readingCalls = before ++ c :: after → ∀ userId, c.reader = some userId →
        ∀ id, Option.Rel (OnlyOf userId) ((runCalls plainHost before twoNotices).notices.get id)
          ((runCalls plainHost (before ++ [c]) twoNotices).notices.get id) :=
  notices_valid_and_independent plainHost readingCalls twoNotices (by decide)

end Mss.Reads
