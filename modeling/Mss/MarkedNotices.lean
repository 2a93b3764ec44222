import Mss.Lib.Paging
import Mss.ReadStates

/-!
# Notices that are marked

Marking all of a user's notices is two updates, one of the broadcasts and one of the others; clearing
the notices about something is an update of the broadcasts, then one for each recipient. Whatever the
notices are, the updates come to marking each notice in question once.

* `Marked`: the notices of a test are marked, the others left, and the number is told.
* `Marked.trans`: two markings, of notices apart.
* `isReadBy`, `World.shows`, `findMany`: what a user has read, is shown and finds.
* **`marks_exactly_all`**: all of a user's notices are read, or unread, and only those are changed.
* **`clears_exactly_those`**: the unread notices of some references are cleared, and only those.
-/

namespace Mss.Reads

open Atomic Storage Prog

variable {h : Host} {w w₁ w₂ : World} {n : Notice} {f : NoticeFilter} {userId : Id}

/-! ## Marking -/

/-- **The notices of a test were marked**, so many of them, and the others are as they were. -/
structure Marked (toMark : Notice → Bool) (mark : Notice → Notice) (count : ℕ) (w w' : World) :
    Prop where
  rows : w'.notices.rows = w.notices.rows.map fun n => if toMark n then mark n else n
  count : count = w.notices.rows.countP toMark
  others : w' = { w with notices := w'.notices }

theorem Marked.now {p : Notice → Bool} {mark : Notice → Notice} {k : ℕ}
    (hmarked : Marked p mark k w w₁) : w₁.now = w.now := by
  rw [hmarked.others]

theorem marked_updateNotices {u : NoticeChanges}
    (hchanges : ∀ n, w.reaches f n = true → n.apply u ≠ n) :
    Marked (w.reaches f) (·.apply u) (exec h (.updateNotices f u) w).1 w
      (exec h (.updateNotices f u) w).2 where
  rows := rfl
  count := by
    refine List.countP_congr fun n _ => ?_
    rw [decide_eq_true_eq, World.updateIf]
    split_ifs with hreach
    · exact iff_of_true (hchanges n hreach) hreach
    · exact iff_of_false (fun h => h rfl) hreach
  others := rfl

theorem countP_or_marked {p q : Notice → Bool} {mark : Notice → Notice}
    (hapart : ∀ n, p n = true → q (mark n) = false) (l : List Notice) :
    l.countP (fun n => p n || q n) =
      l.countP p + (l.map fun n => if p n then mark n else n).countP q := by
  induction l with
  | nil => rfl
  | cons n l ih =>
    rw [List.map_cons, List.countP_cons, List.countP_cons, List.countP_cons, ih]
    by_cases hp : p n = true
    · simp only [hp, if_true, hapart n hp, Bool.true_or, Bool.false_eq_true, if_false]
      omega
    · simp only [hp, Bool.false_or, Bool.false_eq_true, if_false]
      omega

/-- **One marking after another**, which leaves what the first has marked alone. -/
theorem Marked.trans {p q : Notice → Bool} {mark mark' : Notice → Notice} {k k' : ℕ}
    (hfirst : Marked p mark k w w₁) (hsecond : Marked q mark' k' w₁ w₂)
    (hapart : ∀ n, p n = true → q (mark n) = false) :
    Marked (fun n => p n || q n) (fun n => if p n then mark n else mark' n) (k + k') w w₂ where
  rows := by
    rw [hsecond.rows, hfirst.rows, List.map_map]
    refine List.map_congr_left fun n _ => ?_
    by_cases hp : p n = true
    · simp only [Function.comp_apply, hp, if_true, hapart n hp, Bool.true_or, Bool.false_eq_true,
        if_false]
    · simp only [Function.comp_apply, hp, if_false, Bool.false_or, Bool.false_eq_true]
  count := by rw [hfirst.count, hsecond.count, hfirst.rows, countP_or_marked hapart]
  others := by rw [hsecond.others, hfirst.others]

theorem Marked.congr {p q : Notice → Bool} {mark mark' : Notice → Notice} {k : ℕ}
    (hmarked : Marked p mark k w w₁) (htest : ∀ n ∈ w.notices.rows, p n = q n)
    (hmark : ∀ n, q n = true → mark n = mark' n) : Marked q mark' k w w₁ where
  rows := by
    refine hmarked.rows.trans (List.map_congr_left fun n hn => ?_)
    rw [htest n hn]
    split_ifs with hq
    · exact hmark n hq
    · rfl
  count := hmarked.count.trans (List.countP_congr fun n hn => by rw [htest n hn])
  others := hmarked.others

theorem Marked.refl (mark : Notice → Notice) (w : World) :
    Marked (fun _ => false) mark 0 w w where
  rows := by simp
  count := by simp
  others := rfl

theorem Marked.eq_self {p : Notice → Bool} {mark : Notice → Notice} {k : ℕ}
    (hmarked : Marked p mark k w w₁) (hnone : ∀ n ∈ w.notices.rows, p n = false) :
    k = 0 ∧ w₁ = w := by
  have hrows : w₁.notices.rows = w.notices.rows := by
    rw [hmarked.rows]
    refine (List.map_congr_left fun n hn => ?_).trans (List.map_id _)
    rw [hnone n hn, if_neg Bool.false_ne_true, id]
  have htable : w₁.notices = w.notices := by
    cases h₁ : w₁.notices
    cases h : w.notices
    simpa [h₁, h] using hrows
  refine ⟨hmarked.count.trans (List.countP_eq_zero.mpr fun n hn => ?_), ?_⟩
  · rw [hnone n hn]
    exact Bool.false_ne_true
  · rw [hmarked.others, htable]

theorem Marked.get_eq {p : Notice → Bool} {mark : Notice → Notice} {k : ℕ}
    (hmarked : Marked p mark k w w₁) (hid : ∀ n, (mark n).id = n.id) {id : Id}
    (hleft : ∀ n ∈ w.notices.get id, p n = false) : w₁.notices.get id = w.notices.get id := by
  have hkey (n : Notice) : (if p n then mark n else n).id = n.id := by
    split_ifs
    · exact hid n
    · rfl
  have hget : w₁.notices.get id = (w.notices.mapRows _ hkey).get id := by
    unfold Table.get
    rw [hmarked.rows]
    rfl
  rw [hget, Table.get_mapRows]
  cases hstored : w.notices.get id with
  | none => rfl
  | some n =>
    rw [Option.map_some, hleft n hstored, if_neg Bool.false_ne_true]

/-! ## Reading all -/

/-- Whether the notice is a user's, or a broadcast that all share. -/
def Notice.isVisibleTo (userId : Id) (n : Notice) : Bool := [some userId, none].contains n.userId

/-- Whether a user has read the notice. -/
def Notice.isReadBy (userId : Id) (n : Notice) : Bool := userId ∈ n.dismissedBy

/-- Whether a notice is shown to a user. -/
def World.shows (w : World) (userId : Id) (n : Notice) : Bool :=
  n.isVisibleTo userId && n.isUnexpired w.now

/-- Whether a user's read state of a notice is to be changed to another. -/
def World.isToMark (w : World) (userId : Id) (isRead : Bool) (n : Notice) : Bool :=
  w.shows userId n && n.isReadBy userId != isRead

/-- **Get the notices that fit a query**, in some order. -/
def findMany {order : Notice → Notice → Prop} (sorting : Sorting order) (query : NoticeQuery)
    (skip : ℕ) (limit : Option ℕ) (w : World) : List Notice :=
  page skip limit (sorting.run (w.notices.rows.filter (w.reaches (getNoticeFilter query))))

theorem ne_empty_of_isId (hid : isId userId = true) : userId ≠ "" := by
  rintro rfl
  exact absurd hid (by decide)

/-- **What the filter of a query of a user's read states asks**: that the notice is the user's, and
its read state. -/
theorem of_matches_query {query : NoticeQuery} {isRead : Bool} (hid : isId userId = true)
    (huser : query.userId = some userId) (hread : query.isRead = some isRead)
    (hmatch : NoticeFilter.matches (getNoticeFilter query) n = true) :
    n.isVisibleTo userId = true ∧ n.isReadBy userId = isRead := by
  have htruthy : isTruthy query.userId = true := by
    simp [huser, isTruthy, ne_empty_of_isId hid]
  have hmem (c : NoticeCondition) (hc : c ∈ getNoticeFilter query) : c.matches n = true :=
    List.all_eq_true.mp hmatch c hc
  constructor
  · have huserIn := hmem (.userIn [query.userId, none]) (by simp [getNoticeFilter, htruthy])
    rw [huser] at huserIn
    simpa [NoticeCondition.matches, Notice.isVisibleTo] using huserIn
  · cases isRead with
    | true =>
      have hdismissed := hmem (.dismissedBy query.userId) (by simp [getNoticeFilter, hread])
      simpa [NoticeCondition.matches, huser, Notice.isReadBy] using hdismissed
    | false =>
      have hdismissed := hmem (.notDismissedBy query.userId) (by simp [getNoticeFilter, hread])
      simpa [NoticeCondition.matches, huser, Notice.isReadBy] using hdismissed

/-- The filter of a user's notices of one read state. -/
def readStateFilter (userId : Id) (isRead : Bool) : NoticeFilter :=
  getNoticeFilter { userId := some userId, shouldIncludeDismissed := true, isRead := some isRead }

theorem matches_readStateFilter (hid : isId userId = true) (isRead : Bool) :
    NoticeFilter.matches (readStateFilter userId (!isRead)) n = true ↔
      n.isVisibleTo userId = true ∧ n.isReadBy userId ≠ isRead := by
  refine ⟨fun hmatch => ?_, fun ⟨hvisible, hread⟩ => ?_⟩
  · obtain ⟨hvisible, hread⟩ := of_matches_query hid rfl rfl hmatch
    exact ⟨hvisible, by rw [hread]; simp⟩
  · have htruthy : isTruthy (some userId) = true := by simp [isTruthy, ne_empty_of_isId hid]
    have huser : n.userId = some userId ∨ n.userId = none := by
      simpa [Notice.isVisibleTo] using hvisible
    cases isRead <;>
      simp_all [readStateFilter, getNoticeFilter, NoticeFilter.matches, NoticeCondition.matches,
        Notice.isReadBy]

theorem isReadBy_apply (isRead : Bool) (now : String) (n : Notice) :
    (n.apply (broadcastUpdate userId isRead now)).isReadBy userId = isRead ∧
      (n.apply (directUpdate userId isRead now)).isReadBy userId = isRead := by
  cases isRead
  · simp [Notice.isReadBy, Notice.apply, broadcastUpdate, directUpdate, DismissedChange.apply]
  · by_cases hmem : userId ∈ n.dismissedBy <;>
      simp [Notice.isReadBy, Notice.apply, broadcastUpdate, directUpdate, DismissedChange.apply, hmem]

/-- What reading, or unreading, all makes of a notice in question. -/
def Notice.marked (userId : Id) (isRead : Bool) (now : String) (n : Notice) : Notice :=
  if n.type = .customBroadcast then n.apply (broadcastUpdate userId isRead now)
  else n.apply (directUpdate userId isRead now)

theorem Notice.id_marked (userId : Id) (isRead : Bool) (now : String) (n : Notice) :
    (n.marked userId isRead now).id = n.id := by
  unfold marked
  split_ifs <;> rfl

theorem Notice.isReadBy_marked (isRead : Bool) (now : String) (n : Notice) :
    (n.marked userId isRead now).isReadBy userId = isRead := by
  unfold marked
  split_ifs
  · exact (isReadBy_apply isRead now n).1
  · exact (isReadBy_apply isRead now n).2

theorem reaches_readStateFilter (hid : isId userId = true) (isRead : Bool) (c : NoticeCondition) :
    w.reaches (readStateFilter userId (!isRead) ++ [c]) n =
      (w.isToMark userId isRead n && c.matches n) := by
  rw [Bool.eq_iff_iff, World.reaches, Bool.and_eq_true, matches_append, matches_singleton,
    matches_readStateFilter hid, Bool.and_eq_true, World.isToMark, World.shows]
  simp only [Bool.and_eq_true, bne_iff_ne, ne_eq]
  tauto

theorem apply_ne_of_isReadBy {u : NoticeChanges} {isRead : Bool} (hn : n.isReadBy userId ≠ isRead)
    (hu : (n.apply u).isReadBy userId = isRead) : n.apply u ≠ n :=
  fun heq => hn (by rw [← heq, hu])

/-- **Setting the read states of all of a user's notices** marks those whose state is another. -/
theorem run_setReadStatusMany (h : Host) (w : World) (hid : isId userId = true) (isRead : Bool) :
    ∃ w', (setReadStatusMany h userId isRead).run (exec h) w =
        (.ok (w.notices.rows.countP (w.isToMark userId isRead)), w') ∧
      Marked (w.isToMark userId isRead) (Notice.marked userId isRead (h.datetimeToZulu w.now))
        (w.notices.rows.countP (w.isToMark userId isRead)) w w' := by
  let now := h.datetimeToZulu w.now
  let filter := readStateFilter userId (!isRead)
  have hto (c : NoticeCondition) (w : World) (n : Notice) :
      w.reaches (filter ++ [c]) n = true → n.isReadBy userId ≠ isRead := by
    rw [reaches_readStateFilter hid, Bool.and_eq_true, World.isToMark, Bool.and_eq_true]
    exact fun hreach => bne_iff_ne.mp hreach.1.2
  have hbroadcast := marked_updateNotices (h := h) (w := w) (f := filter ++ [.type .customBroadcast])
    (u := broadcastUpdate userId isRead now)
    fun n hreach => apply_ne_of_isReadBy (hto _ _ n hreach) (isReadBy_apply isRead now n).1
  have hdirect := marked_updateNotices (h := h)
    (w := (exec h (.updateNotices (filter ++ [.type .customBroadcast])
      (broadcastUpdate userId isRead now)) w).2)
    (f := filter ++ [.typeNot .customBroadcast]) (u := directUpdate userId isRead now)
    fun n hreach => apply_ne_of_isReadBy (hto _ _ n hreach) (isReadBy_apply isRead now n).2
  -- a broadcast that was marked is still a broadcast, which the second update leaves alone
  have hboth := hbroadcast.trans hdirect fun n hreach => by
    rw [reaches_readStateFilter hid, Bool.and_eq_true] at hreach
    rw [reaches_readStateFilter hid, Bool.and_eq_false_iff]
    have htype : n.type = .customBroadcast := by simpa [NoticeCondition.matches] using hreach.2
    exact .inr (by simp [NoticeCondition.matches, Notice.apply, htype])
  have hmarked : Marked (w.isToMark userId isRead) (Notice.marked userId isRead now) _ w _ :=
    hboth.congr (fun n _ => ?_) fun n hn => ?_
  · refine ⟨_, ?_, hmarked.count ▸ hmarked⟩
    rw [setReadStatusMany, if_pos hid, ← hmarked.count]
    rfl
  · change (w.reaches (filter ++ [.type .customBroadcast]) n ||
      w.reaches (filter ++ [.typeNot .customBroadcast]) n) = w.isToMark userId isRead n
    rw [reaches_readStateFilter hid, reaches_readStateFilter hid, ← Bool.and_or_distrib_left]
    by_cases htype : n.type = .customBroadcast <;> simp [NoticeCondition.matches, htype]
  · rw [reaches_readStateFilter hid, hn, Bool.true_and, Notice.marked]
    by_cases htype : n.type = .customBroadcast <;> simp [NoticeCondition.matches, htype]

/-- **Marking all read marks exactly all**: every notice that is shown to the user is read, or unread,
afterwards, so that a search for others finds none; no other notice is changed; what is returned is
the number of notices whose read state was another; and doing it again changes nothing. -/
theorem marks_exactly_all (h : Host) (w : World) (userId : Id) (isRead : Bool)
    (hid : isId userId = true) :
    ∃ w', (setReadStatusMany h userId isRead).run (exec h) w =
        (.ok (w.notices.rows.countP (w.isToMark userId isRead)), w') ∧
      (∀ n ∈ w'.notices.rows, w'.shows userId n = true → n.isReadBy userId = isRead) ∧
      (∀ query : NoticeQuery, query.userId = some userId → query.isRead = some (!isRead) →
        ∀ (order : Notice → Notice → Prop) (sorting : Sorting order) skip limit,
          findMany sorting query skip limit w' = []) ∧
      (∀ id, (∀ n ∈ w.notices.get id, w.isToMark userId isRead n = false) →
        w'.notices.get id = w.notices.get id) ∧
      ∀ later : ℕ, (setReadStatusMany h userId isRead).run (exec h)
          { w' with now := w'.now + later } = (.ok 0, { w' with now := w'.now + later }) := by
  obtain ⟨w', hrun, hmarked⟩ := run_setReadStatusMany h w hid isRead
  have hread : ∀ n ∈ w'.notices.rows, w'.shows userId n = true → n.isReadBy userId = isRead := by
    intro n hn hshown
    rw [hmarked.rows] at hn
    obtain ⟨m, hm, rfl⟩ := List.mem_map.mp hn
    split_ifs at hshown ⊢ with hto
    · exact Notice.isReadBy_marked isRead _ m
    · rw [World.shows, hmarked.now] at hshown
      rw [World.isToMark, World.shows, hshown, Bool.true_and, bne_iff_ne, not_not] at hto
      exact hto
  refine ⟨w', hrun, hread, fun query huser hquery order sorting skip limit => ?_, fun id hleft => ?_,
    fun later => ?_⟩
  · have hnone : w'.notices.rows.filter (w'.reaches (getNoticeFilter query)) = [] := by
      refine List.filter_eq_nil_iff.mpr fun n hn hreach => ?_
      obtain ⟨hmatch, hunexpired⟩ := Bool.and_eq_true_iff.mp hreach
      obtain ⟨hvisible, hstate⟩ := of_matches_query hid huser hquery hmatch
      have := hread n hn (by rw [World.shows, hvisible, hunexpired, Bool.true_and])
      rw [hstate] at this
      cases isRead <;> cases this
    have hsorted : sorting.run [] = [] := List.perm_nil.mp (sorting.perm [])
    rw [findMany, hnone, hsorted]
    cases limit <;> simp [page]
  · exact hmarked.get_eq (Notice.id_marked userId isRead _) hleft
  · obtain ⟨w'', hagain, hmarked'⟩ :=
      run_setReadStatusMany h { w' with now := w'.now + later } hid isRead
    -- what has not expired later has not expired now
    have hnone : ∀ n ∈ w'.notices.rows,
        World.isToMark { w' with now := w'.now + later } userId isRead n = false := by
      intro n hn
      by_contra hto
      rw [Bool.not_eq_false, World.isToMark, World.shows, Bool.and_eq_true, Bool.and_eq_true,
        bne_iff_ne] at hto
      obtain ⟨⟨hvisible, hunexpired⟩, hstate⟩ := hto
      have hnow : n.isUnexpired w'.now = true := by
        unfold Notice.isUnexpired at hunexpired ⊢
        cases hexpires : n.expiresAt with
        | none => rfl
        | some t =>
          simp only [hexpires, Option.all_some, decide_eq_true_eq] at hunexpired ⊢
          omega
      exact hstate (hread n hn (by rw [World.shows, hvisible, hnow, Bool.true_and]))
    obtain ⟨hzero, hsame⟩ := hmarked'.eq_self hnone
    rw [hagain, hzero, hsame]

theorem marks_exactly_all_reading :
    ∃ w', (setReadStatusMany plainHost "0123456789abcdef01234567" true).run (exec plainHost)
          twoNotices =
        (.ok (twoNotices.notices.rows.countP
          (twoNotices.isToMark "0123456789abcdef01234567" true)), w') ∧
      (∀ n ∈ w'.notices.rows, w'.shows "0123456789abcdef01234567" n = true →
        n.isReadBy "0123456789abcdef01234567" = true) ∧
      (∀ query : NoticeQuery, query.userId = some "0123456789abcdef01234567" →
        query.isRead = some (!true) →
        ∀ (order : Notice → Notice → Prop) (sorting : Sorting order) skip limit,
          findMany sorting query skip limit w' = []) ∧
      (∀ id, (∀ n ∈ twoNotices.notices.get id,
          twoNotices.isToMark "0123456789abcdef01234567" true n = false) →
        w'.notices.get id = twoNotices.notices.get id) ∧
      ∀ later : ℕ, (setReadStatusMany plainHost "0123456789abcdef01234567" true).run
          (exec plainHost) { w' with now := w'.now + later } =
        (.ok 0, { w' with now := w'.now + later }) :=
  marks_exactly_all plainHost twoNotices "0123456789abcdef01234567" true (by decide)

/-! ## Clearing -/

/-- Whether a notice is an unread one of some references, and has not expired. -/
def World.isToClear (w : World) (refTypeIdsMap : List (RefType × List Id)) (n : Notice) : Bool :=
  n.readAt = none && (NoticeCondition.refs refTypeIdsMap).matches n && n.isUnexpired w.now

/-- What clearing changes of a broadcast. -/
def broadcastCleared (timestamp : String) (now : ℤ) : NoticeChanges :=
  { expiresAt := some now, updatedAt := timestamp }

/-- What clearing changes of a notice addressed to a user. -/
def directCleared (timestamp : String) (now : ℤ) (userId : Option Id) : NoticeChanges :=
  { dismissedBy := some (.addToSet userId), readAt := some (some timestamp), expiresAt := some now,
    updatedAt := timestamp }

/-- What clearing makes of a notice in question. -/
def Notice.cleared (timestamp : String) (now : ℤ) (n : Notice) : Notice :=
  if n.type = .customBroadcast then n.apply (broadcastCleared timestamp now)
  else n.apply (directCleared timestamp now n.userId)

theorem Notice.id_cleared (timestamp : String) (now : ℤ) (n : Notice) :
    (n.cleared timestamp now).id = n.id := by
  unfold cleared
  split_ifs <;> rfl

theorem isReadBy_directCleared (timestamp : String) (now : ℤ) (n : Notice) (userId : Id) :
    (n.apply (directCleared timestamp now n.userId)).isReadBy userId =
      (n.isReadBy userId || n.userId = some userId) := by
  have hread (n : Notice) : n.isReadBy userId = true ↔ userId ∈ n.dismissedBy := decide_eq_true_iff
  have hdismissed : (n.apply (directCleared timestamp now n.userId)).dismissedBy =
      (DismissedChange.addToSet n.userId).apply n.dismissedBy := rfl
  rw [Bool.eq_iff_iff, hread, hdismissed, Bool.or_eq_true, hread, decide_eq_true_eq]
  cases n.userId with
  | none => simp [DismissedChange.apply]
  | some recipient =>
    rw [DismissedChange.apply, Option.some.injEq]
    split_ifs with hmem
    · refine ⟨.inl, fun hor => hor.elim id ?_⟩
      rintro rfl
      exact hmem
    · rw [List.mem_append, List.mem_singleton, eq_comm (a := userId)]

theorem apply_ne_of_expires {u : NoticeChanges} (hu : u.expiresAt = some w.now)
    (hreach : w.reaches f n = true) : n.apply u ≠ n := by
  intro heq
  have hexpires : n.expiresAt = some w.now := by
    rw [← heq]
    simp [Notice.apply, hu]
  simp [World.reaches, Notice.isUnexpired, hexpires] at hreach

theorem reaches_concat (c : NoticeCondition) :
    w.reaches (f ++ [c]) n = (w.reaches f n && c.matches n) := by
  rw [Bool.eq_iff_iff, World.reaches, World.reaches, Bool.and_eq_true, Bool.and_eq_true,
    Bool.and_eq_true, matches_append, matches_singleton]
  tauto

theorem reaches_of_now (hnow : w₁.now = w.now) : w₁.reaches f = w.reaches f := by
  funext n
  rw [World.reaches, World.reaches, hnow]

theorem markEachRead_cons (f : NoticeFilter) (timestamp : String) (now : ℤ) (userId : Option Id)
    (userIds : List (Option Id)) :
    markEachRead f timestamp now (userId :: userIds) =
      (call (.updateNotices (f ++ [.user userId]) (directCleared timestamp now userId)) >>=
        fun count => markEachRead f timestamp now userIds >>= fun rest => pure (count + rest)) := rfl

/-- **Each recipient's notices are marked in their turn**, and those of no other. -/
theorem run_markEachRead (h : Host) (f : NoticeFilter) (timestamp : String) (w : World)
    (userIds : List (Option Id)) (hnodup : userIds.Nodup) :
    ∃ k w', (markEachRead f timestamp w.now userIds).run (exec h) w = (.ok k, w') ∧
      Marked (fun n => w.reaches f n && decide (n.userId ∈ userIds))
        (fun n => n.apply (directCleared timestamp w.now n.userId)) k w w' := by
  induction userIds generalizing w with
  | nil => exact ⟨0, w, rfl, (Marked.refl id w).congr (by simp) (by simp)⟩
  | cons userId userIds ih =>
    obtain ⟨hnew, hnodup⟩ := List.nodup_cons.mp hnodup
    have hfirst := marked_updateNotices (h := h) (w := w) (f := f ++ [.user userId])
      (u := directCleared timestamp w.now userId) fun n => apply_ne_of_expires rfl
    obtain ⟨k, w', hrun, hrest⟩ := ih _ hnodup
    rw [hfirst.now, reaches_of_now hfirst.now] at hrest
    rw [hfirst.now] at hrun
    have huser (n : Notice) (hreach : w.reaches (f ++ [.user userId]) n = true) :
        n.userId = userId := by
      rw [reaches_concat, Bool.and_eq_true] at hreach
      simpa [NoticeCondition.matches] using hreach.2
    have hboth := hfirst.trans hrest fun n hreach => by
      rw [Bool.and_eq_false_iff, decide_eq_false_iff_not]
      exact .inr (by rwa [show (n.apply _).userId = n.userId from rfl, huser n hreach])
    refine ⟨_, w', ?_, hboth.congr (fun n _ => ?_) fun n hn => ?_⟩
    · rw [markEachRead_cons, perform_bind, run_call, run_bind, hrun]
      rfl
    · rw [reaches_concat, ← Bool.and_or_distrib_left]
      simp [NoticeCondition.matches]
    · split_ifs with hreach
      · rw [huser n hreach]
      · rfl

theorem reaches_unreadRefFilter (refTypeIdsMap : List (RefType × List Id)) (c : NoticeCondition) :
    w.reaches (getUnreadRefFilter refTypeIdsMap w.now ++ [c]) n =
      (w.isToClear refTypeIdsMap n && c.matches n) := by
  rw [reaches_concat]
  congr 1
  have hlater : n.isUnexpired w.now = true → n.expiresAt.all (fun t => w.now ≤ t) = true := by
    cases hexpires : n.expiresAt <;>
      simp +contextual [Notice.isUnexpired, hexpires, le_of_lt]
  cases hunexpired : n.isUnexpired w.now
  · simp [World.reaches, World.isToClear, hunexpired]
  · simp [World.reaches, World.isToClear, hunexpired, hlater hunexpired, getUnreadRefFilter,
      NoticeFilter.matches, NoticeCondition.matches]

theorem run_expireBroadcasts (h : Host) (unread : NoticeFilter) (timestamp : String) (w : World) :
    ∃ k w', (expireBroadcasts unread timestamp w.now).run (exec h) w = (.ok k, w') ∧
      Marked (w.reaches (unread ++ [.type .customBroadcast]))
        (·.apply (broadcastCleared timestamp w.now)) k w w' :=
  ⟨_, _, rfl, marked_updateNotices fun _ => apply_ne_of_expires rfl⟩

theorem run_markDirectNoticesRead (h : Host) (unread : NoticeFilter) (timestamp : String)
    (w : World) :
    ∃ k w', (markDirectNoticesRead unread timestamp w.now).run (exec h) w = (.ok k, w') ∧
      Marked (w.reaches (unread ++ [.typeNot .customBroadcast]))
        (fun n => n.apply (directCleared timestamp w.now n.userId)) k w w' := by
  obtain ⟨k, w', hrun, hmarked⟩ := run_markEachRead h (unread ++ [.typeNot .customBroadcast])
    timestamp w (exec h (.findDistinctUserIds (unread ++ [.typeNot .customBroadcast])) w).1
    (List.nodup_dedup _)
  refine ⟨k, w', hrun, hmarked.congr (fun n hn => ?_) fun n _ => rfl⟩
  rw [Bool.eq_iff_iff, Bool.and_eq_true, decide_eq_true_eq]
  refine and_iff_left_of_imp fun hreach => List.mem_dedup.mpr ?_
  exact List.mem_map_of_mem (List.mem_filter.mpr ⟨hn, hreach⟩)

/-- **Clearing marks the unread notices of the references.** -/
theorem run_clearNoticesByReference (h : Host) (w : World)
    (refTypeIdsMap : List (RefType × List Id)) :
    ∃ w', (clearNoticesByReference h refTypeIdsMap).run (exec h) w =
        (.ok (w.notices.rows.countP (w.isToClear refTypeIdsMap)), w') ∧
      Marked (w.isToClear refTypeIdsMap) (Notice.cleared (h.datetimeToZulu w.now) w.now)
        (w.notices.rows.countP (w.isToClear refTypeIdsMap)) w w' := by
  by_cases hmap : refTypeIdsMap = []
  · have hnone (n : Notice) : w.isToClear refTypeIdsMap n = false := by
      simp [World.isToClear, NoticeCondition.matches, hmap]
    have hmarked : Marked (w.isToClear refTypeIdsMap)
        (Notice.cleared (h.datetimeToZulu w.now) w.now) 0 w w :=
      (Marked.refl id w).congr (fun n _ => (hnone n).symm) fun n hn => by
        rw [hnone] at hn
        cases hn
    refine ⟨w, ?_, hmarked.count ▸ hmarked⟩
    rw [← hmarked.count, clearNoticesByReference, if_pos hmap]
    rfl
  let timestamp := h.datetimeToZulu w.now
  let unread := getUnreadRefFilter refTypeIdsMap w.now
  obtain ⟨k, w₁, hexpire, hbroadcast⟩ := run_expireBroadcasts h unread timestamp w
  obtain ⟨k', w', hmark, hdirect⟩ := run_markDirectNoticesRead h unread timestamp w₁
  rw [hbroadcast.now] at hmark hdirect
  rw [reaches_of_now hbroadcast.now] at hdirect
  have hboth := hbroadcast.trans hdirect fun n hreach => by
    rw [reaches_unreadRefFilter, Bool.and_eq_true] at hreach
    rw [reaches_unreadRefFilter, Bool.and_eq_false_iff]
    have htype : n.type = .customBroadcast := by simpa [NoticeCondition.matches] using hreach.2
    exact .inr (by simp [NoticeCondition.matches, Notice.apply, htype])
  have hmarked : Marked (w.isToClear refTypeIdsMap) (Notice.cleared timestamp w.now) _ w w' :=
    hboth.congr (fun n _ => ?_) fun n hn => ?_
  · refine ⟨w', ?_, hmarked.count ▸ hmarked⟩
    rw [← hmarked.count, clearNoticesByReference, if_neg hmap]
    have hrest : (do
        let count ← expireBroadcasts unread timestamp w.now
        let direct ← markDirectNoticesRead unread timestamp w.now
        return count + direct : Service ℕ).run (exec h) w = (.ok (k + k'), w') := by
      rw [run_bind, hexpire]
      dsimp only
      rw [run_bind, hmark]
      rfl
    exact hrest
  · rw [reaches_unreadRefFilter, reaches_unreadRefFilter, ← Bool.and_or_distrib_left]
    by_cases htype : n.type = .customBroadcast <;> simp [NoticeCondition.matches, htype]
  · rw [reaches_unreadRefFilter, hn, Bool.true_and, Notice.cleared]
    by_cases htype : n.type = .customBroadcast <;> simp [NoticeCondition.matches, htype]

/-- **Clearing by reference clears all and only those**: each unread, unexpired notice of the
references is expired from then on, one addressed to a user is read by them, and nobody else's read
state of it is changed; every other notice is as it was; and what is returned is the number of
notices cleared. -/
theorem clears_exactly_those (h : Host) (w : World) (refTypeIdsMap : List (RefType × List Id)) :
    ∃ w', (clearNoticesByReference h refTypeIdsMap).run (exec h) w =
        (.ok (w.notices.rows.countP (w.isToClear refTypeIdsMap)), w') ∧
      (∀ n ∈ w.notices.rows, w.isToClear refTypeIdsMap n = true → ∃ n' ∈ w'.notices.rows,
        n'.id = n.id ∧ (∀ now, w.now ≤ now → n'.isUnexpired now = false) ∧
        (n.type ≠ .customBroadcast → n'.readAt ≠ none ∧
          ∀ userId, n'.isReadBy userId = (n.isReadBy userId || n.userId = some userId)) ∧
        (n.type = .customBroadcast → n'.dismissedBy = n.dismissedBy ∧ n'.readAt = n.readAt)) ∧
      ∀ id, (∀ n ∈ w.notices.get id, w.isToClear refTypeIdsMap n = false) →
        w'.notices.get id = w.notices.get id := by
  obtain ⟨w', hrun, hmarked⟩ := run_clearNoticesByReference h w refTypeIdsMap
  refine ⟨w', hrun, fun n hn hto => ?_, fun id hleft =>
    hmarked.get_eq (Notice.id_cleared _ _) hleft⟩
  have hmem : n.cleared (h.datetimeToZulu w.now) w.now ∈ w'.notices.rows := by
    rw [hmarked.rows]
    exact List.mem_map.mpr ⟨n, hn, if_pos hto⟩
  refine ⟨_, hmem, Notice.id_cleared _ _ n, fun now hnow => ?_, fun hdirect => ?_, fun hshared => ?_⟩
  · have hexpires : (n.cleared (h.datetimeToZulu w.now) w.now).expiresAt = some w.now := by
      unfold Notice.cleared
      split_ifs <;> rfl
    simp [Notice.isUnexpired, hexpires, hnow]
  · rw [Notice.cleared, if_neg hdirect]
    refine ⟨by simp [Notice.apply, directCleared], fun userId => ?_⟩
    exact isReadBy_directCleared _ _ n userId
  · rw [Notice.cleared, if_pos hshared]
    exact ⟨rfl, rfl⟩

/-- The user of `twoNotices` has a notice about the project, which is cleared with it. -/
example : twoNotices.notices.rows.countP (twoNotices.isToClear [(.project, ["p"])]) = 1 := by decide

end Mss.Reads
