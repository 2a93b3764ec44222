import Mathlib.Data.List.Pairwise
import Mss.Ui.TopBanner

/-!
# The announcements in force

The banner compares the texts of timestamps in UTC with that of the local time. A text of a timestamp
is up to that of the local time from the timestamp's turn on, whatever the offset is.

* `Notice.isInForceAt`: whether a notice is in force at an instant; `Notice.ComesBefore`: their order.
* `ShowsInForce`: the banner shows the notices in force, in their order.
* `HasTurned`: a clock's reading has come to the turn of a timestamp; `isInForce_iff`: what the banner
  goes by.
* `comesBefore_of_compare`, `apart_of_ordered`: where the texts are in the order of the starts.
* **`showsInForce_iff`**: when the banner shows the notices in force; `hour_early`: where it does not.
-/

namespace Mss.Ui

open Calendar Collation IsoText

/-! ## What is in force -/

/-- Whether a notice is in force at an instant. -/
def Notice.isInForceAt (now : ℤ) (n : Notice Timestamp) : Bool :=
  (n.startsAt.all fun s => s.instant ≤ (now : ℚ)) && n.expiresAt.all fun e => (now : ℚ) < e.instant

/-- **The order of notices**: by severity, and then by start, where one without a start comes first. -/
def Notice.ComesBefore (a b : Notice Timestamp) : Prop :=
  a.severity < b.severity ∨ a.severity = b.severity ∧
    ∀ s ∈ a.startsAt, ∃ t ∈ b.startsAt, s.instant ≤ t.instant

/-- **What is shown** are the notices in force, in their order. -/
def ShowsInForce (now : ℤ) (notices : List (Notice Timestamp))
    (shown : Option (List (Notice String))) : Prop :=
  ∃ l : List (Notice Timestamp), shown = some (l.map Notice.serialize) ∧
    l.Perm (notices.filter fun n => n.isInForceAt now) ∧ l.Pairwise Notice.ComesBefore

/-- A clock's reading has come to the turn of a timestamp, and has a year of four digits at most. -/
def HasTurned (reading : ℤ) (t : Timestamp) : Prop :=
  t.turn ≤ reading ∧ (dateOf (dayOf reading)).year < 10000

/-! ## What the banner goes by -/

section Texts

variable {browser : Browser} {now : ℤ}

theorem datetimeToZulu_ne_empty (t : Timestamp) : datetimeToZulu t ≠ "" := by
  intro h
  have hlist := congrArg String.toList h
  rw [datetimeToZulu, String.toList_ofList] at hlist
  exact t.text_ne_nil hlist

theorem datetimeToZulu_le_iff (h : browser.IsISO) (t : Timestamp) :
    datetimeToZulu t ≤ browser.toISO now ↔ HasTurned (browser.reading now) t := by
  rw [String.le_iff_toList_le, datetimeToZulu, String.toList_ofList]
  by_cases hyear : HasYear (dayOf (browser.reading now))
  · obtain ⟨sign, rest, hsign, htext⟩ := h.year now hyear
    rw [htext, String.toList_ofList, t.text_le_iff hyear hsign]
    exact (and_iff_left hyear.2).symm
  · obtain ⟨sign, rest, hsign, htext⟩ := h.expanded_year now hyear
    rw [htext, String.toList_ofList]
    refine iff_of_false (t.sign_lt_text hsign rest).not_ge fun hturned => ?_
    exact hyear ⟨t.year_nonneg_of_turn_le hturned.1, hturned.2⟩

/-- **What the banner takes to be in force** has turned to its start, but not to its end. -/
theorem isInForce_iff (h : browser.IsISO) (n : Notice Timestamp) :
    isInForce (browser.toISO now) n.serialize = true ↔
      (∀ s ∈ n.startsAt, HasTurned (browser.reading now) s) ∧
        ∀ e ∈ n.expiresAt, ¬ HasTurned (browser.reading now) e := by
  simp only [isInForce, Notice.serialize_startsAt, Notice.serialize_expiresAt, Bool.and_eq_true,
    Option.all_map, Option.all_eq_true, Bool.or_eq_true, decide_eq_true_eq, datetimeToZulu_ne_empty,
    false_or, ← datetimeToZulu_le_iff h, not_le, Option.mem_def]

end Texts

/-! ## Members of lists -/

theorem iff_of_filter_length {α : Type} {p q : α → Bool} {l : List α}
    (himp : ∀ a ∈ l, p a = true → q a = true)
    (hlength : (l.filter q).length ≤ (l.filter p).length) : ∀ a ∈ l, p a = true ↔ q a = true := by
  have hsame : l.filter p = l.filter q := by
    have hboth : l.filter p = (l.filter q).filter p := by
      rw [List.filter_filter]
      refine List.filter_congr fun a ha => ?_
      rw [Bool.eq_iff_iff, Bool.and_eq_true]
      exact ⟨fun hp => ⟨hp, himp a ha hp⟩, And.left⟩
    have hsub : (l.filter p).Sublist (l.filter q) := hboth ▸ List.filter_sublist
    exact hsub.eq_of_length_le hlength
  intro a ha
  refine ⟨himp a ha, fun hq => ?_⟩
  have hmem : a ∈ l.filter q := List.mem_filter.mpr ⟨ha, hq⟩
  rw [← hsame] at hmem
  exact (List.mem_filter.mp hmem).2

theorem pairwise_or {α : Type} {r : α → α → Prop} {l : List α} (h : l.Pairwise r) {a b : α}
    (ha : a ∈ l) (hb : b ∈ l) (hne : a ≠ b) : r a b ∨ r b a := by
  have hboth : l.Pairwise fun a b => r a b ∨ r b a := h.imp .inl
  have : Std.Symm fun a b => r a b ∨ r b a := ⟨fun _ _ => Or.symm⟩
  exact hboth.forall ha hb hne

/-! ## The order of the banner -/

section Order

variable {κ : Type} [LinearOrder κ] {w : Weights κ} {z : κ} {localeCompare : String → String → ℤ}
variable {a b : Notice Timestamp}

theorem localeCompare_neg (h : Collates w localeCompare) (hz : LastWeight w z) {s t : Timestamp}
    (hlt : w.keys s.text < w.keys t.text) :
    localeCompare (datetimeToZulu s) (datetimeToZulu t) < 0 := by
  refine h.lt _ _ ?_ ?_ ?_
  · rw [datetimeToZulu, String.toList_ofList]
    exact s.covers_text w hz
  · rw [datetimeToZulu, String.toList_ofList]
    exact t.covers_text w hz
  · rwa [datetimeToZulu, datetimeToZulu, String.toList_ofList, String.toList_ofList]

theorem localeCompare_empty (h : Collates w localeCompare) (hz : LastWeight w z) (t : Timestamp) :
    localeCompare "" (datetimeToZulu t) < 0 := by
  have hkeys : [] < w.keys t.text := by
    rw [t.keys_text w hz]
    cases w.keys (timeText t.precision t.instant) with
    | nil => exact List.nil_lt_cons _ _
    | cons k l => exact List.nil_lt_cons _ _
  refine h.lt _ _ (List.forall_mem_nil _) ?_ ?_
  · rw [datetimeToZulu, String.toList_ofList]
    exact t.covers_text w hz
  · rwa [datetimeToZulu, String.toList_ofList, String.toList_ofList]

/-- **Notices are in their order**, unless one's text comes after that of a later one. -/
theorem comesBefore_of_compare (h : Collates w localeCompare) (hz : LastWeight w z)
    (hapart : a.severity = b.severity → ∀ s ∈ a.startsAt, ∀ t ∈ b.startsAt,
      t.instant < s.instant → t.instant + IsoText.step t.precision ≤ s.instant)
    (hle : compareNotices localeCompare a.serialize b.serialize ≤ 0) : a.ComesBefore b := by
  by_cases hseverity : a.severity = b.severity
  · refine .inr ⟨hseverity, fun s hs => ?_⟩
    rw [compareNotices_of_eq hseverity, Notice.serialize_startsAt, Notice.serialize_startsAt,
      Option.mem_def.mp hs, Option.map_some, Option.getD_some] at hle
    cases hb : b.startsAt with
    | none =>
      have hempty := localeCompare_empty h hz s
      rw [hb, Option.map_none, Option.getD_none] at hle
      rw [h.swap] at hempty
      omega
    | some t =>
      rw [hb, Option.map_some, Option.getD_some] at hle
      refine ⟨t, rfl, ?_⟩
      by_contra hlt
      have hneg := localeCompare_neg h hz
        (t.keys_lt_of_step_le w (hapart hseverity s hs t hb (not_le.mp hlt)))
      rw [h.swap] at hneg
      omega
  · rw [compareNotices_of_ne hseverity, Notice.serialize_severity, Notice.serialize_severity] at hle
    exact .inl (lt_of_le_of_ne (sub_nonpos.mp hle) hseverity)

theorem compare_of_lt_step (h : Collates w localeCompare) (hz : LastWeight w z)
    (hseverity : a.severity = b.severity) {s t : Timestamp} (hs : s ∈ a.startsAt)
    (ht : t ∈ b.startsAt) (hlt : s.instant < t.instant)
    (hless : t.instant < s.instant + IsoText.step s.precision) :
    compareNotices localeCompare b.serialize a.serialize < 0 := by
  have hkeys := s.keys_lt_of_lt_step w hz hlt hless
  rw [compareNotices_of_eq hseverity.symm, Notice.serialize_startsAt, Notice.serialize_startsAt,
    Option.mem_def.mp hs, Option.mem_def.mp ht, Option.map_some, Option.map_some, Option.getD_some,
    Option.getD_some]
  exact localeCompare_neg h hz hkeys

theorem isConsistent_compareNotices (h : Collates w localeCompare) :
    IsConsistent (compareNotices localeCompare) :=
  (isConsistent_sub.comap Notice.severity).orElse
    (h.toIsConsistent.comap fun n : Notice String => n.startsAt.getD "")

theorem apart_of_ordered (h : Collates w localeCompare) (hz : LastWeight w z)
    {l : List (Notice Timestamp)} (hordered : l.Pairwise Notice.ComesBefore)
    (hcompare : l.Pairwise fun a b => compareNotices localeCompare a.serialize b.serialize ≤ 0)
    (ha : a ∈ l) (hb : b ∈ l) (hseverity : a.severity = b.severity) {s t : Timestamp}
    (hs : s ∈ a.startsAt) (ht : t ∈ b.startsAt) (hlt : s.instant < t.instant) :
    s.instant + IsoText.step s.precision ≤ t.instant := by
  by_contra hless
  have hneg := compare_of_lt_step h hz hseverity hs ht hlt (not_le.mp hless)
  have hne : a ≠ b := by
    rintro rfl
    obtain rfl := Option.mem_unique hs ht
    exact lt_irrefl _ hlt
  rcases pairwise_or (hordered.and hcompare) ha hb hne with ⟨-, hle⟩ | ⟨hbefore, -⟩
  · -- the texts have the later notice first
    rw [(isConsistent_compareNotices h).swap] at hneg
    exact absurd hle (not_le.mpr hneg)
  · rcases hbefore with hmore | ⟨-, hstarts⟩
    · exact absurd hseverity hmore.ne'
    · obtain ⟨s', hs', hle⟩ := hstarts t ht
      obtain rfl := Option.mem_unique hs hs'
      exact absurd hlt (not_lt.mpr hle)

end Order

/-! ## What the banner shows -/

section Banner

variable {κ : Type} [LinearOrder κ] {w : Weights κ} {z : κ} {localeCompare : String → String → ℤ}
variable {timestamp : String} {notices : List (Notice Timestamp)} {now : ℤ}

theorem exists_bannerNotices (h : Collates w localeCompare) (timestamp : String)
    (notices : List (Notice Timestamp)) : ∃ kept : List (Notice Timestamp),
      bannerNotices localeCompare timestamp (some (notices.map Notice.serialize)) =
        some (kept.map Notice.serialize) ∧
      kept.Perm (notices.filter fun n => isInForce timestamp n.serialize) ∧
      kept.Pairwise fun a b => compareNotices localeCompare a.serialize b.serialize ≤ 0 := by
  refine ⟨_, ?_, sortBy_perm _ _,
    pairwise_sortBy ((isConsistent_compareNotices h).comap Notice.serialize) _⟩
  rw [bannerNotices, Option.map_some, List.filter_map, sortBy_map]
  rfl

theorem iff_isInForce_of_shows {kept l : List (Notice Timestamp)}
    (hkept : kept.Perm (notices.filter fun n => isInForce timestamp n.serialize))
    (hl : l.Perm (notices.filter fun n => n.isInForceAt now))
    (hsame : kept.map Notice.serialize = l.map Notice.serialize) :
    ∀ n ∈ notices, n.isInForceAt now = true ↔ isInForce timestamp n.serialize = true := by
  refine iff_of_filter_length (fun n hn hnow => ?_) ?_
  · have hmem : n.serialize ∈ l.map Notice.serialize :=
      List.mem_map_of_mem (hl.mem_iff.mpr (List.mem_filter.mpr ⟨hn, hnow⟩))
    rw [← hsame] at hmem
    obtain ⟨m, hm, hmn⟩ := List.mem_map.mp hmem
    rw [← hmn]
    exact (List.mem_filter.mp (hkept.mem_iff.mp hm)).2
  · have hlength := congrArg List.length hsame
    rw [List.length_map, List.length_map, hkept.length_eq, hl.length_eq] at hlength
    exact hlength.le

end Banner

/-- **The banner shows the notices in force**, in their order, exactly if

* each notice is in force just when the clock's reading has come to the turn of its start, but not of
  its end, and
* of two in force of one severity, the later one starts a step of the other's start later, or more. -/
theorem showsInForce_iff {browser : Browser} (hISO : browser.IsISO) {κ : Type} [LinearOrder κ]
    {w : Weights κ} {localeCompare : String → String → ℤ} (hcollates : Collates w localeCompare) {z : κ}
    (hz : LastWeight w z) (notices : List (Notice Timestamp)) (now : ℤ) :
    ShowsInForce now notices
        (bannerNotices localeCompare (browser.toISO now) (some (notices.map Notice.serialize))) ↔
      (∀ n ∈ notices, n.isInForceAt now = true ↔
        (∀ s ∈ n.startsAt, HasTurned (browser.reading now) s) ∧
          ∀ e ∈ n.expiresAt, ¬ HasTurned (browser.reading now) e) ∧
      ∀ a ∈ notices, ∀ b ∈ notices, a.isInForceAt now = true → b.isInForceAt now = true →
        a.severity = b.severity → ∀ s ∈ a.startsAt, ∀ t ∈ b.startsAt, s.instant < t.instant →
          s.instant + IsoText.step s.precision ≤ t.instant := by
  obtain ⟨kept, hshown, hkept, hsorted⟩ := exists_bannerNotices hcollates (browser.toISO now) notices
  simp only [hshown, ← isInForce_iff hISO]
  constructor
  · rintro ⟨l, hl, hforce, hordered⟩
    have hsame : kept.map Notice.serialize = l.map Notice.serialize := Option.some_inj.mp hl
    refine ⟨iff_isInForce_of_shows hkept hforce hsame, ?_⟩
    have hcompare : l.Pairwise fun a b =>
        compareNotices localeCompare a.serialize b.serialize ≤ 0 := by
      have hmap : (kept.map Notice.serialize).Pairwise fun a b =>
          compareNotices localeCompare a b ≤ 0 := List.pairwise_map.mpr hsorted
      rw [hsame] at hmap
      exact List.pairwise_map.mp hmap
    have hmem : ∀ n ∈ notices, n.isInForceAt now = true → n ∈ l := fun n hn hnow =>
      hforce.mem_iff.mpr (List.mem_filter.mpr ⟨hn, hnow⟩)
    intro a ha b hb hanow hbnow hseverity s hs t ht hlt
    exact apart_of_ordered hcollates hz hordered hcompare (hmem a ha hanow) (hmem b hb hbnow)
      hseverity hs ht hlt
  · rintro ⟨hsame, hapart⟩
    have hfilter : (notices.filter fun n => isInForce (browser.toISO now) n.serialize) =
        notices.filter fun n => n.isInForceAt now :=
      List.filter_congr fun n hn => by rw [Bool.eq_iff_iff, hsame n hn]
    have hmem : ∀ n ∈ kept, n ∈ notices ∧ n.isInForceAt now = true := by
      intro n hn
      rw [hkept.mem_iff, hfilter] at hn
      exact List.mem_filter.mp hn
    refine ⟨kept, rfl, hfilter ▸ hkept, hsorted.imp_of_mem fun {a b} ha hb hle => ?_⟩
    refine comesBefore_of_compare hcollates hz (fun hseverity s hs t ht => ?_) hle
    exact hapart b (hmem b hb).1 a (hmem a ha).1 (hmem b hb).2 (hmem a ha).2 hseverity.symm t ht s hs

/-! ## Zones of one offset -/

/-- An offset from UTC in hours and minutes. -/
def offsetText (offset : ℤ) : List Char :=
  (if offset < 0 then '-' else '+') :: (Storage.digits 2 (offset.natAbs / 3600000) ++
    ':' :: Storage.digits 2 (offset.natAbs / 60000 % 60))

/-- A browser whose clock is always as far ahead of UTC. -/
def fixedZone (offset : ℤ) : Browser where
  offset _ := offset
  toISO now :=
    let time : ℚ := (now + offset : ℤ)
    let year := (dateOf (dayOf time)).year
    String.ofList <|
      if HasYear (dayOf time) then timeText 5 time ++ offsetText offset
      else (if year < 0 then '-' else '+') ::
        (Storage.digits 6 year.natAbs ++ ((timeText 5 time).drop 4 ++ offsetText offset))

theorem isISO_fixedZone (offset : ℤ) : (fixedZone offset).IsISO where
  year now hyear := by
    refine ⟨_, _, ?_, congrArg String.ofList (if_pos hyear)⟩
    split_ifs <;> simp
  expanded_year now hyear := by
    refine ⟨_, _, ?_, congrArg String.ofList (if_neg hyear)⟩
    split_ifs <;> simp

theorem lastWeight_rootWeights : LastWeight rootWeights 45 where
  single := by
    have hall : ['-', 'T', ':', '.', 'Z'].all rootWeights.isSingle = true := by decide
    exact List.all_eq_true.mp hall
  last := by decide
  digit_lt n hn := by
    simp only [rootWeights]
    omega
  separator_lt := by
    have hcolon : rootWeights.of ':' = some 4 := by decide
    have hpoint : rootWeights.of '.' = some 7 := by decide
    rintro c (rfl | rfl) k hk
    · obtain rfl := Option.mem_unique hcolon hk
      decide
    · obtain rfl := Option.mem_unique hpoint hk
      decide

theorem isWhole_noon : ∃ n : ℤ, (1795089600000 : ℚ) = n * IsoText.step 2 :=
  ⟨1795089600, by norm_num [IsoText.step, radix]⟩

theorem hasYear_noon : HasYear (dayOf 1795089600000) := by decide +kernel

/-- Noon of 2026-11-19, in seconds. -/
def noon : Timestamp where
  precision := 2
  instant := 1795089600000
  isWhole := isWhole_noon
  hasYear := hasYear_noon

/-- A notice from noon on. -/
def fromNoon : Notice Timestamp where
  id := "upgrade"
  severity := 2
  startsAt := some noon

theorem isWhole_eleven : ∃ n : ℤ, (1795086000000 : ℚ) = n * IsoText.step 1 :=
  ⟨29918100, by norm_num [IsoText.step, radix]⟩

theorem hasYear_eleven : HasYear (dayOf 1795086000000) := by decide +kernel

/-- Eleven o'clock of that day, in minutes. -/
def eleven : Timestamp where
  precision := 1
  instant := 1795086000000
  isWhole := isWhole_eleven
  hasYear := hasYear_eleven

/-- A notice of the same severity, from eleven on. -/
def fromEleven : Notice Timestamp where
  id := "outage"
  severity := 2
  startsAt := some eleven

theorem turned_iff {n : Notice Timestamp} {start : Timestamp} (hstart : n.startsAt = some start)
    (hexpires : n.expiresAt = none) {now reading : ℤ} (hnow : n.isInForceAt now = true)
    (hturned : HasTurned reading start) : n.isInForceAt now = true ↔
      (∀ s ∈ n.startsAt, HasTurned reading s) ∧ ∀ e ∈ n.expiresAt, ¬ HasTurned reading e := by
  refine iff_of_true hnow ⟨fun s hs => ?_, fun e he => ?_⟩
  · obtain rfl : start = s := Option.some_inj.mp (hstart.symm.trans hs)
    exact hturned
  · rw [hexpires] at he
    cases he

/-- A clock of UTC shows both half a minute after noon, the one from eleven on first. -/
theorem showsInForce_iff_fromNoon :
    ShowsInForce 1795089630000 [fromNoon, fromEleven]
      (bannerNotices rootCompare ((fixedZone 0).toISO 1795089630000)
        (some [fromNoon.serialize, fromEleven.serialize])) := by
  refine (showsInForce_iff (isISO_fixedZone 0) collates_root lastWeight_rootWeights
    [fromNoon, fromEleven] 1795089630000).mpr ⟨?_, ?_⟩
  · intro n hn
    rcases List.mem_pair.mp hn with rfl | rfl
    · exact turned_iff rfl rfl (by decide +kernel) ⟨by decide +kernel, by decide +kernel⟩
    · exact turned_iff rfl rfl (by decide +kernel) ⟨by decide +kernel, by decide +kernel⟩
  · intro a ha b hb _ _ _ s hs t ht hlt
    rcases List.mem_pair.mp ha with rfl | rfl <;> rcases List.mem_pair.mp hb with rfl | rfl <;>
      obtain rfl := Option.some_inj.mp hs <;> obtain rfl := Option.some_inj.mp ht
    · exact absurd hlt (lt_irrefl _)
    · exact absurd hlt (by norm_num [noon, eleven])
    · norm_num [noon, eleven, IsoText.step, radix]
    · exact absurd hlt (lt_irrefl _)

/-- **It is shown an hour early** where clocks are two hours ahead. -/
theorem hour_early :
    (fixedZone 7200000).IsISO ∧ datetimeToZulu noon = "2026-11-19T12:00:00Z" ∧
      (fixedZone 7200000).toISO 1795086000000 = "2026-11-19T13:00:00.000+02:00" ∧
      ¬ ShowsInForce 1795086000000 [fromNoon] (bannerNotices rootCompare
        ((fixedZone 7200000).toISO 1795086000000) (some [fromNoon.serialize])) := by
  refine ⟨isISO_fixedZone _, by decide +kernel, by decide +kernel, ?_⟩
  rintro ⟨l, hl, hforce, -⟩
  have hnone : [fromNoon].filter (fun n => n.isInForceAt 1795086000000) = [] :=
    List.filter_eq_nil_iff.mpr fun n hn => by
      obtain rfl := List.mem_singleton.mp hn
      decide +kernel
  have hone : (bannerNotices rootCompare ((fixedZone 7200000).toISO 1795086000000)
      (some [fromNoon.serialize])).map List.length = some 1 := by decide +kernel
  rw [hnone] at hforce
  rw [hl, hforce.eq_nil] at hone
  cases hone

end Mss.Ui
