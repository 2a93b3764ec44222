import Mss.Lib.Documents
import Mss.Lib.Refusals
import Mss.NamedUsers
import Mss.SameUser

/-!
# Every email given gets its user's id

`getUserEmailIdMap` meets three ways of reading an email without case. The database finds users by
one, `str.lower` is the key of the dictionaries, and the unique index compares a new user with the
stored ones by the third. It gives every email its user's id where these agree on the emails.

* `Answering`, `execReading`: the operations, with the users found in any order.
* `foundUsers`, `recognised`: the users found, and the one whom an email is taken to name.
* `NamesAll`: what naming the users is to do; **`ReadsAlike`**: the condition.
* **`namesAll_iff`**: the one is done exactly if the other holds.
* `own_user_not_recognised`: the database lowers the letters of ASCII only.
-/

namespace Mss

open Atomic Storage Prog

/-! ## Dictionaries -/

namespace Dict

variable {V : Type}

theorem lookup_pair (k : String) (v : V) (k' : String) :
    List.lookup k' [(k, v)] = if k' = k then some v else none := by
  rw [List.lookup_cons, List.lookup_nil]
  by_cases hk : k' = k
  · simp [hk]
  · have hne : (k' == k) = false := by simpa using hk
    simp [hk, hne]

theorem lookup_set (d : Dict V) (k : String) (v : V) (k' : String) :
    (d.set k v).lookup k' = if k' = k then some v else d.lookup k' := by
  by_cases hk : k ∈ d.map Prod.fst
  · have hmap : d.set k v = d.map fun x => (x.1, if x.1 = k then v else x.2) := by
      rw [set, if_pos hk]
      refine List.map_congr_left fun x _ => ?_
      by_cases hx : x.1 = k
      · simp [hx]
      · simp [hx]
    rw [hmap, lookup_map fun name a => if name = k then v else a]
    split_ifs with hk'
    · subst hk'
      obtain ⟨x, hx, rfl⟩ := List.mem_map.mp hk
      cases hlookup : d.lookup x.1 with
      | none =>
        have hne := List.lookup_eq_none_iff.mp hlookup x hx
        simp at hne
      | some a => rfl
    · rw [Option.map_id']
  · rw [set_of_not_mem hk, List.lookup_append, lookup_pair]
    by_cases hk' : k' = k
    · subst hk'
      have hnone : d.lookup k' = none := by
        refine List.lookup_eq_none_iff.mpr fun x hx => ?_
        rw [bne_iff_ne]
        rintro rfl
        exact hk (List.mem_map_of_mem hx)
      simp [hnone]
    · simp [hk']

theorem lookup_update (d : Dict V) (l : List (String × V)) (k : String) :
    (d.update l).lookup k = (l.reverse.lookup k).or (d.lookup k) := by
  induction l generalizing d with
  | nil => rfl
  | cons x l ih =>
    rw [update_cons, ih, lookup_set, List.reverse_cons, List.lookup_append, lookup_pair,
      Option.or_assoc]
    by_cases hk : k = x.1
    · simp [hk]
    · simp [hk]

theorem exists_lookup {d : Dict V} {k : String} (hk : k ∈ d.map Prod.fst) :
    ∃ v, d.lookup k = some v := by
  rw [← Option.isSome_iff_exists, List.lookup_isSome_iff]
  obtain ⟨x, hx, rfl⟩ := List.mem_map.mp hk
  exact ⟨x, hx, by simp⟩

theorem mem_keys_of_lookup {d : Dict V} {k : String} {v : V} (hk : d.lookup k = some v) :
    k ∈ d.map Prod.fst := List.mem_map_of_mem (mem_of_lookup hk)

theorem lookup_map_pair {A : Type} (f : A → String) (v : A → V) (l : List A) (k : String) :
    List.lookup k (l.map fun a => (f a, v a)) = (l.find? fun a => decide (f a = k)).map v := by
  induction l with
  | nil => rfl
  | cons a l ih =>
    rw [List.map_cons, List.lookup_cons, List.find?_cons, ih]
    by_cases hk : f a = k
    · simp [hk]
    · have hne : (k == f a) = false := by simpa using Ne.symm hk
      simp [hk, hne]

end Dict

/-! ## How the database finds users -/

/-- The order in which the database answers the users it finds. -/
structure Answering where
  arrange : List User → List User
  perm : ∀ users, (arrange users).Perm users

variable {P : Type} [ProjectStore P]

section Found

variable (h : Host) (a : Answering) (db : Db P) (emails : List String)

/-- The users whose emails are among those asked for. -/
def foundUsers : List User :=
  a.arrange (db.users.rows.filter fun u =>
    h.collate u.email ∈ emails.map (askedEmail h db.backend))

/-- **The operations**, with the users found in the order in which the database answers them. -/
def execReading (o : Op) (db : Db P) : Resp o × Db P :=
  match o with
  | .findUsersByEmail emails => (foundUsers h a db emails, db)
  | o => exec h o db

/-- The user whom an email is taken to name: the last one found of its lower case. -/
def recognised (email : String) : Option User :=
  (foundUsers h a db emails).reverse.find? fun u => decide (h.lower u.email = h.lower email)

/-- The ids of the users found, by lower email. -/
def foundIds : Dict Id :=
  Dict.update [] ((foundUsers h a db emails).map fun user => (h.lower user.email, user.id))

end Found

/-! ## What naming the users is to do -/

/-- **Every email has its user's id**: emails equal without case have one id, and a user is created
for each such group of emails that has none stored. -/
structure NamesAll (fold : String → String) (emails : List String) (users : List User)
    (ids : Dict Id) (after : List User) : Prop where
  named : ∀ email ∈ emails, ∃ u ∈ after, fold u.email = fold email ∧
    ids.lookup email = some u.id
  shared : ∀ email ∈ emails, ∀ email' ∈ emails, fold email = fold email' →
    ids.lookup email = ids.lookup email'
  created : ∃ new : List User, after = users ++ new ∧
    (new.map fun u => fold u.email).Nodup ∧
    ∀ x, x ∈ new.map (fun u => fold u.email) ↔
      x ∈ emails.map fold ∧ x ∉ users.map fun u => fold u.email

/-- **The readings agree on the emails**: a stored user is recognised by every given email that
equals theirs without case, an email is not taken to name another user, and `str.lower` tells two
given emails apart exactly if they differ without case. -/
structure ReadsAlike (h : Host) (a : Answering) (fold : String → String) (db : Db P)
    (emails : List String) : Prop where
  found : ∀ email ∈ emails, ∀ u ∈ db.users.rows, fold u.email = fold email →
    (recognised h a db emails email).isSome
  same : ∀ email ∈ emails, ∀ u ∈ recognised h a db emails email, fold u.email = fold email
  lower : ∀ email ∈ emails, ∀ email' ∈ emails,
    h.lower email = h.lower email' ↔ fold email = fold email'

/-- The ids generated are those of no stored user, and one for each email. -/
structure FreshIds (g : Generated) (users : List User) (emails : List String) : Prop where
  free : ∀ email ∈ emails, ∀ u ∈ users, u.id ≠ g.userId email
  apart : ∀ email ∈ emails, ∀ email' ∈ emails, g.userId email = g.userId email' → email = email'

/-! ## What the program does -/

section Run

variable (h : Host) (a : Answering) (g : Generated) (db : Db P) (emails : List String)

/-- The users created. -/
def createdUsers : List User := newUsers g (missingEmails h (foundIds h a db emails) emails)

/-- The ids of the users found and created, by lower email. -/
def readIds : Dict Id :=
  withNew g h (foundIds h a db emails) (missingEmails h (foundIds h a db emails) emails)

variable {h a g db emails}

omit [ProjectStore P] in
theorem mem_foundUsers {u : User} (hu : u ∈ foundUsers h a db emails) : u ∈ db.users.rows :=
  (List.mem_filter.mp ((a.perm _).mem_iff.mp hu)).1

omit [ProjectStore P] in
theorem lookup_foundIds (email : String) :
    (foundIds h a db emails).lookup (h.lower email) =
      (recognised h a db emails email).map (·.id) := by
  unfold foundIds recognised
  rw [Dict.lookup_update, ← List.map_reverse, Dict.lookup_map_pair, List.lookup_nil, Option.or_none]

omit [ProjectStore P] in
theorem owner_of_found {k : String} {id : Id} (hk : (foundIds h a db emails).lookup k = some id) :
    ∃ u ∈ db.users.rows, h.lower u.email = k ∧ u.id = id := by
  rcases Dict.mem_update (mem_of_lookup hk) with hnil | hmem
  · exact absurd hnil List.not_mem_nil
  · obtain ⟨u, hu, hpair⟩ := List.mem_map.mp hmem
    cases hpair
    exact ⟨u, mem_foundUsers hu, rfl, rfl⟩

omit [ProjectStore P] in
theorem of_mem_createdUsers {u : User} (hu : u ∈ createdUsers h a g db emails) :
    u.email ∈ emails ∧ u.id = g.userId u.email ∧
      h.lower u.email ∉ (foundIds h a db emails).map Prod.fst := by
  obtain ⟨x, hx, rfl⟩ := List.mem_map.mp hu
  obtain ⟨hlower, hmem, hunknown⟩ := of_mem_missingEmails hx
  exact ⟨hmem, rfl, hlower ▸ hunknown⟩

omit [ProjectStore P] in
theorem lower_createdUsers :
    (createdUsers h a g db emails).map (fun u => h.lower u.email) =
      (missingEmails h (foundIds h a db emails) emails).map Prod.fst := by
  unfold createdUsers newUsers
  rw [List.map_map]
  exact List.map_congr_left fun x hx => (of_mem_missingEmails hx).1.symm

omit [ProjectStore P] in
theorem exists_created {email : String} (hemail : email ∈ emails)
    (hunknown : h.lower email ∉ (foundIds h a db emails).map Prod.fst) :
    ∃ u ∈ createdUsers h a g db emails, h.lower u.email = h.lower email := by
  have hkey : h.lower email ∈
      (missingEmails h (foundIds h a db emails) emails).map Prod.fst := by
    refine Dict.mem_keys_update.mpr (.inr ?_)
    rw [List.map_map]
    refine List.mem_map.mpr ⟨email, List.mem_filter.mpr ⟨hemail, ?_⟩, rfl⟩
    exact decide_eq_true hunknown
  rw [← lower_createdUsers (g := g)] at hkey
  exact List.mem_map.mp hkey

omit [ProjectStore P] in
theorem lookup_readIds (k : String) :
    (readIds h a g db emails).lookup k =
      (((createdUsers h a g db emails).reverse.find? fun u =>
        decide (h.lower u.email = k)).map (·.id)).or ((foundIds h a db emails).lookup k) := by
  unfold readIds withNew
  rw [Dict.lookup_update, ← List.map_reverse, Dict.lookup_map_pair]
  rfl

omit [ProjectStore P] in
theorem lookup_readIds_found {k : String} {id : Id}
    (hk : (foundIds h a db emails).lookup k = some id) :
    (readIds h a g db emails).lookup k = some id := by
  have hnone : ((createdUsers h a g db emails).reverse.find? fun u =>
      decide (h.lower u.email = k)) = none := by
    refine List.find?_eq_none.mpr fun u hu => ?_
    rw [decide_eq_true_eq]
    rintro rfl
    exact (of_mem_createdUsers (List.mem_reverse.mp hu)).2.2 (Dict.mem_keys_of_lookup hk)
  rw [lookup_readIds, hnone, hk]
  rfl

omit [ProjectStore P] in
theorem owner_of_created {k : String} {id : Id}
    (hnone : (foundIds h a db emails).lookup k = none)
    (hk : (readIds h a g db emails).lookup k = some id) :
    ∃ u ∈ createdUsers h a g db emails, h.lower u.email = k ∧ u.id = id := by
  rw [lookup_readIds, hnone, Option.or_none] at hk
  obtain ⟨u, hu, rfl⟩ := Option.map_eq_some_iff.mp hk
  have hlower := List.find?_some hu
  rw [decide_eq_true_eq] at hlower
  exact ⟨u, List.mem_reverse.mp (List.mem_of_find?_eq_some hu), hlower, rfl⟩

omit [ProjectStore P] in
/-- **The ids are of users with these lower emails**, stored before or created. -/
theorem owner_of_read {k : String} {id : Id} (hk : (readIds h a g db emails).lookup k = some id) :
    ∃ u ∈ db.users.rows ++ createdUsers h a g db emails, h.lower u.email = k ∧ u.id = id := by
  cases hfound : (foundIds h a db emails).lookup k with
  | none =>
    obtain ⟨u, hu, hread⟩ := owner_of_created hfound hk
    exact ⟨u, List.mem_append_right _ hu, hread⟩
  | some id' =>
    rw [lookup_readIds_found hfound, Option.some.injEq] at hk
    subst hk
    obtain ⟨u, hu, hread⟩ := owner_of_found hfound
    exact ⟨u, List.mem_append_left _ hu, hread⟩

omit [ProjectStore P] in
theorem exists_read {email : String} (hemail : email ∈ emails) :
    ∃ id, (readIds h a g db emails).lookup (h.lower email) = some id := by
  refine Dict.exists_lookup (Dict.mem_keys_update.mpr ?_)
  by_cases hknown : h.lower email ∈ (foundIds h a db emails).map Prod.fst
  · exact .inl hknown
  · obtain ⟨u, hu, hlower⟩ := exists_created (g := g) hemail hknown
    refine .inr ?_
    rw [List.map_map]
    exact List.mem_map.mpr ⟨u, hu, hlower⟩

theorem lookup_namedIds {d ids : Dict Id} (hids : namedIds h emails d = .ok ids) {email : String}
    (hemail : email ∈ emails) : ids.lookup email = d.lookup (h.lower email) := by
  unfold namedIds at hids
  cases hvalues : emails.mapM fun email => d.get (h.lower email) with
  | error e =>
    rw [hvalues] at hids
    cases hids
  | ok values =>
    rw [hvalues] at hids
    cases hids
    have hforall := forall₂_of_mapM hvalues
    have hkey : email ∈ (Dict.update [] (emails.zip values)).map Prod.fst := by
      refine Dict.mem_keys_update.mpr (.inr ?_)
      rw [List.map_fst_zip hforall.length_eq.le]
      exact hemail
    obtain ⟨id, hid⟩ := Dict.exists_lookup hkey
    rcases Dict.mem_update (mem_of_lookup hid) with hnil | hmem
    · exact absurd hnil List.not_mem_nil
    · have hget : d.get (h.lower email) = .ok id := (List.forall₂_iff_zip.mp hforall).2 hmem
      rw [hid]
      unfold Dict.get at hget
      split at hget
      · rename_i hlookup
        cases hget
        exact hlookup.symm
      · cases hget

theorem exists_namedIds {d : Dict Id}
    (hd : ∀ email ∈ emails, ∃ id, d.lookup (h.lower email) = some id) :
    ∃ ids, namedIds h emails d = .ok ids := by
  have hvalues : ∃ values, emails.mapM (fun email => d.get (h.lower email)) = .ok values := by
    induction emails with
    | nil => exact ⟨[], rfl⟩
    | cons email emails ih =>
      obtain ⟨id, hid⟩ := hd email List.mem_cons_self
      obtain ⟨values, hvalues⟩ := ih fun email' hemail' => hd email' (List.mem_cons_of_mem _ hemail')
      refine ⟨id :: values, ?_⟩
      rw [List.mapM_cons, hvalues, Dict.get, hid]
      rfl
  obtain ⟨values, hvalues⟩ := hvalues
  exact ⟨_, by rw [namedIds, hvalues]; rfl⟩

variable (h a g db emails) in
/-- **What naming the users does**: it finds, creates those missing, and reads the ids off. -/
theorem run_getUserEmailIdMap_reading :
    (getUserEmailIdMap h g emails).run (execReading h a) db =
      ((insertManyUsers h db.backend db.users (createdUsers h a g db emails)).1 >>= fun _ =>
        namedIds h emails (readIds h a g db emails),
        { db with
          users := (insertManyUsers h db.backend db.users (createdUsers h a g db emails)).2 }) := by
  unfold getUserEmailIdMap
  split_ifs with hemails
  · obtain rfl := List.eq_nil_of_length_eq_zero hemails
    rfl
  · rw [perform_bind, run_call]
    have hinsert : ∀ us (db : Db P), execReading h a (.insertUsers us) db =
        exec h (.insertUsers us) db := fun _ _ => rfl
    exact run_nameMissing hinsert g (foundIds h a db emails)
      (missingEmails h (foundIds h a db emails) emails) db

end Run

/-! ## Inserting users who are apart -/

section Insert

variable {h : Host}

theorem insertManyUsers_ok_iff {b : Backend} {t : Table User User.id} {us : List User} :
    (insertManyUsers h b t us).1 = .ok () ↔ (Table.insertInOrder (SharesEmail h) t us).2 = true := by
  unfold insertManyUsers
  rcases Table.insertInOrder (SharesEmail h) t us with ⟨t', inserted⟩
  cases inserted with
  | true => simp
  | false => cases b <;> simp

end Insert

/-! ## Naming all -/

section Names

variable {h : Host} {a : Answering} {fold : String → String} {g : Generated} {db : Db P}
  {emails : List String}

omit [ProjectStore P] in
/-- **The readings agree where every email has its user's id.** -/
theorem readsAlike_of_namesAll {ids : Dict Id} {after : Table User User.id}
    (hids : namedIds h emails (readIds h a g db emails) = .ok ids)
    (hafter : after.rows = db.users.rows ++ createdUsers h a g db emails)
    (hnames : NamesAll fold emails db.users.rows ids after.rows) :
    ReadsAlike h a fold db emails := by
  have heq : ∀ u ∈ after.rows, ∀ v ∈ after.rows, u.id = v.id → u = v := fun u hu v hv =>
    List.inj_on_of_nodup_map after.nodup hu hv
  -- the user named by an email has its lower case
  have hnamed : ∀ email ∈ emails, ∃ u ∈ after.rows, fold u.email = fold email ∧
      h.lower u.email = h.lower email ∧ ids.lookup email = some u.id := by
    intro email hemail
    obtain ⟨u, hu, hfold, hlookup⟩ := hnames.named email hemail
    have hread := (lookup_namedIds hids hemail).symm.trans hlookup
    obtain ⟨v, hv, hlower, hid⟩ := owner_of_read hread
    rw [← hafter] at hv
    obtain rfl := heq v hv u hu hid
    exact ⟨v, hv, hfold, hlower, hlookup⟩
  refine ⟨?_, ?_, ?_⟩
  · intro email hemail w hw hfold
    by_contra hnone
    rw [Option.not_isSome_iff_eq_none] at hnone
    have hunknown : (foundIds h a db emails).lookup (h.lower email) = none := by
      rw [lookup_foundIds, hnone]
      rfl
    obtain ⟨u, hu, hfold', -, hlookup⟩ := hnamed email hemail
    have hread := (lookup_namedIds hids hemail).symm.trans hlookup
    obtain ⟨v, hv, -, hid⟩ := owner_of_created hunknown hread
    have hv' : v ∈ after.rows := hafter ▸ List.mem_append_right _ hv
    obtain rfl := heq v hv' u hu hid
    -- the user created for the email equals a stored one without case
    obtain ⟨new, hnew, -, hgroups⟩ := hnames.created
    obtain rfl := List.append_cancel_left (hafter.symm.trans hnew)
    refine ((hgroups _).mp (List.mem_map_of_mem hv)).2 ?_
    exact List.mem_map.mpr ⟨w, hw, hfold.trans hfold'.symm⟩
  · intro email hemail v hv
    have hknown : (foundIds h a db emails).lookup (h.lower email) = some v.id := by
      rw [lookup_foundIds, Option.mem_def.mp hv]
      rfl
    obtain ⟨u, hu, hfold, -, hlookup⟩ := hnamed email hemail
    rw [lookup_namedIds hids hemail, lookup_readIds_found hknown, Option.some.injEq] at hlookup
    have hv' : v ∈ after.rows := by
      rw [hafter]
      have hfound : v ∈ foundUsers h a db emails :=
        List.mem_reverse.mp (List.mem_of_find?_eq_some hv)
      exact List.mem_append_left _ (mem_foundUsers hfound)
    rw [heq v hv' u hu hlookup]
    exact hfold
  · intro email hemail email' hemail'
    obtain ⟨u, hu, hfold, hlower, hlookup⟩ := hnamed email hemail
    obtain ⟨u', hu', hfold', hlower', hlookup'⟩ := hnamed email' hemail'
    constructor
    · intro heqLower
      rw [lookup_namedIds hids hemail, heqLower, ← lookup_namedIds hids hemail', hlookup',
        Option.some.injEq] at hlookup
      obtain rfl := heq u hu u' hu' hlookup.symm
      exact hfold.symm.trans hfold'
    · intro heqFold
      rw [hnames.shared email hemail email' hemail' heqFold, hlookup', Option.some.injEq]
        at hlookup
      obtain rfl := heq u hu u' hu' hlookup.symm
      exact hlower.symm.trans hlower'

omit [ProjectStore P] in
theorem ReadsAlike.fold_ne_of_created (hreads : ReadsAlike h a fold db emails) {u v : User}
    (hu : u ∈ createdUsers h a g db emails) (hv : v ∈ db.users.rows) :
    fold v.email ≠ fold u.email := by
  intro hfold
  obtain ⟨hmem, -, hunknown⟩ := of_mem_createdUsers hu
  obtain ⟨w, hw⟩ := Option.isSome_iff_exists.mp (hreads.found u.email hmem v hv hfold)
  refine hunknown (Dict.mem_keys_of_lookup (v := w.id) ?_)
  rw [lookup_foundIds, hw]
  rfl

omit [ProjectStore P] in
theorem ReadsAlike.pairwise_created (hreads : ReadsAlike h a fold db emails) :
    (createdUsers h a g db emails).Pairwise fun u v => fold u.email ≠ fold v.email := by
  have hlower : (createdUsers h a g db emails).Pairwise fun u v =>
      h.lower u.email ≠ h.lower v.email := by
    rw [← List.pairwise_map (f := fun u : User => h.lower u.email) (R := (· ≠ ·)),
      lower_createdUsers]
    exact nodup_missingEmails _
  refine hlower.imp_of_mem fun hu hv hne hfold => hne ?_
  exact (hreads.lower _ (of_mem_createdUsers hu).1 _ (of_mem_createdUsers hv).1).mpr hfold

omit [ProjectStore P] in
/-- **Where the readings agree, every user missing is created.** -/
theorem insert_of_readsAlike (hfold : ∀ x y, h.collate x = h.collate y → fold x = fold y)
    (hfresh : FreshIds g db.users.rows emails) (hreads : ReadsAlike h a fold db emails) :
    (insertManyUsers h db.backend db.users (createdUsers h a g db emails)).1 = .ok () := by
  refine insertManyUsers_ok_iff.mpr (Table.insertInOrder_apart (fun u hu v hv => ?_) ?_)
  · obtain ⟨hmem, hid, -⟩ := of_mem_createdUsers hu
    refine ⟨hid ▸ hfresh.free u.email hmem v hv, fun hshares => ?_⟩
    exact hreads.fold_ne_of_created hu hv (hfold _ _ hshares)
  · refine hreads.pairwise_created.imp_of_mem fun {u v} hu hv hne => ⟨fun hids => ?_, ?_⟩
    · obtain ⟨hmem, hid, -⟩ := of_mem_createdUsers hu
      obtain ⟨hmem', hid', -⟩ := of_mem_createdUsers hv
      refine hne (congrArg fold (hfresh.apart _ hmem _ hmem' ?_))
      rw [← hid, ← hid', hids]
    · exact fun hshares => hne (hfold _ _ hshares)

omit [ProjectStore P] in
/-- **Where the readings agree, every email has its user's id.** -/
theorem namesAll_of_readsAlike {ids : Dict Id} {after : List User}
    (hids : namedIds h emails (readIds h a g db emails) = .ok ids)
    (hafter : after = db.users.rows ++ createdUsers h a g db emails)
    (hreads : ReadsAlike h a fold db emails) :
    NamesAll fold emails db.users.rows ids after := by
  subst hafter
  have hnamed : ∀ email ∈ emails, ∃ u ∈ db.users.rows ++ createdUsers h a g db emails,
      fold u.email = fold email ∧ ids.lookup email = some u.id := by
    intro email hemail
    rw [lookup_namedIds hids hemail]
    cases hrec : recognised h a db emails email with
    | some v =>
      have hknown : (foundIds h a db emails).lookup (h.lower email) = some v.id := by
        rw [lookup_foundIds, hrec]
        rfl
      refine ⟨v, List.mem_append_left _ ?_, hreads.same email hemail v hrec,
        lookup_readIds_found hknown⟩
      exact mem_foundUsers (List.mem_reverse.mp (List.mem_of_find?_eq_some hrec))
    | none =>
      have hunknown : (foundIds h a db emails).lookup (h.lower email) = none := by
        rw [lookup_foundIds, hrec]
        rfl
      obtain ⟨id, hid⟩ : ∃ id, (readIds h a g db emails).lookup (h.lower email) = some id :=
        exists_read hemail
      obtain ⟨u, hu, hlower, rfl⟩ := owner_of_created hunknown hid
      refine ⟨u, List.mem_append_right _ hu, ?_, hid⟩
      exact (hreads.lower _ (of_mem_createdUsers hu).1 _ hemail).mp hlower
  refine ⟨hnamed, ?_, createdUsers h a g db emails, rfl, ?_, ?_⟩
  · intro email hemail email' hemail' hfold
    rw [lookup_namedIds hids hemail, lookup_namedIds hids hemail',
      (hreads.lower _ hemail _ hemail').mpr hfold]
  · exact List.pairwise_map.mpr hreads.pairwise_created
  · intro x
    constructor
    · intro hx
      obtain ⟨u, hu, rfl⟩ := List.mem_map.mp hx
      refine ⟨List.mem_map_of_mem (of_mem_createdUsers hu).1, fun hstored => ?_⟩
      obtain ⟨v, hv, hfold⟩ := List.mem_map.mp hstored
      exact hreads.fold_ne_of_created hu hv hfold
    · rintro ⟨hx, hstored⟩
      obtain ⟨email, hemail, rfl⟩ := List.mem_map.mp hx
      have hunknown : h.lower email ∉ (foundIds h a db emails).map Prod.fst := by
        intro hknown
        obtain ⟨id, hid⟩ := Dict.exists_lookup hknown
        rw [lookup_foundIds] at hid
        obtain ⟨v, hv, -⟩ := Option.map_eq_some_iff.mp hid
        refine hstored (List.mem_map.mpr ⟨v, ?_, hreads.same email hemail v hv⟩)
        exact mem_foundUsers (List.mem_reverse.mp (List.mem_of_find?_eq_some hv))
      obtain ⟨u, hu, hlower⟩ := exists_created (g := g) hemail hunknown
      refine List.mem_map.mpr ⟨u, hu, ?_⟩
      exact (hreads.lower _ (of_mem_createdUsers hu).1 _ hemail).mp hlower

variable (h a fold g db emails) in
/-- **Every email given gets its user's id exactly if the readings agree on the emails**, for any
notion of case that takes two emails for one where the database does. -/
theorem namesAll_iff (hfold : ∀ x y, h.collate x = h.collate y → fold x = fold y)
    (hfresh : FreshIds g db.users.rows emails) :
    (∃ ids db', (getUserEmailIdMap h g emails).run (execReading h a) db = (.ok ids, db') ∧
        NamesAll fold emails db.users.rows ids db'.users.rows) ↔
      ReadsAlike h a fold db emails := by
  rw [run_getUserEmailIdMap_reading]
  constructor
  · rintro ⟨ids, db', hrun, hnames⟩
    obtain ⟨hresult, rfl⟩ := Prod.mk.inj hrun
    obtain ⟨⟨⟩, hinsert, hids⟩ := bind_ok hresult
    exact readsAlike_of_namesAll hids (insertManyUsers_ok hinsert) hnames
  · intro hreads
    have hinsert := insert_of_readsAlike hfold hfresh hreads
    have hkeys : ∀ email ∈ emails, ∃ id,
        (readIds h a g db emails).lookup (h.lower email) = some id := fun email => exists_read
    obtain ⟨ids, hids⟩ := exists_namedIds hkeys
    refine ⟨ids, { db with
      users := (insertManyUsers h db.backend db.users (createdUsers h a g db emails)).2 }, ?_,
      namesAll_of_readsAlike hids (insertManyUsers_ok hinsert) hreads⟩
    rw [hinsert, ← hids]
    rfl

omit [ProjectStore P] in
theorem readsAlike_of_agree
    (hlower : ∀ x ∈ emails, ∀ y ∈ emails ++ db.users.rows.map (·.email),
      h.lower y = h.lower x ↔ h.collate y = h.collate x)
    (hasked : ∀ email ∈ emails, ∀ u ∈ db.users.rows,
      h.collate u.email = h.collate email → h.collate u.email = askedEmail h db.backend email) :
    ReadsAlike h a h.collate db emails where
  found email hemail u hu hcollate := by
    have hfound : u ∈ foundUsers h a db emails := by
      refine (a.perm _).mem_iff.mpr (List.mem_filter.mpr ⟨hu, decide_eq_true ?_⟩)
      exact List.mem_map.mpr ⟨email, hemail, (hasked email hemail u hu hcollate).symm⟩
    refine List.find?_isSome.mpr ⟨u, List.mem_reverse.mpr hfound, decide_eq_true ?_⟩
    exact (hlower email hemail _ (List.mem_append_right _ (List.mem_map_of_mem hu))).mpr hcollate
  same email hemail u hu := by
    have hlow := List.find?_some (Option.mem_def.mp hu)
    rw [decide_eq_true_eq] at hlow
    have hfound : u ∈ foundUsers h a db emails :=
      List.mem_reverse.mp (List.mem_of_find?_eq_some hu)
    refine (hlower email hemail _ (List.mem_append_right _ ?_)).mp hlow
    exact List.mem_map_of_mem (mem_foundUsers hfound)
  lower email hemail email' hemail' :=
    hlower email' hemail' email (List.mem_append_left _ hemail)

end Names

/-! ## The database lowers ASCII only -/

/-- A host whose `str.lower` lowers Latin letters, and whose database lowers those of ASCII. -/
def asciiHost : Host where
  lower := SignIns.lowerLatin
  collate := SignIns.lowerAscii
  sha256 _ := ""
  decrypt token := .ok token

/-- The users are answered as they are stored. -/
def inStoredOrder : Answering := ⟨id, fun _ => .refl _⟩

/-- The ids generated are made of the emails. -/
def emailGenerated : Generated where
  id := "project"
  userId email := "user-" ++ email
  token := ""
  now := ""
  nowMicros := 0

/-- An SQL database with one user. -/
def asaDb : Db ProjectDocuments where
  backend := .sql
  projects := .empty
  users := ⟨[{ id := "user-1", email := "Åsa@lab.se" }], by decide⟩

theorem namesAll_iff_bob :
    ∃ ids db', (getUserEmailIdMap asciiHost emailGenerated ["Bob@lab.se", "bob@LAB.se"]).run
        (execReading asciiHost inStoredOrder) asaDb = (.ok ids, db') ∧
      NamesAll asciiHost.collate ["Bob@lab.se", "bob@LAB.se"] asaDb.users.rows ids
        db'.users.rows :=
  (namesAll_iff asciiHost inStoredOrder asciiHost.collate emailGenerated asaDb _ (fun _ _ h => h)
    ⟨by decide +kernel, by decide +kernel⟩).mpr
      (readsAlike_of_agree (by decide +kernel) (by decide +kernel))

/-- **A stored user is not recognised by their own email** where the database lowers the letters of
ASCII only: the users differ without case, and naming the one of them raises. -/
theorem own_user_not_recognised :
    asaDb.users.rows.Pairwise (fun u v =>
        asciiHost.collate u.email ≠ asciiHost.collate v.email) ∧
      (getUserEmailIdMap asciiHost emailGenerated ["Åsa@lab.se"]).run
        (execReading asciiHost inStoredOrder) asaDb = (.error .duplicateKey, asaDb) ∧
      ¬ ∃ ids db', (getUserEmailIdMap asciiHost emailGenerated ["Åsa@lab.se"]).run
          (execReading asciiHost inStoredOrder) asaDb = (.ok ids, db') ∧
        NamesAll asciiHost.collate ["Åsa@lab.se"] asaDb.users.rows ids db'.users.rows := by
  have hinsert : (Table.insertInOrder (SharesEmail asciiHost) asaDb.users
      (createdUsers asciiHost inStoredOrder emailGenerated asaDb ["Åsa@lab.se"])).2 = false := by
    decide +kernel
  have hrun : (getUserEmailIdMap asciiHost emailGenerated ["Åsa@lab.se"]).run
      (execReading asciiHost inStoredOrder) asaDb = (.error .duplicateKey, asaDb) := by
    rw [run_getUserEmailIdMap_reading]
    unfold insertManyUsers
    rcases hall : Table.insertInOrder (SharesEmail asciiHost) asaDb.users
      (createdUsers asciiHost inStoredOrder emailGenerated asaDb ["Åsa@lab.se"]) with ⟨t, inserted⟩
    rw [hall] at hinsert
    obtain rfl : inserted = false := hinsert
    rfl
  refine ⟨by decide, hrun, ?_⟩
  rintro ⟨ids, db', hok, -⟩
  rw [hrun] at hok
  cases hok

end Mss
