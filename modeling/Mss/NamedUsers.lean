import Mss.Lib.Documents
import Mss.Lib.Refusals
import Mss.Lib.Stops
import Mss.Services.Membership

/-!
# Naming the users again

`getUserEmailIdMap` creates a user for each email that has none. If it stops among them, calling it
again finds those that were created and creates the others, so that the ids are those of one call
that generates, for each user created before, the id that this user has. In SQL the database may
lower an email otherwise than `str.lower` does: then it does not find the user whom it created, and
calling it again fails.

* `Torn`: what an operation leaves when it is stopped in the middle.
* `knownIds`, `newUsers`, `namedIds`: the ids of the users found, the users created, and the ids
  by email; `run_getUserEmailIdMap`.
* `AreFound`: the emails find the users.
* `Names`, `exists_idByLowerEmail`: the id of the user of an email.
* `UsersAdded`, `stops_getUserEmailIdMap`: the first of the new users are stored.
* `Generated.reusing`, **`run_getUserEmailIdMap_again`**: calling it again is calling it once, where
  those created are found; **`run_getUserEmailIdMap_lost`**: where they are not.
-/

namespace Mss

open Atomic Storage Prog

/-! ## Dictionaries -/

namespace Dict

variable {V : Type} {d : Dict V} {k k' : String} {v : V} {l l' : List (String × V)}

theorem update_cons (d : Dict V) (x : String × V) (l : List (String × V)) :
    d.update (x :: l) = (d.set x.1 x.2).update l := rfl

theorem update_append (d : Dict V) (l l' : List (String × V)) :
    d.update (l ++ l') = (d.update l).update l' := List.foldl_append

theorem keys_set_of_mem (hk : k ∈ d.map Prod.fst) (v : V) :
    (d.set k v).map Prod.fst = d.map Prod.fst := by
  rw [set, if_pos hk, List.map_map]
  refine List.map_congr_left fun x _ => ?_
  by_cases hx : x.1 = k
  · simp [hx]
  · simp [hx]

theorem set_of_not_mem (hk : k ∉ d.map Prod.fst) (v : V) : d.set k v = d ++ [(k, v)] := if_neg hk

theorem mem_keys_set : k' ∈ (d.set k v).map Prod.fst ↔ k' ∈ d.map Prod.fst ∨ k' = k := by
  by_cases hk : k ∈ d.map Prod.fst
  · rw [keys_set_of_mem hk]
    refine ⟨.inl, fun h => h.elim id ?_⟩
    rintro rfl
    exact hk
  · rw [set_of_not_mem hk, List.map_append, List.mem_append]
    simp

theorem mem_keys_update :
    k ∈ (d.update l).map Prod.fst ↔ k ∈ d.map Prod.fst ∨ k ∈ l.map Prod.fst := by
  induction l generalizing d with
  | nil => simp [update]
  | cons x l ih => rw [update_cons, ih, mem_keys_set, List.map_cons, List.mem_cons, or_assoc]

theorem nodup_keys_set (hd : (d.map Prod.fst).Nodup) : ((d.set k v).map Prod.fst).Nodup := by
  by_cases hk : k ∈ d.map Prod.fst
  · rw [keys_set_of_mem hk]
    exact hd
  · rw [set_of_not_mem hk, List.map_append, List.nodup_append]
    refine ⟨hd, List.nodup_singleton _, fun a ha b hb => ?_⟩
    rw [List.mem_singleton.mp hb]
    rintro rfl
    exact hk ha

theorem nodup_keys_update (hd : (d.map Prod.fst).Nodup) : ((d.update l).map Prod.fst).Nodup := by
  induction l generalizing d with
  | nil => exact hd
  | cons x l ih => exact ih (nodup_keys_set hd)

theorem mem_set {x : String × V} (hx : x ∈ d.set k v) : x ∈ d ∨ x = (k, v) := by
  unfold set at hx
  split_ifs at hx
  · obtain ⟨y, hy, rfl⟩ := List.mem_map.mp hx
    by_cases hyk : y.1 = k
    · exact .inr (if_pos hyk)
    · rw [if_neg hyk]
      exact .inl hy
  · rw [List.mem_append, List.mem_singleton] at hx
    exact hx

theorem mem_update {x : String × V} (hx : x ∈ d.update l) : x ∈ d ∨ x ∈ l := by
  induction l generalizing d with
  | nil => exact .inl hx
  | cons y l ih =>
    rcases ih hx with hset | hl
    · rcases mem_set hset with hd | rfl
      · exact .inl hd
      · exact .inr List.mem_cons_self
    · exact .inr (List.mem_cons_of_mem _ hl)

theorem filter_set (q : String → Bool) (d : Dict V) (k : String) (v : V) :
    (d.set k v).filter (fun x => q x.1) =
      if q k = true then set (d.filter fun x => q x.1) k v else d.filter fun x => q x.1 := by
  by_cases hk : k ∈ d.map Prod.fst
  · have hkeeps : ∀ x : String × V, q (if x.1 = k then (k, v) else x).1 = q x.1 := by
      intro x
      split_ifs with hx
      · rw [hx]
      · rfl
    rw [set, if_pos hk, List.filter_map]
    simp only [Function.comp_def, hkeeps]
    split_ifs with hq
    · have hmem : k ∈ (d.filter fun x => q x.1).map Prod.fst := by
        obtain ⟨x, hx, rfl⟩ := List.mem_map.mp hk
        exact List.mem_map.mpr ⟨x, List.mem_filter.mpr ⟨hx, hq⟩, rfl⟩
      rw [set, if_pos hmem]
    · -- no key kept is the one set
      refine (List.map_congr_left fun x hx => ?_).trans (List.map_id _)
      refine if_neg ?_
      rintro rfl
      exact hq (List.mem_filter.mp hx).2
  · have hmem : k ∉ (d.filter fun x => q x.1).map Prod.fst := by
      intro h
      obtain ⟨x, hx, rfl⟩ := List.mem_map.mp h
      exact hk (List.mem_map_of_mem (List.mem_filter.mp hx).1)
    rw [set_of_not_mem hk, set_of_not_mem hmem, List.filter_append]
    split_ifs with hq <;> simp [hq]

theorem filter_update (q : String → Bool) (d : Dict V) (l : List (String × V)) :
    (d.update l).filter (fun x => q x.1) =
      update (d.filter fun x => q x.1) (l.filter fun x => q x.1) := by
  induction l generalizing d with
  | nil => rfl
  | cons x l ih =>
    rw [update_cons, ih, filter_set, List.filter_cons]
    split_ifs <;> rfl

theorem filter_not_take (hl : (l.map Prod.fst).Nodup) (n : ℕ) :
    (l.filter fun x => decide (x.1 ∉ (l.take n).map Prod.fst)) = l.drop n := by
  have hsplit : ((l.take n).map Prod.fst ++ (l.drop n).map Prod.fst).Nodup := by
    rw [← List.map_append, List.take_append_drop]
    exact hl
  have hdisjoint := (List.nodup_append.mp hsplit).2.2
  have hfirst : ((l.take n).filter fun x => decide (x.1 ∉ (l.take n).map Prod.fst)) = [] := by
    refine List.filter_eq_nil_iff.mpr fun x hx => ?_
    rw [decide_eq_true_eq, not_not]
    exact List.mem_map_of_mem hx
  have hothers : ((l.drop n).filter fun x => decide (x.1 ∉ (l.take n).map Prod.fst)) =
      l.drop n := by
    refine List.filter_eq_self.mpr fun x hx => ?_
    rw [decide_eq_true_eq]
    exact fun hmem => hdisjoint _ hmem _ (List.mem_map_of_mem hx) rfl
  conv_lhs => rw [← List.take_append_drop n l, List.filter_append]
  rw [List.take_append_drop, hfirst, hothers, List.nil_append]

end Dict

/-! ## Inserting users in order -/

section Insert

variable {h : Host} {t : Table User User.id}

theorem insertManyUsers_ok {b : Backend} {us : List User}
    (hok : (insertManyUsers h b t us).1 = .ok ()) :
    (insertManyUsers h b t us).2.rows = t.rows ++ us := by
  unfold insertManyUsers at hok ⊢
  rcases hinsert : Table.insertInOrder (SharesEmail h) t us with ⟨t', inserted⟩
  rw [hinsert] at hok
  cases inserted with
  | true => exact Table.rows_insertInOrder hinsert
  | false => cases b <;> cases hok

end Insert

/-! ## Whom the emails name -/

variable (h : Host) (b : Backend) (g : Generated) (emails : List String)

/-- The ids of those of the users that the emails find, by lower email. -/
def knownIds (users : List User) : Dict Id :=
  Dict.update [] ((users.filter fun u => h.collate u.email ∈ emails.map (askedEmail h b)).map
    fun user => (h.lower user.email, user.id))

/-- The users created for missing emails. -/
def newUsers (missing : Dict String) : List User :=
  missing.map fun x => { id := g.userId x.2, email := x.2 }

/-- The ids by email, once every email has a user. -/
def namedIds (idByLowerEmail : Dict Id) : Except Exc (Dict Id) :=
  (emails.mapM fun email => idByLowerEmail.get (h.lower email)).map fun ids =>
    Dict.update [] (emails.zip ids)

/-- The emails missing among the users, by lower email. -/
def unknownEmails (users : List User) : Dict String :=
  missingEmails h (knownIds h b emails users) emails

/-- **The emails find the users**: the database compares the email of each with one asked for. It may
not, though the email itself is asked for: in SQL the database and `str.lower` may lower it otherwise. -/
def AreFound (users : List User) : Prop :=
  ∀ u ∈ users, h.collate u.email ∈ emails.map (askedEmail h b)

instance (users : List User) : Decidable (AreFound h b emails users) :=
  inferInstanceAs (Decidable (∀ u ∈ users, h.collate u.email ∈ emails.map (askedEmail h b)))

variable {h b g emails} {users : List User}

theorem missingEmails_eq (idByLowerEmail : Dict Id) :
    missingEmails h idByLowerEmail emails =
      (Dict.update [] (emails.map fun email => (h.lower email, email))).filter fun x =>
        decide (x.1 ∉ idByLowerEmail.map Prod.fst) := by
  rw [missingEmails, Dict.filter_update (fun k => decide (k ∉ idByLowerEmail.map Prod.fst)),
    List.filter_map]
  rfl

theorem missingEmails_of_keys {d d' : Dict Id} {ks : List String}
    (hkeys : ∀ k, k ∈ d'.map Prod.fst ↔ k ∈ d.map Prod.fst ∨ k ∈ ks) :
    missingEmails h d' emails =
      (missingEmails h d emails).filter fun x => decide (x.1 ∉ ks) := by
  rw [missingEmails_eq, missingEmails_eq, List.filter_filter]
  refine List.filter_congr fun x _ => ?_
  simp only [hkeys, not_or, Bool.decide_and]
  exact Bool.and_comm _ _

theorem nodup_missingEmails (idByLowerEmail : Dict Id) :
    ((missingEmails h idByLowerEmail emails).map Prod.fst).Nodup :=
  Dict.nodup_keys_update List.nodup_nil

theorem of_mem_missingEmails {idByLowerEmail : Dict Id} {x : String × String}
    (hx : x ∈ missingEmails h idByLowerEmail emails) :
    x.1 = h.lower x.2 ∧ x.2 ∈ emails ∧ x.1 ∉ idByLowerEmail.map Prod.fst := by
  rcases Dict.mem_update hx with hnil | hmem
  · exact absurd hnil List.not_mem_nil
  · obtain ⟨email, hemail, rfl⟩ := List.mem_map.mp hmem
    rw [List.mem_filter, decide_eq_true_eq] at hemail
    exact ⟨rfl, hemail.1, hemail.2⟩

theorem nodup_unknownEmails : ((unknownEmails h b emails users).map Prod.fst).Nodup :=
  nodup_missingEmails _

theorem of_mem_unknownEmails {x : String × String} (hx : x ∈ unknownEmails h b emails users) :
    x.1 = h.lower x.2 ∧ x.2 ∈ emails ∧ x.1 ∉ (knownIds h b emails users).map Prod.fst :=
  of_mem_missingEmails hx

theorem areFound_mongodb (n : ℕ) :
    AreFound h .mongodb emails (newUsers g ((unknownEmails h .mongodb emails users).take n)) := by
  intro u hu
  obtain ⟨x, hx, rfl⟩ := List.mem_map.mp hu
  exact List.mem_map_of_mem (of_mem_unknownEmails (List.mem_of_mem_take hx)).2.1

theorem knownIds_append (new : List User) (hnew : AreFound h b emails new) :
    knownIds h b emails (users ++ new) =
      (knownIds h b emails users).update (new.map fun user => (h.lower user.email, user.id)) := by
  have hfound : new.filter (fun u => h.collate u.email ∈ emails.map (askedEmail h b)) = new :=
    List.filter_eq_self.mpr fun u hu => decide_eq_true (hnew u hu)
  rw [knownIds, List.filter_append, List.map_append, Dict.update_append, hfound]
  rfl

theorem newUsers_lower (missing : Dict String) (hmissing : ∀ x ∈ missing, x.1 = h.lower x.2) :
    (newUsers g missing).map (fun user => h.lower user.email) = missing.map Prod.fst := by
  rw [newUsers, List.map_map]
  exact List.map_congr_left fun x hx => (hmissing x hx).symm

theorem unknownEmails_append (n : ℕ)
    (hfound : AreFound h b emails (newUsers g ((unknownEmails h b emails users).take n))) :
    unknownEmails h b emails (users ++ newUsers g ((unknownEmails h b emails users).take n)) =
      (unknownEmails h b emails users).drop n := by
  have hkeys : ∀ k, k ∈ (knownIds h b emails
      (users ++ newUsers g ((unknownEmails h b emails users).take n))).map Prod.fst ↔
        k ∈ (knownIds h b emails users).map Prod.fst ∨
        k ∈ ((unknownEmails h b emails users).take n).map Prod.fst := by
    intro k
    rw [knownIds_append _ hfound, Dict.mem_keys_update, List.map_map,
      ← newUsers_lower (g := g) _ fun x hx => (of_mem_unknownEmails (List.mem_of_mem_take hx)).1]
    rfl
  exact (missingEmails_of_keys hkeys).trans (Dict.filter_not_take nodup_unknownEmails n)

theorem mem_unknownEmails_append {new : List User} {x : String × String}
    (hx : x ∈ unknownEmails h b emails users)
    (hlost : ∀ u ∈ new, h.collate u.email ∈ emails.map (askedEmail h b) → h.lower u.email ≠ x.1) :
    x ∈ unknownEmails h b emails (users ++ new) := by
  unfold unknownEmails at hx ⊢
  rw [missingEmails_eq, List.mem_filter, decide_eq_true_eq] at hx ⊢
  refine ⟨hx.1, fun hknown => ?_⟩
  rw [knownIds, List.filter_append, List.map_append, Dict.update_append, Dict.mem_keys_update]
    at hknown
  rcases hknown with hbefore | hnew
  · exact hx.2 hbefore
  · rw [List.map_map] at hnew
    obtain ⟨u, hu, hlower⟩ := List.mem_map.mp hnew
    rw [List.mem_filter, decide_eq_true_eq] at hu
    exact hlost u hu.1 hu.2 hlower

/-! ## The user of an email -/

variable (h) in
/-- A user of the id has the email, in any case. -/
def Names (users : List User) (email : String) (id : Id) : Prop :=
  ∃ u ∈ users, h.lower u.email = h.lower email ∧ u.id = id

theorem Dict.exists_get {V : Type} {d : Dict V} {k : String} (hk : k ∈ d.map Prod.fst) :
    ∃ v, d.get k = .ok v ∧ (k, v) ∈ d := by
  unfold Dict.get
  cases hlookup : d.lookup k with
  | none =>
    obtain ⟨x, hx, rfl⟩ := List.mem_map.mp hk
    have hne := List.lookup_eq_none_iff.mp hlookup x hx
    simp at hne
  | some v => exact ⟨v, rfl, mem_of_lookup hlookup⟩

/-- The ids by email with those of the users created. -/
def withNew (g : Generated) (h : Host) (known : Dict Id) (missing : Dict String) : Dict Id :=
  known.update ((newUsers g missing).map fun user => (h.lower user.email, user.id))

variable (h b g emails users) in
/-- The ids of the users found, and of those created, by lower email. -/
def idsByLowerEmail : Dict Id :=
  withNew g h (knownIds h b emails users) (unknownEmails h b emails users)

/-- Every email has an id, that of a user who was found or is created. -/
theorem exists_idByLowerEmail {email : String} (hemail : email ∈ emails) :
    ∃ id, (idsByLowerEmail h b g emails users).get (h.lower email) = .ok id ∧
      Names h (users ++ newUsers g (unknownEmails h b emails users)) email id := by
  have hkey : h.lower email ∈ (idsByLowerEmail h b g emails users).map Prod.fst := by
    refine Dict.mem_keys_update.mpr ?_
    by_cases hknown : h.lower email ∈ (knownIds h b emails users).map Prod.fst
    · exact .inl hknown
    · have hmissing : h.lower email ∈ (unknownEmails h b emails users).map Prod.fst := by
        refine Dict.mem_keys_update.mpr (.inr ?_)
        rw [List.map_map]
        exact List.mem_map.mpr ⟨email, List.mem_filter.mpr ⟨hemail, decide_eq_true hknown⟩, rfl⟩
      obtain ⟨x, hx, hlower⟩ := List.mem_map.mp hmissing
      refine .inr (List.mem_map.mpr ⟨(h.lower x.2, g.userId x.2), ?_, ?_⟩)
      · exact List.mem_map.mpr ⟨_, List.mem_map_of_mem hx, rfl⟩
      · rw [← hlower, (of_mem_unknownEmails hx).1]
  obtain ⟨id, hid, hmem⟩ := Dict.exists_get hkey
  refine ⟨id, hid, ?_⟩
  rcases Dict.mem_update hmem with hknown | hnew
  · rcases Dict.mem_update hknown with hnil | hfound
    · exact absurd hnil List.not_mem_nil
    · obtain ⟨u, hu, heq⟩ := List.mem_map.mp hfound
      exact ⟨u, List.mem_append_left _ (List.mem_filter.mp hu).1, (Prod.mk.inj heq).1,
        (Prod.mk.inj heq).2⟩
  · obtain ⟨u, hu, heq⟩ := List.mem_map.mp hnew
    exact ⟨u, List.mem_append_right _ hu, (Prod.mk.inj heq).1, (Prod.mk.inj heq).2⟩

theorem get_namedIds {d : Dict Id} (hd : ∀ email ∈ emails, ∃ id, d.get (h.lower email) = .ok id) :
    ∃ emailIdMap, namedIds h emails d = .ok emailIdMap ∧
      ∀ email ∈ emails, emailIdMap.get email = d.get (h.lower email) := by
  have hyields : Yields (fun _ => False) (emails.mapM fun email => d.get (h.lower email))
      (List.Forall₂ (fun email id => d.get (h.lower email) = .ok id) emails) := by
    refine Yields.mapM fun email hemail => ?_
    obtain ⟨id, hid⟩ := hd email hemail
    rw [hid]
    exact Yields.ok rfl
  obtain ⟨ids, hids, hall⟩ := hyields.exists_ok fun _ hfalse => hfalse.elim
  refine ⟨Dict.update [] (emails.zip ids), by rw [namedIds, hids]; rfl, fun email hemail => ?_⟩
  have hkey : email ∈ (Dict.update [] (emails.zip ids)).map Prod.fst := by
    refine Dict.mem_keys_update.mpr (.inr ?_)
    rw [List.map_fst_zip hall.length_eq.le]
    exact hemail
  obtain ⟨id, hid, hmem⟩ := Dict.exists_get hkey
  rcases Dict.mem_update hmem with hnil | hzip
  · exact absurd hnil List.not_mem_nil
  · rw [hid]
    exact (List.forall₂_iff_zip.mp hall |>.2 hzip).symm

/-! ## Generating the ids of users that are stored -/

/-- **The generated values, with the ids of the users stored** for the emails that have one. -/
def Generated.reusing (g : Generated) (users : List User) : Generated :=
  { g with
    userId := fun email =>
      ((users.find? fun u => u.email = email).map (·.id)).getD (g.userId email) }

variable (h b emails users) in
/-- Creating the missing users with the ids of the first ones, which are stored, is storing those
and creating the others. -/
theorem newUsers_reusing (g g' : Generated) (n : ℕ) :
    newUsers (g'.reusing (newUsers g ((unknownEmails h b emails users).take n)))
        (unknownEmails h b emails users) =
      newUsers g ((unknownEmails h b emails users).take n) ++
        newUsers g' ((unknownEmails h b emails users).drop n) := by
  have hfirst : ∀ x ∈ (unknownEmails h b emails users).take n,
      (g'.reusing (newUsers g ((unknownEmails h b emails users).take n))).userId x.2 =
        g.userId x.2 := by
    intro x hx
    simp only [Generated.reusing]
    cases hfind : (newUsers g ((unknownEmails h b emails users).take n)).find?
        (fun u => u.email = x.2) with
    | none =>
      have hne := List.find?_eq_none.mp hfind _ (List.mem_map_of_mem hx)
      simp at hne
    | some u =>
      have hemail := List.find?_some hfind
      obtain ⟨y, -, rfl⟩ := List.mem_map.mp (List.mem_of_find?_eq_some hfind)
      rw [decide_eq_true_eq] at hemail
      simp only at hemail
      simp [hemail]
  have hothers : ∀ x ∈ (unknownEmails h b emails users).drop n,
      (g'.reusing (newUsers g ((unknownEmails h b emails users).take n))).userId x.2 =
        g'.userId x.2 := by
    intro x hx
    have hnone : (newUsers g ((unknownEmails h b emails users).take n)).find?
        (fun u => u.email = x.2) = none := by
      refine List.find?_eq_none.mpr fun u hu => ?_
      obtain ⟨y, hy, rfl⟩ := List.mem_map.mp hu
      rw [decide_eq_true_eq]
      intro hemail
      -- the two would have one key, which is among the first and among the others
      have hsplit : (((unknownEmails h b emails users).take n).map Prod.fst ++
          ((unknownEmails h b emails users).drop n).map Prod.fst).Nodup := by
        rw [← List.map_append, List.take_append_drop]
        exact nodup_unknownEmails
      have hkey : y.1 = x.1 := by
        rw [(of_mem_unknownEmails (List.mem_of_mem_take hy)).1,
          (of_mem_unknownEmails (List.mem_of_mem_drop hx)).1]
        exact congrArg h.lower hemail
      exact (List.nodup_append.mp hsplit).2.2 _ (List.mem_map_of_mem hy) _
        (List.mem_map_of_mem hx) hkey
    simp only [Generated.reusing]
    rw [hnone]
    rfl
  conv_lhs => rw [← List.take_append_drop n (unknownEmails h b emails users)]
  rw [newUsers, List.map_append, List.take_append_drop]
  refine congrArg₂ _ (List.map_congr_left fun x hx => ?_) (List.map_congr_left fun x hx => ?_)
  · rw [hfirst x hx]
  · rw [hothers x hx]

/-! ## Calling it again -/

variable {P : Type} [ProjectStore P]

variable (h) in
/-- **What an operation leaves when it is stopped in the middle**, where that is neither all nor
nothing: MongoDB inserts many users one at a time, and deletes many tokens so. -/
def Torn : Op → Db P → Db P → Prop
  | .insertUsers us, db, db' => db.backend = .mongodb ∧
    ∃ n, db' = { db with users := (Table.insertInOrder (SharesEmail h) db.users (us.take n)).1 }
  | .deleteAppTokens f, db, db' => db.backend = .mongodb ∧
    ∃ p : AppToken → Bool, db' = { db with
      appTokens := db.appTokens.eraseWhere fun t => f.matches t && p t }
  | _, _, _ => False

variable (h emails) in
/-- **The first of the missing users are stored**, in SQL all of them or none, and nothing else is
changed. -/
def UsersAdded (db db' : Db P) : Prop :=
  ∃ g n t, (db.backend = .sql →
      n = 0 ∨ (unknownEmails h db.backend emails db.users.rows).length ≤ n) ∧
    Table.insertInOrder (SharesEmail h) db.users
      (newUsers g ((unknownEmails h db.backend emails db.users.rows).take n)) = (t, true) ∧
    db' = { db with users := t }

/-- The users stored since. -/
def usersSince (db db' : Db P) : List User := db'.users.rows.drop db.users.rows.length

variable {db db' : Db P}

omit [ProjectStore P] in
theorem UsersAdded.refl (db : Db P) : UsersAdded h emails db db :=
  ⟨⟨"", fun _ => "", "", "", 0⟩, 0, db.users, fun _ => .inl rfl, rfl, rfl⟩

omit [ProjectStore P] in
theorem usersSince_eq {t : Table User User.id} {new : List User}
    (hrows : t.rows = db.users.rows ++ new) : usersSince db { db with users := t } = new := by
  rw [usersSince, hrows, List.drop_left]

variable (h emails) in
omit [ProjectStore P] in
theorem usersAdded_insert (g : Generated) (n : ℕ) (hmongo : db.backend = .mongodb) :
    UsersAdded h emails db { db with
      users := (Table.insertInOrder (SharesEmail h) db.users
        ((newUsers g (unknownEmails h db.backend emails db.users.rows)).take n)).1 } := by
  rcases Table.insertInOrder_prefix (SharesEmail h) db.users
    ((newUsers g (unknownEmails h db.backend emails db.users.rows)).take n) with ⟨m, hm, -⟩
  rw [List.take_take, newUsers, ← List.map_take] at hm
  refine ⟨g, min m n, _, fun hsql => ?_, hm, rfl⟩
  rw [hmongo] at hsql
  cases hsql

omit [ProjectStore P] in
theorem usersAdded_insertMany (g : Generated) {b : Backend} {db : Db P} (hb : db.backend = b) :
    UsersAdded h emails db { db with
      users := (insertManyUsers h b db.users
        (newUsers g (unknownEmails h db.backend emails db.users.rows))).2 } := by
  unfold insertManyUsers
  rcases hinsert : Table.insertInOrder (SharesEmail h) db.users
    (newUsers g (unknownEmails h db.backend emails db.users.rows)) with ⟨t, inserted⟩
  cases inserted with
  | true =>
    refine ⟨g, (unknownEmails h db.backend emails db.users.rows).length, t, fun _ => .inr le_rfl,
      ?_, rfl⟩
    rw [List.take_length]
    exact hinsert
  | false =>
    cases b with
    | sql => exact .refl db
    | mongodb =>
      have hall := usersAdded_insert h emails g
        (newUsers g (unknownEmails h db.backend emails db.users.rows)).length hb
      rw [List.take_length, hinsert] at hall
      exact hall

/-- Creating the missing users, which may be none, is inserting them, and the ids are then read off;
so it is for any operations that insert users as these do. -/
theorem run_nameMissing {run : ∀ o : Op, Db P → Resp o × Db P}
    (hrun : ∀ us db, run (.insertUsers us) db = exec h (.insertUsers us) db) (g : Generated)
    (known : Dict Id) (missing : Dict String) (db : Db P) :
    (addMissingUsers h g known missing >>= fun d =>
      ofExcept (emails.mapM fun email => d.get (h.lower email)) >>= fun ids =>
        Prog.ret (Dict.update [] (emails.zip ids))).run run db =
      ((insertManyUsers h db.backend db.users (newUsers g missing)).1 >>= fun _ =>
        namedIds h emails (withNew g h known missing),
        { db with users := (insertManyUsers h db.backend db.users (newUsers g missing)).2 }) := by
  have hadd : (addMissingUsers h g known missing).run run db =
      ((insertManyUsers h db.backend db.users (newUsers g missing)).1.map
          fun _ => withNew g h known missing,
        { db with users := (insertManyUsers h db.backend db.users (newUsers g missing)).2 }) := by
    unfold addMissingUsers
    split_ifs with hmissing
    · obtain rfl := List.eq_nil_of_length_eq_zero hmissing
      rfl
    · simp only [perform_bind, run_call, hrun, exec]
      change ((ofExcept (insertManyUsers h db.backend db.users (newUsers g missing)).1 >>= fun _ =>
        Prog.ret (withNew g h known missing)).run run _) = _
      cases (insertManyUsers h db.backend db.users (newUsers g missing)).1 <;> rfl
  rw [run_bind, hadd]
  cases (insertManyUsers h db.backend db.users (newUsers g missing)).1 with
  | error e => rfl
  | ok _ =>
    simp only [Except.map, namedIds]
    cases emails.mapM fun email => (withNew g h known missing).get (h.lower email) <;> rfl

/-- What naming the users does: it reads, and creates those missing. -/
theorem run_getUserEmailIdMap (hemails : emails ≠ []) (g : Generated) (db : Db P) :
    (getUserEmailIdMap h g emails).run (exec h) db =
      ((insertManyUsers h db.backend db.users
          (newUsers g (unknownEmails h db.backend emails db.users.rows))).1 >>= fun _ =>
        namedIds h emails (withNew g h (knownIds h db.backend emails db.users.rows)
          (unknownEmails h db.backend emails db.users.rows)),
        { db with
          users := (insertManyUsers h db.backend db.users
            (newUsers g (unknownEmails h db.backend emails db.users.rows))).2 }) := by
  have hlength : emails.length ≠ 0 := fun hzero => hemails (List.eq_nil_of_length_eq_zero hzero)
  unfold getUserEmailIdMap
  rw [if_neg hlength, perform_bind, run_call]
  exact run_nameMissing (fun _ _ => rfl) g (knownIds h db.backend emails db.users.rows)
    (unknownEmails h db.backend emails db.users.rows) db

/-- **Naming the users stops** with the first of those missing stored. -/
theorem stops_getUserEmailIdMap {g : Generated} {es : List (Event Resp)}
    (hstop : Stops (exec h) (Torn h) (getUserEmailIdMap h g emails) db es db') :
    UsersAdded h emails db db' := by
  unfold getUserEmailIdMap at hstop
  split_ifs at hstop with hlength
  · obtain ⟨-, rfl⟩ := stops_ret hstop
    exact .refl _
  · rcases stops_call hstop with ⟨-, rfl | htorn⟩ | ⟨es', -, hrest⟩
    · exact .refl _
    · exact htorn.elim
    · change Stops (exec h) (Torn h) (addMissingUsers h g (knownIds h db.backend emails db.users.rows)
        (unknownEmails h db.backend emails db.users.rows) >>= _) db es' db' at hrest
      have hadded : ∀ {es₁ : List (Event Resp)} {db₁ : Db P},
          Stops (exec h) (Torn h) (addMissingUsers h g (knownIds h db.backend emails db.users.rows)
            (unknownEmails h db.backend emails db.users.rows)) db es₁ db₁ → UsersAdded h emails db db₁ := by
        intro es₁ db₁ hadding
        unfold addMissingUsers at hadding
        split_ifs at hadding
        · obtain ⟨-, rfl⟩ := stops_ret hadding
          exact .refl _
        · rcases stops_call hadding with ⟨-, rfl | ⟨hmongo, n, rfl⟩⟩ | ⟨_, -, hdone⟩
          · exact .refl _
          · exact usersAdded_insert h emails g n hmongo
          · have hsame : db₁ = (exec h (.insertUsers (newUsers g
                (unknownEmails h db.backend emails db.users.rows))) db).2 :=
              (stops_of_calls_nothing (calls_bind (calls_ofExcept _) fun _ => calls_ret _) hdone).2
            rw [hsame]
            exact usersAdded_insertMany g rfl
      rcases stops_bind hrest with hfirst | ⟨d, db₁, es₁, es₂, -, hfirst, -, hsecond⟩
      · exact hadded hfirst
      · have hsame : db' = db₁ :=
          (stops_of_calls_nothing (calls_bind (calls_ofExcept _) fun _ => calls_ret _) hsecond).2
        rw [hsame]
        exact hadded hfirst

variable (h emails) in
/-- The ids of the users found, and of those stored since, by lower email. -/
def idsSince (db db' : Db P) : Dict Id :=
  (knownIds h db.backend emails db.users.rows).update
    ((usersSince db db').map fun user => (h.lower user.email, user.id))

/-- **Naming the users again is naming them once**, if those created before are found, with their
ids: the same ids on the same database, or the same error, which changes no more than the users. -/
theorem run_getUserEmailIdMap_again (hemails : emails ≠ []) (hadded : UsersAdded h emails db db')
    (hfound : AreFound h db.backend emails (usersSince db db')) (g : Generated) :
    (getUserEmailIdMap h g emails).run (exec h) db' =
        (getUserEmailIdMap h (g.reusing (usersSince db db')) emails).run (exec h) db ∨
      ∃ e t t', (getUserEmailIdMap h g emails).run (exec h) db' =
          (.error e, { db with users := t' }) ∧
        (getUserEmailIdMap h (g.reusing (usersSince db db')) emails).run (exec h) db =
          (.error e, { db with users := t }) := by
  rcases hadded with ⟨g₀, n, t₀, -, hinserted, rfl⟩
  have hrows := Table.rows_insertInOrder hinserted
  have hnew := newUsers_reusing h db.backend emails db.users.rows g₀ g n
  rw [usersSince_eq hrows] at hfound ⊢
  rw [run_getUserEmailIdMap hemails, run_getUserEmailIdMap hemails]
  have hknown : withNew g h (knownIds h db.backend emails t₀.rows)
      (unknownEmails h db.backend emails t₀.rows) =
        withNew (g.reusing (newUsers g₀ ((unknownEmails h db.backend emails db.users.rows).take n)))
          h (knownIds h db.backend emails db.users.rows)
            (unknownEmails h db.backend emails db.users.rows) := by
    rw [hrows, withNew, withNew, knownIds_append _ hfound, unknownEmails_append n hfound, hnew,
      List.map_append, Dict.update_append]
  have hinsert : Table.insertInOrder (SharesEmail h) db.users (newUsers
      (g.reusing (newUsers g₀ ((unknownEmails h db.backend emails db.users.rows).take n)))
        (unknownEmails h db.backend emails db.users.rows)) =
      Table.insertInOrder (SharesEmail h) t₀
        (newUsers g (unknownEmails h db.backend emails t₀.rows)) := by
    rw [hrows, hnew, unknownEmails_append n hfound, Table.insertInOrder_append hinserted]
  simp only [hknown, insertManyUsers, hinsert]
  rcases Table.insertInOrder (SharesEmail h) t₀
    (newUsers g (unknownEmails h db.backend emails t₀.rows)) with ⟨t, inserted⟩
  cases inserted with
  | true => exact .inl rfl
  | false =>
    cases db.backend with
    | mongodb => exact .inl rfl
    | sql => exact .inr ⟨.duplicateKey, db.users, t₀, rfl, rfl⟩

/-- **Users who are not found cannot be named again**: in SQL they are created once more, which the
unique index on emails refuses, where naming them once gives their ids. -/
theorem run_getUserEmailIdMap_lost (hemails : emails ≠ []) (hadded : UsersAdded h emails db db')
    (hlost : ¬ AreFound h db.backend emails (usersSince db db')) (g : Generated) :
    (getUserEmailIdMap h g emails).run (exec h) db' = (.error .duplicateKey, db') ∧
      (getUserEmailIdMap h (g.reusing (usersSince db db')) emails).run (exec h) db =
        (namedIds h emails (idsSince h emails db db'), db') ∧
      ∀ email ∈ emails, ∃ id, (idsSince h emails db db').get (h.lower email) = .ok id := by
  rcases hadded with ⟨g₀, n, t₀, hsome, hinserted, rfl⟩
  have hrows := Table.rows_insertInOrder hinserted
  -- MongoDB compares emails one way, and finds the users that it created
  have hsql : db.backend = .sql := by
    cases hbackend : db.backend with
    | sql => rfl
    | mongodb =>
      rw [usersSince_eq hrows, hbackend] at hlost
      exact absurd (areFound_mongodb n) hlost
  have hall : (unknownEmails h db.backend emails db.users.rows).length ≤ n := by
    rcases hsome hsql with rfl | hall
    · refine absurd ?_ hlost
      rw [usersSince_eq hrows]
      exact fun u hu => absurd hu List.not_mem_nil
    · exact hall
  rw [List.take_of_length_le hall] at hinserted hrows
  have hnew := newUsers_reusing h db.backend emails db.users.rows g₀ g n
  rw [List.take_of_length_le hall, List.drop_of_length_le hall] at hnew
  have hcreated : newUsers (g.reusing (newUsers g₀ (unknownEmails h db.backend emails
      db.users.rows))) (unknownEmails h db.backend emails db.users.rows) =
        newUsers g₀ (unknownEmails h db.backend emails db.users.rows) :=
    hnew.trans (List.append_nil _)
  rw [idsSince, usersSince_eq hrows]
  rw [usersSince_eq hrows] at hlost
  refine ⟨?_, ?_, fun email hemail => ?_⟩
  · -- the user who is not found is created again
    have hclash : (Table.insertInOrder (SharesEmail h) t₀
        (newUsers g (unknownEmails h db.backend emails t₀.rows))).2 = false := by
      obtain ⟨u, hu, hnot⟩ := not_forall₂.mp hlost
      obtain ⟨x, hx, rfl⟩ := List.mem_map.mp hu
      have hmissing : x ∈ unknownEmails h db.backend emails t₀.rows := by
        rw [hrows]
        refine mem_unknownEmails_append hx fun v hv hasked hlower => hnot ?_
        obtain ⟨y, hy, rfl⟩ := List.mem_map.mp hv
        have hkey : y.1 = x.1 := (of_mem_unknownEmails hy).1.trans hlower
        have hsame : y = x := List.inj_on_of_nodup_map nodup_unknownEmails hy hx hkey
        rw [← hsame]
        exact hasked
      have hstored : ({ id := g₀.userId x.2, email := x.2 } : User) ∈ t₀.rows := by
        rw [hrows]
        exact List.mem_append_right _ hu
      exact Table.insertInOrder_clash hstored (List.mem_map_of_mem hmissing) rfl
    rw [run_getUserEmailIdMap hemails]
    simp only [insertManyUsers]
    rcases hagain : Table.insertInOrder (SharesEmail h) t₀
      (newUsers g (unknownEmails h db.backend emails t₀.rows)) with ⟨t, inserted⟩
    rw [hagain] at hclash
    subst hclash
    rw [hsql]
    rfl
  · rw [run_getUserEmailIdMap hemails, withNew, hcreated]
    simp only [insertManyUsers, hinserted]
    rfl
  · obtain ⟨id, hid, -⟩ := @exists_idByLowerEmail h db.backend
      (g.reusing (newUsers g₀ (unknownEmails h db.backend emails db.users.rows))) emails
      db.users.rows email hemail
    rw [idsByLowerEmail, withNew, hcreated] at hid
    exact ⟨id, hid⟩

end Mss
