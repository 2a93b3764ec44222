import Mss.Services.SignIns

/-!
# An account signs in one user

Sign-ins follow one another, through any providers. An account is linked only where no user has it,
so it stays with the user that the first sign-in gave it to. A user is created only where none is
found by email; where the database does not read two emails alike that are equal without case, it
takes a second user of the email.

* `AccountsApart`, `EmailsApart`, `KeepsAccounts`: what is to hold of the users.
* **`signIn_cases`**: what one sign-in does; `SignIn.renew`, `SignIn.link`, `SignIn.create`.
* `ReadsCase`: the condition on a sign-in that creates a user; `SameUser`: the property of a run.
* **`sameUser_of_readsCase`**: a run of sign-ins that meet the condition.
* `two_of_one_email`: the database lowers the letters of ASCII only.
-/

namespace Mss.SignIns

open Atomic Storage Prog

/-! ## What is to hold -/

/-- No two users hold the same account. -/
def AccountsApart (w : World) : Prop :=
  ∀ u ∈ w.rows, ∀ v ∈ w.rows, ∀ key, u.Has key → v.Has key → u.id = v.id

/-- No two users share an email without case. -/
def EmailsApart (fold : String → String) (w : World) : Prop :=
  ∀ u ∈ w.rows, ∀ v ∈ w.rows, fold u.email = fold v.email → u.id = v.id

instance (fold : String → String) (w : World) : Decidable (EmailsApart fold w) :=
  inferInstanceAs (Decidable (∀ u ∈ _, ∀ v ∈ _, _))

/-- No user loses an account. -/
def KeepsAccounts (w w' : World) : Prop :=
  ∀ u ∈ w.rows, ∃ u' ∈ w'.rows, u'.id = u.id ∧ ∀ key, u.Has key → u'.Has key

/-! ## What one sign-in does -/

/-- The user with the account renewed. -/
def SignIn.renew (s : SignIn) (u : User) : User :=
  u.set (renewed s.providerName s.account.accountId s.values u.oauthAccounts) none

/-- The account that is linked. -/
def SignIn.newAccount (s : SignIn) : OAuthAccount := { s.values with id := s.newAccountId }

/-- The user with the account linked. -/
def SignIn.link (s : SignIn) (u : User) : User :=
  u.set (u.oauthAccounts ++ [s.newAccount]) (some (u.roles ∪ s.roles))

/-- The user that is created with the account. -/
def SignIn.create (s : SignIn) : User where
  id := s.newUserId
  email := s.account.accountEmail
  isVerified := s.provider.isVerifiedByDefault
  oauthAccounts := [s.newAccount]
  roles := {.user} ∪ s.roles

section

variable {s : SignIn} {u : User} {key : String × String}

theorem User.set_id (accounts : List OAuthAccount) (roles : Option (Finset UserRole)) (u : User) :
    (u.set accounts roles).id = u.id := rfl

@[simp] theorem newAccount_key : s.newAccount.key = s.key := rfl

@[simp] theorem renew_id : (s.renew u).id = u.id := rfl
@[simp] theorem renew_email : (s.renew u).email = u.email := rfl
@[simp] theorem link_id : (s.link u).id = u.id := rfl
@[simp] theorem link_email : (s.link u).email = u.email := rfl
@[simp] theorem create_email : s.create.email = s.account.accountEmail := rfl

/-- **Renewing an account** leaves which accounts the user has. -/
@[simp] theorem has_renew : (s.renew u).Has key ↔ u.Has key := by
  have hkey : ∀ a : OAuthAccount, (if a.oauthName = s.providerName ∧
      a.accountId = s.account.accountId then ({ s.values with id := a.id } : OAuthAccount)
      else a).key = a.key := by
    intro a
    split_ifs with h
    · exact Prod.ext h.1.symm h.2.symm
    · rfl
  constructor
  · rintro ⟨a, ha, rfl⟩
    obtain ⟨b, hb, rfl⟩ := List.mem_map.mp ha
    exact ⟨b, hb, (hkey b).symm⟩
  · rintro ⟨a, ha, rfl⟩
    exact ⟨_, List.mem_map_of_mem ha, hkey a⟩

/-- **Linking an account** gives the user that one. -/
@[simp] theorem has_link : (s.link u).Has key ↔ u.Has key ∨ key = s.key := by
  unfold User.Has SignIn.link User.set
  simp [or_and_right, exists_or, eq_comm]

@[simp] theorem has_create : s.create.Has key ↔ key = s.key := by
  simp [User.Has, SignIn.create, eq_comm]

end

variable (db : Db) (fold : String → String)

theorem mem_modify {w : World} {u : User} (hu : u ∈ w.rows) {f : User → User}
    (hf : ∀ r, (f r).id = r.id) {r : User} :
    r ∈ (w.modify u.id f hf).rows ↔ r = f u ∨ (r ∈ w.rows ∧ r.id ≠ u.id) := by
  have hget : w.get u.id = some u := Table.get_eq_some.mpr ⟨hu, rfl⟩
  rw [Table.mem_rows_iff, Table.get_modify]
  split_ifs with hid
  · rw [hget, Option.map_some, Option.some.injEq, eq_comm]
    exact ⟨.inl, fun h => h.resolve_right fun hr => hr.2 hid⟩
  · rw [← Table.mem_rows_iff]
    refine ⟨fun hr => .inr ⟨hr, hid⟩, ?_⟩
    rintro (rfl | hr)
    · exact (hid (hf u)).elim
    · exact hr.1

theorem run_updateUser {w : World} {u : User} (hu : u ∈ w.rows) (accounts : List OAuthAccount)
    (roles : Option (Finset UserRole)) :
    (call (.updateUser u.id accounts roles) >>= ofExcept).run (exec db) w =
        (.error .storage, w) ∨
      (call (.updateUser u.id accounts roles) >>= ofExcept).run (exec db) w =
        (.ok (some (u.set accounts roles)), w.modify u.id (.set accounts roles) fun _ => rfl) := by
  have hget : w.get u.id = some u := Table.get_eq_some.mpr ⟨hu, rfl⟩
  rw [perform_bind, run_call]
  dsimp only [exec]
  rw [hget]
  dsimp only
  split
  · exact .inl rfl
  · exact .inr rfl

theorem run_createOauthUser (w : World) (s : SignIn) :
    (∃ e, (createOauthUser s.account.accountEmail s.provider.isVerifiedByDefault s.values s.roles
      s.newUserId s.newAccountId).run (exec db) w = (.error e, w)) ∨
    ∃ w', w.insert? (SharesEmail db) s.create = some w' ∧
      (createOauthUser s.account.accountEmail s.provider.isVerifiedByDefault s.values s.roles
        s.newUserId s.newAccountId).run (exec db) w = (.ok (some s.create), w') := by
  have hrun : (createOauthUser s.account.accountEmail s.provider.isVerifiedByDefault s.values s.roles
      s.newUserId s.newAccountId).run (exec db) w =
        (ofExcept (exec db (.insertUser s.create) w).1 >>= fun user => Prog.ret (some user)).run
          (exec db) (exec db (.insertUser s.create) w).2 := rfl
  rw [hrun]
  cases hrefuses : db.refuses s.create with
  | true =>
    have hexec : exec db (.insertUser s.create) w = (.error .storage, w) := if_pos hrefuses
    rw [hexec]
    exact .inl ⟨_, rfl⟩
  | false =>
    have hexec : exec db (.insertUser s.create) w =
        if db.refuses s.create then _ else _ := rfl
    rw [if_neg (by simp [hrefuses])] at hexec
    cases hinsert : w.insert? (SharesEmail db) s.create with
    | none =>
      rw [hinsert] at hexec
      rw [hexec]
      exact .inl ⟨_, rfl⟩
    | some w' =>
      rw [hinsert] at hexec
      rw [hexec]
      exact .inr ⟨w', rfl, rfl⟩

/-- **What a sign-in does**: it raises and changes nothing, it renews the account of the user who has
it, it links the account, which no user has, to a user of the email, or it creates a user with it
where none has it or is found by email. -/
theorem signIn_cases (w : World) (s : SignIn) :
    (∃ e, signIn db w s = (.error e, w)) ∨
    (∃ u ∈ w.rows, u.Has s.key ∧
      signIn db w s = (.ok (some (s.renew u)), w.modify u.id (.set (s.renew u).oauthAccounts none)
        fun _ => rfl)) ∨
    (∃ u ∈ w.rows, (∀ v ∈ w.rows, ¬ v.Has s.key) ∧
      signIn db w s = (.ok (some (s.link u)), w.modify u.id
        (.set (s.link u).oauthAccounts (some (u.roles ∪ s.roles))) fun _ => rfl)) ∨
    (∃ w', (∀ v ∈ w.rows, ¬ v.Has s.key) ∧
      (∀ v ∈ w.rows, db.storedEmail v.email ≠ db.askedEmail s.account.accountEmail) ∧
      w.insert? (SharesEmail db) s.create = some w' ∧
      signIn db w s = (.ok (some s.create), w')) := by
  unfold signIn signInWithOauth
  by_cases hmatches : db.matchesStart s.provider.emailRegex s.account.accountEmail = true
  · simp only [hmatches, Bool.not_true, Bool.false_eq_true, if_false]
    unfold getUserByOauthAccount
    rw [perform_bind, run_call]
    dsimp only [exec]
    cases hholder : w.rows.find? fun u => decide (u.Has (s.providerName, s.account.accountId)) with
    | some u =>
      -- the user that holds the account is renewed
      have hu := List.mem_of_find?_eq_some hholder
      have hhas : u.Has s.key := by
        have hfound := List.find?_some hholder
        exact of_decide_eq_true hfound
      rcases run_updateUser db hu (s.renew u).oauthAccounts none with hrun | hrun
      · exact .inl ⟨_, hrun⟩
      · exact .inr (.inl ⟨u, hu, hhas, hrun⟩)
    | none =>
      -- nobody holds the account: the email decides whose it is
      have hnone : ∀ v ∈ w.rows, ¬ v.Has s.key := by
        intro v hv hhas
        simpa using (List.find?_eq_none.mp hholder v hv) (decide_eq_true hhas)
      dsimp only
      unfold getUserByEmail
      rw [perform_bind, run_call]
      dsimp only [exec]
      cases hemail : w.rows.find? fun u =>
          decide (db.storedEmail u.email = db.askedEmail s.account.accountEmail) with
      | some u =>
        have hu := List.mem_of_find?_eq_some hemail
        dsimp only
        cases s.provider.shouldAssociateByEmail with
        | false => exact .inl ⟨_, rfl⟩
        | true =>
          rcases run_updateUser db hu (s.link u).oauthAccounts (some (u.roles ∪ s.roles)) with
            hrun | hrun
          · exact .inl ⟨_, hrun⟩
          · exact .inr (.inr (.inl ⟨u, hu, hnone, hrun⟩))
      | none =>
        have hfree : ∀ v ∈ w.rows,
            db.storedEmail v.email ≠ db.askedEmail s.account.accountEmail := by
          intro v hv
          simpa using List.find?_eq_none.mp hemail v hv
        rcases run_createOauthUser db w s with ⟨e, hrun⟩ | ⟨w', hinsert, hrun⟩
        · exact .inl ⟨e, hrun⟩
        · exact .inr (.inr (.inr ⟨w', hnone, hfree, hinsert, hrun⟩))
  · simp only [hmatches, Bool.not_false, if_true]
    exact .inl ⟨_, rfl⟩

/-! ## What one sign-in keeps -/

variable {db fold} {w w' : World} {s t : SignIn}

theorem KeepsAccounts.refl (w : World) : KeepsAccounts w w := fun u hu => ⟨u, hu, rfl, fun _ => id⟩

theorem KeepsAccounts.trans {w'' : World} (h : KeepsAccounts w w') (h' : KeepsAccounts w' w'') :
    KeepsAccounts w w'' := by
  intro u hu
  obtain ⟨u', hu', hid, hhas⟩ := h u hu
  obtain ⟨u'', hu'', hid', hhas'⟩ := h' u' hu'
  exact ⟨u'', hu'', hid'.trans hid, fun key hkey => hhas' key (hhas key hkey)⟩

theorem keepsAccounts_modify {u : User} (hu : u ∈ w.rows) {f : User → User}
    (hf : ∀ r, (f r).id = r.id) (hhas : ∀ key, u.Has key → (f u).Has key) :
    KeepsAccounts w (w.modify u.id f hf) := by
  intro v hv
  by_cases hid : v.id = u.id
  · have hvu : v = u := List.inj_on_of_nodup_map w.nodup hv hu hid
    subst hvu
    exact ⟨f v, (mem_modify hv hf).mpr (.inl rfl), hf v, hhas⟩
  · exact ⟨v, (mem_modify hu hf).mpr (.inr ⟨hv, hid⟩), rfl, fun _ => id⟩

variable (db) in
theorem keepsAccounts_signIn (w : World) (s : SignIn) : KeepsAccounts w (signIn db w s).2 := by
  obtain ⟨e, h⟩ | ⟨u, hu, -, h⟩ | ⟨u, hu, -, h⟩ | ⟨w', -, -, hinsert, h⟩ := signIn_cases db w s
  · rw [h]
    exact .refl w
  · rw [h]
    exact keepsAccounts_modify hu (User.set_id _ _) fun key hkey => has_renew.mpr hkey
  · rw [h]
    exact keepsAccounts_modify hu (User.set_id _ _) fun key hkey => has_link.mpr (.inl hkey)
  · rw [h]
    intro u hu
    exact ⟨u, by simp [Table.rows_insert? hinsert, hu], rfl, fun _ => id⟩

theorem accountsApart_modify (hw : AccountsApart w) {u : User} (hu : u ∈ w.rows) {f : User → User}
    (hf : ∀ r, (f r).id = r.id)
    (hhas : ∀ key, (f u).Has key → u.Has key ∨ ∀ v ∈ w.rows, ¬ v.Has key) :
    AccountsApart (w.modify u.id f hf) := by
  have hother : ∀ v ∈ w.rows, v.id ≠ u.id → ∀ key, v.Has key → ¬ (f u).Has key := by
    intro v hv hne key hv' hfu
    rcases hhas key hfu with hu' | hnone
    · exact hne (hw v hv u hu key hv' hu')
    · exact hnone v hv hv'
  intro r hr r' hr' key hkey hkey'
  rcases (mem_modify hu hf).mp hr with rfl | ⟨hr, hid⟩ <;>
    rcases (mem_modify hu hf).mp hr' with rfl | ⟨hr', hid'⟩
  · rfl
  · exact (hother r' hr' hid' key hkey' hkey).elim
  · exact (hother r hr hid key hkey hkey').elim
  · exact hw r hr r' hr' key hkey hkey'

variable (db) in
/-- **No sign-in gives an account to a second user.** -/
theorem accountsApart_signIn (hw : AccountsApart w) (s : SignIn) :
    AccountsApart (signIn db w s).2 := by
  obtain ⟨e, h⟩ | ⟨u, hu, -, h⟩ | ⟨u, hu, hnone, h⟩ | ⟨w', hnone, -, hinsert, h⟩ :=
    signIn_cases db w s
  · rwa [h]
  · rw [h]
    exact accountsApart_modify hw hu (User.set_id _ _) fun key hkey => .inl (has_renew.mp hkey)
  · rw [h]
    refine accountsApart_modify hw hu (User.set_id _ _) fun key hkey => ?_
    rcases has_link.mp hkey with hkey | rfl
    · exact .inl hkey
    · exact .inr hnone
  · rw [h]
    intro u hu v hv key hukey hvkey
    dsimp only at hu hv
    rw [Table.rows_insert? hinsert, List.mem_append, List.mem_singleton] at hu hv
    rcases hu with hu | rfl <;> rcases hv with hv | rfl
    · exact hw u hu v hv key hukey hvkey
    · rw [has_create.mp hvkey] at hukey
      exact (hnone u hu hukey).elim
    · rw [has_create.mp hukey] at hvkey
      exact (hnone v hv hvkey).elim
    · rfl

theorem emailsApart_modify (hw : EmailsApart fold w) {u : User} (hu : u ∈ w.rows) {f : User → User}
    (hf : ∀ r, (f r).id = r.id) (hemail : (f u).email = u.email) :
    EmailsApart fold (w.modify u.id f hf) := by
  have hback : ∀ r ∈ (w.modify u.id f hf).rows, ∃ q ∈ w.rows, q.id = r.id ∧ q.email = r.email := by
    intro r hr
    rcases (mem_modify hu hf).mp hr with rfl | ⟨hr, -⟩
    · exact ⟨u, hu, (hf u).symm, hemail.symm⟩
    · exact ⟨r, hr, rfl, rfl⟩
  intro r hr r' hr' hfold
  obtain ⟨q, hq, hid, hqe⟩ := hback r hr
  obtain ⟨q', hq', hid', hqe'⟩ := hback r' hr'
  rw [← hid, ← hid']
  exact hw q hq q' hq' (by rw [hqe, hqe', hfold])

/-! ## The condition -/

variable (db fold) in
/-- **The condition**: where no user has the account or is found by its email, the database reads the
email of every user as that of the account if the two are equal without case. -/
def ReadsCase (w : World) (s : SignIn) : Prop :=
  (∀ u ∈ w.rows, ¬ u.Has s.key) →
    (∀ u ∈ w.rows, db.storedEmail u.email ≠ db.askedEmail s.account.accountEmail) →
    ∀ u ∈ w.rows, fold u.email = fold s.account.accountEmail →
      db.storedEmail u.email = db.storedEmail s.account.accountEmail

instance (db : Db) (fold : String → String) (w : World) (s : SignIn) :
    Decidable (ReadsCase db fold w s) :=
  inferInstanceAs (Decidable (_ → _ → ∀ u ∈ _, _ → _))

variable (db fold) in
/-- Each of a run of sign-ins meets the condition. -/
def EachReadsCase : World → List SignIn → Prop
  | _, [] => True
  | w, s :: calls => ReadsCase db fold w s ∧ EachReadsCase (signIn db w s).2 calls

/-- **A sign-in that meets the condition gives no email to a second user.** -/
theorem emailsApart_signIn (hw : EmailsApart fold w) (hs : ReadsCase db fold w s) :
    EmailsApart fold (signIn db w s).2 := by
  obtain ⟨e, h⟩ | ⟨u, hu, -, h⟩ | ⟨u, hu, -, h⟩ | ⟨w', hnone, hfree, hinsert, h⟩ :=
    signIn_cases db w s
  · rwa [h]
  · rw [h]
    exact emailsApart_modify hw hu (User.set_id _ _) rfl
  · rw [h]
    exact emailsApart_modify hw hu (User.set_id _ _) rfl
  · rw [h]
    have hclash : ∀ u ∈ w.rows, ¬ SharesEmail db u s.create := by
      intro u hu hshares
      unfold Table.insert? at hinsert
      split_ifs at hinsert with hid hany
      exact hany ⟨u, hu, hshares⟩
    intro u hu v hv hfold
    dsimp only at hu hv
    rw [Table.rows_insert? hinsert, List.mem_append, List.mem_singleton] at hu hv
    rcases hu with hu | rfl <;> rcases hv with hv | rfl
    · exact hw u hu v hv hfold
    · exact (hclash u hu (hs hnone hfree u hu hfold)).elim
    · exact (hclash v hv (hs hnone hfree v hv hfold.symm)).elim
    · rfl

/-! ## A run of sign-ins -/

variable (db fold)

/-- **An account signs in one user**: at every point of the run no two users hold the same account or
share an email without case, no user loses an account, and what signs in with an account again is
the user that did before. -/
structure SameUser (w : World) (calls : List SignIn) : Prop where
  accounts : ∀ before, before <+: calls → AccountsApart (signIns db w before)
  emails : ∀ before, before <+: calls → EmailsApart fold (signIns db w before)
  kept : ∀ before middle, before ++ middle <+: calls →
    KeepsAccounts (signIns db w before) (signIns db w (before ++ middle))
  same : ∀ before s middle t, before ++ s :: middle ++ [t] <+: calls → s.key = t.key →
    ∀ u v, (signIn db (signIns db w before) s).1 = .ok u →
      (signIn db (signIns db w (before ++ s :: middle)) t).1 = .ok v →
        ∃ u' v', u = some u' ∧ v = some v' ∧ v'.id = u'.id

variable {db fold}

theorem signIns_append (w : World) (before later : List SignIn) :
    signIns db w (before ++ later) = signIns db (signIns db w before) later := List.foldl_append

theorem keepsAccounts_signIns (w : World) (calls : List SignIn) :
    KeepsAccounts w (signIns db w calls) := by
  induction calls generalizing w with
  | nil => exact .refl w
  | cons s calls ih => exact (keepsAccounts_signIn db w s).trans (ih _)

theorem accountsApart_signIns (hw : AccountsApart w) (calls : List SignIn) :
    AccountsApart (signIns db w calls) := by
  induction calls generalizing w with
  | nil => exact hw
  | cons s calls ih => exact ih (accountsApart_signIn db hw s)

theorem emailsApart_signIns (hw : EmailsApart fold w) {calls : List SignIn}
    (hcalls : EachReadsCase db fold w calls) : EmailsApart fold (signIns db w calls) := by
  induction calls generalizing w with
  | nil => exact hw
  | cons s calls ih => exact ih (emailsApart_signIn hw hcalls.1) hcalls.2

theorem EachReadsCase.of_append {before later : List SignIn}
    (h : EachReadsCase db fold w (before ++ later)) : EachReadsCase db fold w before := by
  induction before generalizing w with
  | nil => trivial
  | cons s before ih => exact ⟨h.1, ih h.2⟩

/-- **Who signs in holds the account afterwards.** -/
theorem has_of_signIn {u : Option User} (h : (signIn db w s).1 = .ok u) :
    ∃ u', u = some u' ∧ u' ∈ (signIn db w s).2.rows ∧ u'.Has s.key := by
  obtain ⟨e, hrun⟩ | ⟨v, hv, hhas, hrun⟩ | ⟨v, hv, -, hrun⟩ | ⟨w', -, -, hinsert, hrun⟩ :=
    signIn_cases db w s
  · rw [hrun] at h
    cases h
  · rw [hrun] at h ⊢
    cases h
    exact ⟨_, rfl, (mem_modify hv (User.set_id _ _)).mpr (.inl rfl), has_renew.mpr hhas⟩
  · rw [hrun] at h ⊢
    cases h
    exact ⟨_, rfl, (mem_modify hv (User.set_id _ _)).mpr (.inl rfl), has_link.mpr (.inr rfl)⟩
  · rw [hrun] at h ⊢
    cases h
    refine ⟨_, rfl, ?_, has_create.mpr rfl⟩
    simp [Table.rows_insert? hinsert]

theorem id_of_signIn (hw : AccountsApart w) {v : User} (hv : v ∈ w.rows) (hhas : v.Has t.key)
    {u : Option User} (h : (signIn db w t).1 = .ok u) : ∃ u', u = some u' ∧ u'.id = v.id := by
  obtain ⟨e, hrun⟩ | ⟨q, hq, hq', hrun⟩ | ⟨q, -, hnone, -⟩ | ⟨w', hnone, -, -, -⟩ :=
    signIn_cases db w t
  · rw [hrun] at h
    cases h
  · rw [hrun] at h
    cases h
    exact ⟨_, rfl, hw q hq v hv t.key hq' hhas⟩
  · exact (hnone v hv hhas).elim
  · exact (hnone v hv hhas).elim

variable (db fold) in
/-- **An account signs in one user** in every run whose sign-ins meet the condition. -/
theorem sameUser_of_readsCase (w : World) (calls : List SignIn) (haccounts : AccountsApart w)
    (hemails : EmailsApart fold w) (hcalls : EachReadsCase db fold w calls) :
    SameUser db fold w calls where
  accounts before _ := accountsApart_signIns haccounts before
  emails before := by
    rintro ⟨later, rfl⟩
    exact emailsApart_signIns hemails hcalls.of_append
  kept before middle _ := by
    rw [signIns_append]
    exact keepsAccounts_signIns _ middle
  same before s middle t _ hkey u v hu hv := by
    obtain ⟨u', rfl, hmem, hhas⟩ := has_of_signIn hu
    have hrest : signIns db w (before ++ s :: middle) =
        signIns db (signIn db (signIns db w before) s).2 middle := signIns_append w before _
    rw [hrest] at hv
    obtain ⟨u'', hmem', hid, hkeeps⟩ := keepsAccounts_signIns _ middle u' hmem
    have hapart : AccountsApart (signIns db (signIn db (signIns db w before) s).2 middle) :=
      accountsApart_signIns (accountsApart_signIn db (accountsApart_signIns haccounts before) s)
        middle
    obtain ⟨v', rfl, hv'⟩ := id_of_signIn hapart hmem' (hkey ▸ hkeeps _ hhas) hv
    exact ⟨u', v', rfl, rfl, hv'.trans hid⟩

theorem eachReadsCase_of_fold (h : ∀ a b, fold a = fold b → db.storedEmail a = db.storedEmail b)
    (w : World) (calls : List SignIn) : EachReadsCase db fold w calls := by
  induction calls generalizing w with
  | nil => trivial
  | cons s calls ih => exact ⟨fun _ _ u _ hfold => h _ _ hfold, ih _⟩

/-! ## One email in two cases -/

/-- Lower case in the letters of ASCII. -/
def lowerAscii (s : String) : String := String.ofList (s.toList.map Char.toLower)

/-- Lower case in Latin letters, of which there are more than those of ASCII. -/
def lowerLatin (s : String) : String :=
  String.ofList (s.toList.map fun c => if c = 'Å' then 'å' else c.toLower)

/-- A database that refuses nothing, whose lower case is this. -/
def labDb (lower : String → String) : Db where
  matchesStart _ _ := true
  storedEmail := lower
  askedEmail := lowerLatin
  refuses _ := false

/-- A sign-in of an account through a provider that links by email. -/
def labSignIn (providerName accountId email : String) : SignIn where
  providerName := providerName
  provider := { shouldAssociateByEmail := true }
  account := { accessToken := "token", accountId := accountId, accountEmail := email }
  newUserId := "user-" ++ accountId
  newAccountId := "account-" ++ accountId

/-- Åsa signs in through one provider and then, in lower case, through another. -/
def asaSignIns : List SignIn :=
  [labSignIn "github" "1" "Åsa@lab.se", labSignIn "google" "2" "åsa@lab.se",
    labSignIn "github" "1" "Åsa@lab.se"]

theorem sameUser_asa :
    SameUser (labDb lowerLatin) lowerLatin .empty asaSignIns ∧
      (signIns (labDb lowerLatin) .empty asaSignIns).rows.length = 1 :=
  ⟨sameUser_of_readsCase _ _ _ _ (by simp [AccountsApart]) (by simp [EmailsApart])
    (eachReadsCase_of_fold (fun _ _ h => h) _ _), by decide +kernel⟩

/-- **Where the database's lower case is that of ASCII alone, one email signs up two users.** -/
theorem two_of_one_email :
    (signIns (labDb lowerAscii) .empty asaSignIns).rows.map (·.email) =
        ["Åsa@lab.se", "åsa@lab.se"] ∧
      ¬ SameUser (labDb lowerAscii) lowerLatin .empty asaSignIns := by
  have hshared : ¬ EmailsApart lowerLatin (signIns (labDb lowerAscii) .empty asaSignIns) := by
    decide +kernel
  exact ⟨by decide +kernel, fun h => hshared (h.emails asaSignIns List.prefix_rfl)⟩

end Mss.SignIns
