import Mss.SameUser

/-!
# No linked account is lost

A sign-in sets the user's accounts whole from the user that it read operations earlier. Run at once,
one operation of the database at a time, sign-ins lose no account and no role when none changes the
user between another's look at the user and its end.

* `HoldsLinked`: what the user is to hold; `completes`, `grants`: the sign-ins that ended with the
  user, and those of them that linked an account.
* `AccountsUnread`: the condition, as a guard on each step.
* **`holdsLinked_of_accountsUnread`**: in every interleaving whose steps meet the condition.
* `linked_account_lost`: two sign-ins that both read the user before either links its account.
-/

namespace Mss.SignIns

open Atomic Storage Prog

variable {ι : Type} {uid : Id}

/-! ## What is to be held -/

/-- The user that the event stored, if it is this one. -/
def storedUser (uid : Id) : Event Resp → Option User
  | ⟨.updateUser id _ _, .ok (some user)⟩ => if id = uid then some user else none
  | _ => none

/-- The event is the last of a sign-in of the user. -/
def completes (uid : Id) (e : Event Resp) : Bool := (storedUser uid e).isSome

/-- The event linked an account to the user, with the roles that it grants. -/
def grants (uid : Id) : Event Resp → Bool
  | ⟨.updateUser id _ (some _), .ok (some _)⟩ => id = uid
  | _ => false

/-- **No linked account is lost**, from one state of the user to a later one: the user has each
account once, those of the sign-ins with the values of the last that completed, and every role. -/
structure HoldsLinked (uid : Id) (tasks : ι → SignIn) (u₀ u : User)
    (trace : List (ι × Event Resp)) : Prop where
  once : (u₀.oauthAccounts.map (·.key)).Nodup → (u.oauthAccounts.map (·.key)).Nodup
  kept : ∀ a ∈ u₀.oauthAccounts,
    (∀ x ∈ trace, completes uid x.2 = true → (tasks x.1).key ≠ a.key) → a ∈ u.oauthAccounts
  linked : ∀ i e, (i, e) ∈ trace → completes uid e = true → u.Has (tasks i).key
  last : ∀ before i e later, trace = before ++ (i, e) :: later → completes uid e = true →
    (∀ x ∈ later, completes uid x.2 = true → (tasks x.1).key ≠ (tasks i).key) →
      ∃ a ∈ u.oauthAccounts, a.toAccountValues = (tasks i).values
  roles : u₀.roles ⊆ u.roles
  granted : ∀ i e, (i, e) ∈ trace → grants uid e = true → (tasks i).roles ⊆ u.roles

/-! ## The condition -/

/-- What an operation tells: a user found, and an account that no user was found to have. -/
structure Look where
  found : Option User := none
  missing : Option (String × String) := none

/-- What the event told its sign-in. -/
def look : Event Resp → Look
  | ⟨.findByAccount _ _, some user⟩ => { found := some user }
  | ⟨.findByAccount oauthName accountId, none⟩ => { missing := some (oauthName, accountId) }
  | ⟨.findByEmail _, found⟩ => { found }
  | _ => {}

/-- What was told is of this user, or of an account that the user has. -/
def Look.Outdated (l : Look) (user : User) : Prop :=
  (∃ u ∈ l.found, u.id = user.id) ∨ ∃ key ∈ l.missing, user.Has key

instance (l : Look) (user : User) : Decidable (l.Outdated user) :=
  inferInstanceAs (Decidable ((∃ u ∈ l.found, _) ∨ ∃ key ∈ l.missing, _))

variable [DecidableEq ι]

/-- **The condition**: a step that changes the user finds every other sign-in at its end that has
read the user, or has looked in vain for an account that the user now has. -/
def AccountsUnread (uid : Id) (c : Config World ι Resp Exc (Option User)) (i : ι)
    (e : Event Resp) : Prop :=
  ∀ user ∈ storedUser uid e, c.store.get uid ≠ some user →
    ∀ j, j ≠ i → (∃ seen ∈ c.mine j, (look seen).Outdated user) → (c.pool j).Done

instance [Fintype ι] (c : Config World ι Resp Exc (Option User)) (i : ι) (e : Event Resp) :
    Decidable (AccountsUnread uid c i e) :=
  inferInstanceAs (Decidable (∀ user ∈ _, _ → ∀ j, j ≠ i → _ → (c.pool j).Done))

/-! ## The protocol of a sign-in -/

/-- What was told now, and what before where it tells of nothing. -/
def Look.over (l l' : Look) : Look := ⟨l.found.or l'.found, l.missing.or l'.missing⟩

/-- What a sign-in may make of a user that it found. -/
inductive SignIn.Makes (s : SignIn) (l : Look) (u : User) :
    List OAuthAccount → Option (Finset UserRole) → Prop
  | renews (hhas : u.Has s.key) : s.Makes l u (s.renew u).oauthAccounts none
  | links (hmissing : l.missing = some s.key) :
    s.Makes l u (s.link u).oauthAccounts (some (u.roles ∪ s.roles))

/-- **What a sign-in does**: it writes once, over what it was told, the user that it found with the
account renewed, or linked where it was missing. -/
def signInProtocol (s : SignIn) : Protocol Resp Exc (Option User) Look where
  next l e := match e.1 with
    | .updateUser _ _ _ => {}
    | _ => (look e).over l
  assumes _ e := match e with
    | ⟨.findByAccount oauthName accountId, some user⟩ => user.Has (oauthName, accountId)
    | _ => True
  allows l e := match e.1 with
    | .updateUser id accounts roles =>
      ∃ user, l.found = some user ∧ user.id = id ∧ s.Makes l user accounts roles
    | _ => True
  ends _ _ := True

theorem follows_signInWithOauth (db : Db) (s : SignIn) :
    Follows (signInProtocol s) {} (signInWithOauth db s) := by
  unfold signInWithOauth
  by_cases hmatches : db.matchesStart s.provider.emailRegex s.account.accountEmail = true
  · simp only [hmatches, Bool.not_true, Bool.false_eq_true, if_false]
    refine follows_perform_bind.mpr fun holder hholder => ⟨trivial, ?_⟩
    cases holder with
    | some user =>
      refine follows_perform_bind.mpr fun r _ => ⟨⟨user, rfl, rfl, .renews hholder⟩, ?_⟩
      cases r <;> trivial
    | none =>
      refine follows_perform_bind.mpr fun found _ => ⟨trivial, ?_⟩
      cases found with
      | some user =>
        dsimp only
        cases s.provider.shouldAssociateByEmail with
        | false => trivial
        | true =>
          refine follows_perform_bind.mpr fun r _ => ⟨⟨user, rfl, rfl, .links rfl⟩, ?_⟩
          cases r <;> trivial
      | none =>
        refine follows_perform_bind.mpr fun r _ => ⟨trivial, ?_⟩
        cases r <;> trivial
  · simp only [hmatches, Bool.not_false, if_true]
    trivial

/-! ## What a sign-in keeps -/

section Holds

variable {tasks : ι → SignIn} {u₀ u u' : User} {trace : List (ι × Event Resp)} {s : SignIn}

theorem grants_completes {e : Event Resp} (h : grants uid e = true) : completes uid e = true := by
  obtain ⟨o, r⟩ := e
  cases o with
  | updateUser id accounts roles =>
    match roles, r with
    | some roles, .ok (some user) =>
      have hid : id = uid := by simpa [grants] using h
      simp [completes, storedUser, hid]
    | none, _ => cases h
    | some _, .ok none => cases h
    | some _, .error _ => cases h
  | _ => cases h

theorem exists_renew (h : u.Has s.key) :
    ∃ a ∈ (s.renew u).oauthAccounts, a.toAccountValues = s.values := by
  obtain ⟨a, ha, hkey⟩ := h
  obtain ⟨hname, hid⟩ := Prod.mk.inj hkey
  exact ⟨_, List.mem_map_of_mem ha, by rw [if_pos ⟨hname, hid⟩]⟩

theorem mem_renew {a : OAuthAccount} (ha : a ∈ u.oauthAccounts) (hkey : s.key ≠ a.key) :
    a ∈ (s.renew u).oauthAccounts := by
  refine List.mem_map.mpr ⟨a, ha, if_neg fun h => hkey ?_⟩
  exact (Prod.ext h.1 h.2).symm

theorem map_key_renew (s : SignIn) (u : User) :
    (s.renew u).oauthAccounts.map (·.key) = u.oauthAccounts.map (·.key) := by
  change (renewed _ _ _ _).map _ = _
  rw [renewed, List.map_map]
  refine List.map_congr_left fun a _ => ?_
  rw [Function.comp_apply]
  split_ifs with h
  · exact (Prod.ext h.1 h.2).symm
  · rfl

theorem nodup_link (hnodup : (u.oauthAccounts.map (·.key)).Nodup) (h : ¬ u.Has s.key) :
    ((s.link u).oauthAccounts.map (·.key)).Nodup := by
  change ((u.oauthAccounts ++ [s.newAccount]).map _).Nodup
  rw [List.map_append, List.map_singleton, ← List.concat_eq_append, List.nodup_concat]
  refine ⟨fun hmem => h ?_, hnodup⟩
  obtain ⟨a, ha, hkey⟩ := List.mem_map.mp hmem
  exact ⟨a, ha, hkey⟩

omit [DecidableEq ι] in
/-- **What one more event keeps**: other accounts as they are, that of a sign-in which completes with
its values, and every role. -/
theorem HoldsLinked.append {i : ι} {e : Event Resp} (h : HoldsLinked uid tasks u₀ u trace)
    (honce : (u.oauthAccounts.map (·.key)).Nodup → (u'.oauthAccounts.map (·.key)).Nodup)
    (hother : ∀ a ∈ u.oauthAccounts, (completes uid e = true → (tasks i).key ≠ a.key) →
      a ∈ u'.oauthAccounts)
    (hhas : ∀ key, u.Has key → u'.Has key)
    (hown : completes uid e = true → ∃ a ∈ u'.oauthAccounts, a.toAccountValues = (tasks i).values)
    (hroles : u.roles ⊆ u'.roles) (hgrants : grants uid e = true → (tasks i).roles ⊆ u'.roles) :
    HoldsLinked uid tasks u₀ u' (trace ++ [(i, e)]) where
  once h₀ := honce (h.once h₀)
  kept a ha hothers := by
    refine hother a (h.kept a ha fun x hx => hothers x (List.mem_append_left _ hx)) fun he => ?_
    exact hothers (i, e) (by simp) he
  linked j e' hmem he' := by
    obtain hmem | hmem := List.mem_append.mp hmem
    · exact hhas _ (h.linked j e' hmem he')
    · obtain ⟨rfl, rfl⟩ := Prod.mk.inj (List.mem_singleton.mp hmem)
      obtain ⟨a, ha, hvalues⟩ := hown he'
      exact ⟨a, ha, by rw [hvalues]; rfl⟩
  last before j e' later htrace he' hlater := by
    obtain ⟨rfl, he⟩ | ⟨later, rfl, rfl⟩ := last_or_before htrace
    · obtain ⟨rfl, rfl⟩ := Prod.mk.inj he
      exact hown he'
    · -- the sign-ins that completed since include this one, if it did
      obtain ⟨a, ha, hvalues⟩ := h.last before j e' later rfl he'
        fun x hx => hlater x (by simp [hx])
      refine ⟨a, hother a ha fun he => ?_, hvalues⟩
      have hkey : a.key = (tasks j).key := by rw [hvalues]; rfl
      rw [hkey]
      exact hlater (i, e) (by simp) he
  roles := h.roles.trans hroles
  granted j e' hmem he' := by
    obtain hmem | hmem := List.mem_append.mp hmem
    · exact (h.granted j e' hmem he').trans hroles
    · obtain ⟨rfl, rfl⟩ := Prod.mk.inj (List.mem_singleton.mp hmem)
      exact hgrants he'

end Holds

/-! ## The invariant -/

/-- The programs of the sign-ins. -/
abbrev signInPool (db : Db) (tasks : ι → SignIn) (i : ι) : Service (Option User) :=
  signInWithOauth db (tasks i)

/-- What a sign-in was told and is yet to write over. -/
abbrev signInPhase (tasks : ι → SignIn) (c : Config World ι Resp Exc (Option User)) (i : ι) : Look :=
  c.phase (fun i => signInProtocol (tasks i)) (fun _ => {}) i

/-- What was told holds of the user. -/
structure Look.Agrees (l : Look) (u : User) : Prop where
  found : ∀ user ∈ l.found, user.id = u.id → user = u
  missing : ∀ key ∈ l.missing, ¬ u.Has key

/-- **The invariant**: the user is stored as `u`, who lost no account, and what every sign-in was
told that is yet to end holds of them. -/
structure AccountsInv (uid : Id) (tasks : ι → SignIn) (u₀ : User)
    (c : Config World ι Resp Exc (Option User)) (u : User) : Prop where
  stored : c.store.get uid = some u
  holds : HoldsLinked uid tasks u₀ u c.trace
  agrees : ∀ j, ¬ (c.pool j).Done → (signInPhase tasks c j).Agrees u

section Looks

variable {l l' : Look} {u user : User}

theorem Look.Agrees.over (h : l.Agrees u) (h' : l'.Agrees u) : (l.over l').Agrees u where
  found q hq := by
    obtain hq | ⟨-, hq⟩ := Option.or_eq_some_iff.mp hq
    · exact h.found q hq
    · exact h'.found q hq
  missing key hkey := by
    obtain hkey | ⟨-, hkey⟩ := Option.or_eq_some_iff.mp hkey
    · exact h.missing key hkey
    · exact h'.missing key hkey

theorem agrees_nothing (u : User) : ({} : Look).Agrees u :=
  ⟨nofun, nofun⟩

theorem agrees_of_not_outdated (h : ¬ l.Outdated user) : l.Agrees user where
  found q hq hid := (h (.inl ⟨q, hq, hid⟩)).elim
  missing key hkey hhas := h (.inr ⟨key, hkey, hhas⟩)

theorem Look.Outdated.of_over (h : (l.over l').Outdated user) :
    l.Outdated user ∨ l'.Outdated user := by
  obtain ⟨q, hq, hid⟩ | ⟨key, hkey, hhas⟩ := h
  · obtain hq | ⟨-, hq⟩ := Option.or_eq_some_iff.mp hq
    · exact .inl (.inl ⟨q, hq, hid⟩)
    · exact .inr (.inl ⟨q, hq, hid⟩)
  · obtain hkey | ⟨-, hkey⟩ := Option.or_eq_some_iff.mp hkey
    · exact .inl (.inr ⟨key, hkey, hhas⟩)
    · exact .inr (.inr ⟨key, hkey, hhas⟩)

theorem not_outdated_nothing (user : User) : ¬ ({} : Look).Outdated user := by
  rintro (⟨_, h, -⟩ | ⟨_, h, -⟩) <;> cases h

theorem outdated_next {s : SignIn} {e : Event Resp}
    (h : ((signInProtocol s).next l e).Outdated user) : (look e).Outdated user ∨ l.Outdated user := by
  obtain ⟨o, r⟩ := e
  cases o with
  | updateUser => exact (not_outdated_nothing user h).elim
  | _ => exact h.of_over

end Looks

section Step

variable {db : Db} {tasks : ι → SignIn} {i : ι} {e : Event Resp}
  {c c' : Config World ι Resp Exc (Option User)} {u₀ u : User} {w : World}

theorem get_exec (db : Db) (o : Op) (hu : w.get uid = some u) :
    (exec db o w).2.get uid = some ((storedUser uid ⟨o, (exec db o w).1⟩).getD u) := by
  cases o with
  | findByAccount => exact hu
  | findByEmail => exact hu
  | updateUser id accounts roles =>
    unfold exec
    dsimp only
    cases hget : w.get id with
    | none => exact hu
    | some r =>
      dsimp only
      split
      · exact hu
      · refine (Table.get_modify w id (User.set accounts roles) (fun _ => rfl) uid).trans ?_
        by_cases hid : id = uid
        · subst hid
          simp [storedUser, hget]
        · simp [storedUser, hid, Ne.symm hid, hu]
  | insertUser user =>
    unfold exec
    dsimp only
    split
    · exact hu
    · split
      · next w' hinsert =>
        have hid : uid ≠ user.id := by
          rintro rfl
          rw [Table.get_of_insert? hinsert] at hu
          cases hu
        rw [Table.get_insert? hinsert, if_neg hid]
        exact hu
      · exact hu

theorem agrees_exec (db : Db) (o : Op) (hu : w.get uid = some u) :
    (look ⟨o, (exec db o w).1⟩).Agrees u := by
  obtain ⟨hmem, -⟩ := Table.get_eq_some.mp hu
  have hsame : ∀ {p : User → Bool} {q}, w.rows.find? p = some q → q.id = u.id → q = u :=
    fun hfind hid => List.inj_on_of_nodup_map w.nodup (List.mem_of_find?_eq_some hfind) hmem hid
  cases o with
  | findByAccount oauthName accountId =>
    unfold exec
    dsimp only
    cases hfind : w.rows.find? fun u => decide (u.Has (oauthName, accountId)) with
    | some q =>
      refine ⟨fun user huser hid => ?_, nofun⟩
      cases huser
      exact hsame hfind hid
    | none =>
      refine ⟨nofun, fun key hkey => ?_⟩
      cases hkey
      simpa using List.find?_eq_none.mp hfind u hmem
  | findByEmail email =>
    exact ⟨fun user huser hid => hsame huser hid, nofun⟩
  | _ => exact agrees_nothing u

theorem has_of_findByAccount {oauthName accountId : String} {user : User}
    (hanswer : (exec db (.findByAccount oauthName accountId) w).1 = some user) :
    user.Has (oauthName, accountId) := by
  have hfound := List.find?_some hanswer
  exact of_decide_eq_true hfound

theorem eq_of_storedUser {v : User} (he : storedUser uid e = some v) :
    ∃ accounts roles, e = ⟨.updateUser uid accounts roles, .ok (some v)⟩ := by
  obtain ⟨o, r⟩ := e
  cases o with
  | updateUser id accounts roles =>
    match r with
    | .ok (some user) =>
      simp only [storedUser, Option.ite_none_right_eq_some, Option.some.injEq] at he
      obtain ⟨rfl, rfl⟩ := he
      exact ⟨accounts, roles, rfl⟩
    | .ok none => cases he
    | .error _ => cases he
  | _ => cases he

theorem eq_set_of_answer {accounts : List OAuthAccount} {roles : Option (Finset UserRole)} {v : User}
    (hu : w.get uid = some u)
    (hanswer : (exec db (.updateUser uid accounts roles) w).1 = .ok (some v)) :
    v = u.set accounts roles := by
  unfold exec at hanswer
  dsimp only at hanswer
  rw [hu] at hanswer
  dsimp only at hanswer
  split at hanswer
  · cases hanswer
  · exact (Option.some.inj (Except.ok.inj hanswer)).symm

/-- **What a sign-in stores is the user with its account** renewed, which they have, or linked, which
they lack. -/
theorem AccountsInv.stores (hinv : AccountsInv uid tasks u₀ c u) (hs : StepBy (exec db) i e c c')
    (hallow : (signInProtocol (tasks i)).allows (signInPhase tasks c i) e) {v : User}
    (he : storedUser uid e = some v) :
    u.Has (tasks i).key ∧ v = (tasks i).renew u ∧ grants uid e = false ∨
      ¬ u.Has (tasks i).key ∧ v = (tasks i).link u := by
  obtain ⟨accounts, roles, rfl⟩ := eq_of_storedUser he
  have hv : v = u.set accounts roles := eq_set_of_answer hinv.stored hs.resp
  obtain ⟨q, hfound, hid, hmakes⟩ := hallow
  have hagrees := hinv.agrees i hs.not_done
  have hqu : q = u := hagrees.found q hfound (hid.trans (Table.key_of_get hinv.stored).symm)
  subst hqu
  cases hmakes with
  | renews hhas => exact .inl ⟨hhas, hv, rfl⟩
  | links hmissing => exact .inr ⟨hagrees.missing _ hmissing, hv⟩

theorem AccountsInv.holds_step (hinv : AccountsInv uid tasks u₀ c u)
    (hs : StepBy (exec db) i e c c')
    (hallow : (signInProtocol (tasks i)).allows (signInPhase tasks c i) e) :
    HoldsLinked uid tasks u₀ ((storedUser uid e).getD u) c'.trace := by
  rw [hs.trace]
  cases he : storedUser uid e with
  | none =>
    have hcompletes : completes uid e ≠ true := by simp [completes, he]
    refine hinv.holds.append id (fun a ha _ => ha) (fun _ => id) (fun h => (hcompletes h).elim)
      (Finset.Subset.refl _) fun h => (hcompletes (grants_completes h)).elim
  | some v =>
    have hcompletes : completes uid e = true := by simp [completes, he]
    obtain ⟨hhas, rfl, hgrants⟩ | ⟨hlacks, rfl⟩ := hinv.stores hs hallow he
    · refine hinv.holds.append (fun h => ?_) (fun a ha hother => mem_renew ha (hother hcompletes))
        (fun _ => has_renew.mpr) (fun _ => exists_renew hhas) (Finset.Subset.refl _) fun h => ?_
      · rwa [Option.getD_some, map_key_renew]
      · rw [hgrants] at h
        cases h
    · refine hinv.holds.append (fun h => nodup_link h hlacks)
        (fun a ha _ => List.mem_append_left _ ha) (fun _ h => has_link.mpr (.inl h))
        (fun _ => ⟨(tasks i).newAccount, by simp [SignIn.link, User.set], rfl⟩)
        Finset.subset_union_left fun _ => Finset.subset_union_right

/-- **A step that meets the condition keeps the invariant.** -/
theorem AccountsInv.step (hinv : AccountsInv uid tasks u₀ c u) (hguard : AccountsUnread uid c i e)
    (hs : StepBy (exec db) i e c c')
    (hallow : (signInProtocol (tasks i)).allows (signInPhase tasks c i) e) :
    AccountsInv uid tasks u₀ c' ((storedUser uid e).getD u) := by
  refine ⟨?_, hinv.holds_step hs hallow, fun j hpending => ?_⟩
  · have hget := get_exec db e.1 hinv.stored
    rw [hs.resp] at hget
    rw [hs.store]
    exact hget
  by_cases hj : j = i
  · -- a sign-in that writes is told of nothing more, and any other step leaves the user
    subst hj
    have htold : (look e).Agrees u := by
      have htold := agrees_exec db e.1 hinv.stored
      rwa [hs.resp] at htold
    have hbefore := hinv.agrees j hs.not_done
    rw [signInPhase, hs.phase_self]
    obtain ⟨o, r⟩ := e
    cases o with
    | updateUser => exact agrees_nothing _
    | _ => exact htold.over hbefore
  · rw [hs.pool_ne hj] at hpending
    rw [signInPhase, hs.phase_ne _ _ hj]
    cases he : storedUser uid e with
    | none => exact hinv.agrees j hpending
    | some v =>
      by_cases hsame : c.store.get uid = some v
      · rw [hinv.stored, Option.some.injEq] at hsame
        subst hsame
        exact hinv.agrees j hpending
      · refine agrees_of_not_outdated fun hout => hpending ?_
        obtain hseen | hstart := Config.exists_of_phase (Look.Outdated · v)
          (fun seen => (look seen).Outdated v) hout fun _ _ => outdated_next
        · exact hguard v he hsame j hj hseen
        · exact (not_outdated_nothing _ hstart).elim

end Step

/-- **No linked account is lost**, in every interleaving of sign-ins in which no change of the user
falls between another's look at the user and its end. -/
theorem holdsLinked_of_accountsUnread (db : Db) (tasks : ι → SignIn) {w : World} {u₀ : User}
    (hstored : w.get uid = some u₀) {c : Config World ι Resp Exc (Option User)}
    (hr : Reach (exec db) (AccountsUnread uid) (Config.start w (signInPool db tasks)) c) :
    ∃ u, c.store.get uid = some u ∧ HoldsLinked uid tasks u₀ u c.trace := by
  have hholds : HoldsLinked uid tasks u₀ u₀ [] :=
    ⟨id, fun _ ha _ => ha, nofun, fun before _ _ _ h => by simp at h, Finset.Subset.refl _, nofun⟩
  have hstart : AccountsInv uid tasks u₀ (Config.start w (signInPool db tasks)) u₀ :=
    ⟨hstored, hholds, fun _ _ => agrees_nothing u₀⟩
  obtain ⟨-, u, hinv⟩ := hr.invariant (fun i => signInProtocol (tasks i)) (fun _ => {})
    (fun c => ∃ u, AccountsInv uid tasks u₀ c u) (fun i => follows_signInWithOauth db (tasks i))
    ⟨u₀, hstart⟩
    (fun c i e c' _ _ _ hs => by
      obtain ⟨o, r⟩ := e
      cases o with
      | findByAccount oauthName accountId =>
        cases r with
        | none => trivial
        | some user => exact has_of_findByAccount hs.resp
      | _ => trivial)
    (fun c i e c' _ _ hinv hguard hs hallow =>
      hinv.elim fun u hinv => ⟨_, hinv.step hguard hs hallow⟩)
  exact ⟨u, hinv.stored, hinv.holds⟩

/-! ## Two sign-ins at once -/

/-- A user with no account yet. -/
def ada : User := { id := "user-1", email := "ada@lab.se" }

/-- The users: this one. -/
def adaUsers : World := ⟨[ada], by decide⟩

/-- She signs in through one provider and, in another tab, through another that grants a role. -/
def adaSignIns : Bool → SignIn
  | false => labSignIn "github" "1" "ada@lab.se"
  | true => { labSignIn "google" "2" "ada@lab.se" with
      provider := { shouldAssociateByEmail := true, roles := [.partner] } }

/-- The sign-ins at their start. -/
def adaStart : Config World Bool Resp Exc (Option User) :=
  .start adaUsers (signInPool (labDb lowerLatin) adaSignIns)

/-- The theorem at one sign-in after the other: she has both accounts. -/
theorem holdsLinked_of_accountsUnread_inTurn :
    ∃ u, (adaStart.schedule (exec (labDb lowerLatin))
        [true, true, true, false, false, false]).store.get ada.id = some u ∧
      HoldsLinked ada.id adaSignIns ada u (adaStart.schedule (exec (labDb lowerLatin))
        [true, true, true, false, false, false]).trace :=
  holdsLinked_of_accountsUnread _ _ (by decide +kernel) (reach_schedule_of_obeys (by decide +kernel))

/-- Both look her up by email before either links its account. -/
def bothLookFirst : List Bool := [true, false, true, false, true, false]

/-- **A linked account is lost**, and the role that it granted, when both sign-ins read the user
before either writes. -/
theorem linked_account_lost :
    ∃ c u, Reach (exec (labDb lowerLatin)) anyStep adaStart c ∧ (∀ i, (c.pool i).HasReturned) ∧
      c.store.get ada.id = some u ∧ u.oauthAccounts.map (·.key) = [("github", "1")] ∧
      u.roles = {.user} ∧ ¬ HoldsLinked ada.id adaSignIns ada u c.trace := by
  have hlost : ∃ u, (adaStart.schedule (exec (labDb lowerLatin)) bothLookFirst).store.get ada.id =
      some u ∧ u.oauthAccounts.map (·.key) = [("github", "1")] ∧ u.roles = {.user} ∧
        ¬ u.Has (adaSignIns true).key := by
    refine ⟨(adaSignIns false).link ada, ?_⟩
    decide +kernel
  obtain ⟨u, hstored, haccounts, hroles, hlacks⟩ := hlost
  refine ⟨_, u, reach_schedule _ bothLookFirst _, by decide +kernel, hstored, haccounts, hroles,
    fun hholds => hlacks ?_⟩
  obtain ⟨⟨i, e⟩, hmem, hlinks⟩ : ∃ x ∈ (adaStart.schedule (exec (labDb lowerLatin))
      bothLookFirst).trace, x.1 = true ∧ completes ada.id x.2 = true := by decide +kernel
  obtain ⟨rfl, hcompletes⟩ := hlinks
  exact hholds.linked true e hmem hcompletes

end Mss.SignIns
