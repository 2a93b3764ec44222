import Mathlib.Data.Finset.Basic
import Mss.Lib.Pool
import Mss.Lib.Table
import Mss.Records

/-!
# Signing in with OAuth

A user keeps the accounts they sign in with as one list, which each change sets whole. The user who
has the account gets its new token; otherwise a user of its email has it linked, if the provider
links by email; otherwise a user is created with it.

* `OAuthAccount`, `User`, `OAuthProvider`: the records, and what a provider's sign-ins are given.
* `Db`, `Op`, `exec`: how the database compares emails and what it refuses; the operations on users.
* **`signInWithOauth`**, `updateOauthAccount`, `addOauthAccount`, `createOauthUser`: the programs.
* `SignIn`, `signIns`: a sign-in with what it generates; the users after a list of them, each run
  after the one before has ended.
-/

namespace Mss.SignIns

open Atomic Storage Prog

/-! ## Records -/

/-- What a provider tells of an account. -/
structure ToldAccount where
  accessToken : String
  accountId : String
  accountEmail : String
  expiresAt : Option ℤ := none
  refreshToken : Option String := none
  deriving DecidableEq, Repr

/-- The values of an account: what was told of it, and the provider that told. -/
structure AccountValues extends ToldAccount where
  oauthName : String
  deriving DecidableEq, Repr

/-- **An OAuth account** of a user. -/
structure OAuthAccount extends AccountValues where
  id : Id
  deriving DecidableEq, Repr

/-- What tells accounts apart: the provider, and the account's id with it. -/
def AccountValues.key (a : AccountValues) : String × String := (a.oauthName, a.accountId)

/-- **A user**, less what no sign-in reads. -/
structure User where
  id : Id
  email : String
  isVerified : Bool := false
  oauthAccounts : List OAuthAccount := []
  roles : Finset UserRole := {.user}
  deriving DecidableEq

/-- The user has the account of this provider and id. -/
def User.Has (u : User) (key : String × String) : Prop := ∃ a ∈ u.oauthAccounts, a.key = key

instance (u : User) (key : String × String) : Decidable (u.Has key) :=
  inferInstanceAs (Decidable (∃ a ∈ _, _))

/-- **What a provider's sign-ins are given.** -/
structure OAuthProvider where
  emailRegex : String := ".*"
  roles : List UserRole := []
  shouldAssociateByEmail : Bool := false
  isVerifiedByDefault : Bool := false
  deriving DecidableEq, Repr

/-! ## The operations -/

/-- **What is not the service's**: what a pattern matches, how the database reads a stored email and
one asked for before it compares them, and the users it refuses. -/
structure Db where
  matchesStart : String → String → Bool
  storedEmail : String → String
  askedEmail : String → String
  refuses : User → Bool

/-- The users. -/
abbrev World : Type := Table User (fun u => u.id)

/-- **The operations** on users. -/
inductive Op
  | findByAccount (oauthName accountId : String)
  | findByEmail (email : String)
  | updateUser (id : Id) (accounts : List OAuthAccount) (roles : Option (Finset UserRole))
  | insertUser (user : User)
  deriving DecidableEq

/-- The errors raised. -/
inductive Exc
  | emailNotPermitted
  | userAlreadyExists
  | duplicateKey
  | storage
  deriving DecidableEq, Repr

/-- What an operation answers. -/
@[reducible] def Resp : Op → Type
  | .findByAccount _ _ => Option User
  | .findByEmail _ => Option User
  | .updateUser _ _ _ => Except Exc (Option User)
  | .insertUser _ => Except Exc User

section

variable (db : Db)

/-- Two users whose emails the database reads alike may not be stored together. -/
def SharesEmail (u v : User) : Prop := db.storedEmail u.email = db.storedEmail v.email

instance : DecidableRel (SharesEmail db) := fun u v =>
  inferInstanceAs (Decidable (db.storedEmail u.email = db.storedEmail v.email))

/-- A user with other accounts, and other roles if any are given. -/
def User.set (accounts : List OAuthAccount) (roles : Option (Finset UserRole)) (u : User) : User :=
  { u with oauthAccounts := accounts, roles := roles.getD u.roles }

/-- **What an operation answers and leaves.** -/
def exec (o : Op) (w : World) : Resp o × World :=
  match o with
  | .findByAccount oauthName accountId =>
    (w.rows.find? fun u => decide (u.Has (oauthName, accountId)), w)
  | .findByEmail email =>
    (w.rows.find? fun u => decide (db.storedEmail u.email = db.askedEmail email), w)
  | .updateUser id accounts roles =>
    match w.get id with
    | none => (.ok none, w)
    | some u =>
      if db.refuses (u.set accounts roles) then (.error .storage, w)
      else (.ok (some (u.set accounts roles)), w.modify id (.set accounts roles) fun _ => rfl)
  | .insertUser user =>
    if db.refuses user then (.error .storage, w)
    else match w.insert? (SharesEmail db) user with
      | some w' => (.ok user, w')
      | none => (.error .duplicateKey, w)

/-! ## The programs -/

/-- A program of the sign-ins. -/
abbrev Service (α : Type) : Type := Prog Resp Exc α

/-- Call one operation. -/
abbrev call (o : Op) : Service (Resp o) := Prog.perform o

/-- Get the user who has the OAuth account of the provider and account id. -/
def getUserByOauthAccount (oauthName accountId : String) : Service (Option User) :=
  call (.findByAccount oauthName accountId)

/-- Get the user of the email, whatever its case. -/
def getUserByEmail (email : String) : Service (Option User) := call (.findByEmail email)

/-- The accounts of a user, with new values for those of this provider and account id. -/
def renewed (oauthName accountId : String) (values : AccountValues)
    (accounts : List OAuthAccount) : List OAuthAccount :=
  accounts.map fun account =>
    if account.oauthName = oauthName ∧ account.accountId = accountId then
      { values with id := account.id }
    else account

/-- **Replace the values of the user's account** of the provider and account id. -/
def updateOauthAccount (user : User) (oauthName accountId : String) (values : AccountValues) :
    Service (Option User) := do
  ofExcept (← call
    (.updateUser user.id (renewed oauthName accountId values user.oauthAccounts) none))

/-- **Link an account to the user**, who gains the roles it grants. -/
def addOauthAccount (user : User) (account : AccountValues) (roles : Finset UserRole)
    (newAccountId : Id) : Service (Option User) := do
  ofExcept (← call
    (.updateUser user.id (user.oauthAccounts ++ [{ account with id := newAccountId }])
      (some (user.roles ∪ roles))))

/-- **Create a user with its first account**, in one write. -/
def createOauthUser (email : String) (isVerified : Bool) (account : AccountValues)
    (roles : Finset UserRole) (newUserId newAccountId : Id) : Service (Option User) := do
  let user : User :=
    { id := newUserId, email := email, isVerified := isVerified
      oauthAccounts := [{ account with id := newAccountId }] }
  return some (← ofExcept (← call (.insertUser { user with roles := user.roles ∪ roles })))

/-- A sign-in, with the ids it may generate. -/
structure SignIn where
  providerName : String
  provider : OAuthProvider
  account : ToldAccount
  newUserId : Id
  newAccountId : Id
  deriving DecidableEq, Repr

/-- The values of the account that signs in. -/
def SignIn.values (s : SignIn) : AccountValues :=
  { s.account with oauthName := s.providerName }

/-- The account that signs in. -/
def SignIn.key (s : SignIn) : String × String := (s.providerName, s.account.accountId)

/-- The roles that the provider grants. -/
def SignIn.roles (s : SignIn) : Finset UserRole := s.provider.roles.toFinset

/-- **Get the user an account signs in**, linking or creating them as the rule says. -/
def signInWithOauth (s : SignIn) : Service (Option User) := do
  if !db.matchesStart s.provider.emailRegex s.account.accountEmail then throw .emailNotPermitted
  match ← getUserByOauthAccount s.providerName s.account.accountId with
  | some user => updateOauthAccount user s.providerName s.account.accountId s.values
  | none =>
    match ← getUserByEmail s.account.accountEmail with
    | some user =>
      if !s.provider.shouldAssociateByEmail then throw .userAlreadyExists
      addOauthAccount user s.values s.roles s.newAccountId
    | none =>
      createOauthUser s.account.accountEmail s.provider.isVerifiedByDefault s.values s.roles
        s.newUserId s.newAccountId

/-! ## One sign-in after another -/

/-- What a sign-in comes to, and the users after it. -/
def signIn (w : World) (s : SignIn) : Except Exc (Option User) × World :=
  (signInWithOauth db s).run (exec db) w

/-- **The users after sign-ins**, each starting after the last ended. -/
def signIns (w : World) (calls : List SignIn) : World :=
  calls.foldl (fun w s => (signIn db w s).2) w

end

end Mss.SignIns
