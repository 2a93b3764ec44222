import Mss.Services.AppTokens
import Mss.Services.Handshakes

/-!
# Lifespans of app tokens

A token lives for some seconds after it was created. The seconds are a float, and the end of the
token's life is computed at each use: a difference of time has a greatest number of days, a datetime
its first and last year, and either raises beyond. A user may move the end of a token that lives.

* `timedelta`, `addTo`, `totalSeconds`: what Python makes of seconds, and of their sum with a
  datetime.
* `Store.read`, `World`, `Op`, `exec`: the tokens stored, and the operations on them.
* `createAppToken`, **`findUnexpiredToken`**, `getTokenOwner`, `updateAppTokenExpiry`: the services.
-/

namespace Mss.Lifespans

open Atomic Storage Prog
open Handshake (Number nearestDouble microsOf)

/-! ## Time -/

/-- The errors raised. -/
inductive Exc
  | forbidden (msg : String)
  | duplicateKey
  | overflowError
  | typeError
  | valueError
  deriving DecidableEq, Repr

/-- The first microsecond of the year 1, from 1970. -/
def minDatetime : ℤ := -62135596800000000

/-- The last microsecond of the year 9999. -/
def maxDatetime : ℤ := 253402300799999999

/-- Whether a datetime has these microseconds. -/
def IsDatetime (micros : ℤ) : Prop := minDatetime ≤ micros ∧ micros ≤ maxDatetime

instance (micros : ℤ) : Decidable (IsDatetime micros) := by unfold IsDatetime; infer_instance

/-- The microseconds of a day. -/
def dayMicros : ℤ := 86400000000

/-- **A difference of time** of some seconds: it has at most 999999999 days, either way. -/
def timedelta : Number → Except Exc ℤ
  | .infinite _ => .error .overflowError
  | .nan => .error .valueError
  | .finite seconds =>
    let days := microsOf seconds / dayMicros
    if -999999999 ≤ days ∧ days ≤ 999999999 then .ok (microsOf seconds)
    else .error .overflowError

/-- Add a difference to a datetime. -/
def addTo (datetime difference : ℤ) : Except Exc ℤ :=
  if IsDatetime (datetime + difference) then .ok (datetime + difference)
  else .error .overflowError

/-- Subtract a datetime in UTC from another, which has to know its offset. -/
def subtract (d : DateTime) (utc : ℤ) : Except Exc ℤ :=
  match d.sub ⟨utc, some 0⟩ with
  | some micros => .ok micros
  | none => .error .typeError

/-- The seconds of a difference, as a float. -/
def totalSeconds (micros : ℤ) : ℚ := nearestDouble (micros / 1000000)

/-! ## Tokens and the operations -/

/-- The databases there are. -/
inductive Store
  | postgresql | sqlite | mongodb
  deriving DecidableEq, Repr

/-- The microseconds of a datetime as they are stored: MongoDB keeps whole milliseconds. -/
def Store.instant : Store → ℤ → ℤ
  | .mongodb, micros => micros / 1000 * 1000
  | _, micros => micros

/-- The token as it is read: SQLite has NULL for what is no number, which fails validation. -/
def Store.read (store : Store) (t : AppToken) : Except Exc AppToken :=
  if store = .sqlite ∧ t.lifespanSeconds = .nan then .error .valueError else .ok t

/-- **What the services share**: the clock, in microseconds, the tokens stored, the users, and the
projects as their members see them. -/
structure World where
  store : Store
  now : ℤ
  tokens : Table AppToken AppToken.id := .empty
  users : Id → Option User := fun _ => none
  projects : Id → Id → Option Project := fun _ _ => none

/-- What a token is found by. -/
inductive TokenFilter
  | ofToken (token : String)
  | ofOwner (id userId : Id)
  deriving DecidableEq, Repr

/-- Whether the filter matches the token. -/
def TokenFilter.matches : TokenFilter → AppToken → Bool
  | .ofToken token, t => t.token = token
  | .ofOwner id userId, t => t.id = id ∧ t.userId = userId

/-- **The operations.** -/
inductive Op
  | readClock
  | getUser (id : Id)
  | getProjectIfMember (id userId : Id)
  | insertToken (t : AppToken)
  | findToken (filter : TokenFilter)
  | setLifespan (id : Id) (lifespanSeconds : Number)
  | deleteToken (id : Id)
  deriving DecidableEq

/-- What an operation answers. -/
@[reducible] def Resp : Op → Type
  | .readClock => ℤ
  | .getUser _ => Option User
  | .getProjectIfMember _ _ => Option Project
  | .insertToken _ => Except Exc Unit
  | .findToken _ => Except Exc (Option AppToken)
  | .setLifespan _ _ => Except Exc (Option AppToken)
  | .deleteToken _ => Unit

/-- Two tokens of one string. -/
def Clash (a b : AppToken) : Prop := a.token = b.token

instance (a b : AppToken) : Decidable (Clash a b) := by unfold Clash; infer_instance

/-- Read a token, if there is one. -/
def readToken (store : Store) : Option AppToken → Except Exc (Option AppToken)
  | none => .ok none
  | some t => (store.read t).map some

/-- **What an operation answers and leaves.** -/
def exec (o : Op) (w : World) : Resp o × World :=
  match o with
  | .readClock => (w.now, w)
  | .getUser id => (w.users id, w)
  | .getProjectIfMember id userId => (w.projects id userId, w)
  | .insertToken t =>
    match w.tokens.insert? Clash { t with createdAt := w.store.instant t.createdAt } with
    | some tokens => (.ok (), { w with tokens })
    | none => (.error .duplicateKey, w)
  | .findToken filter => (readToken w.store (w.tokens.rows.find? filter.matches), w)
  | .setLifespan id lifespanSeconds =>
    let tokens := w.tokens.modify id (fun t => { t with lifespanSeconds }) fun _ => rfl
    (readToken w.store (tokens.get id), { w with tokens })
  | .deleteToken id => ((), { w with tokens := w.tokens.erase id })

/-- A program of the services. -/
abbrev Service (α : Type) : Type := Prog Resp Exc α

/-- Call one operation. -/
abbrev call (o : Op) : Service (Resp o) := Prog.perform o

/-! ## The services -/

/-- The id and the string of a new token. -/
structure Generated where
  id : Id
  token : String

/-- **Create an app token** for an active project the user is a member of. -/
def createAppToken (g : Generated) (payload : AppTokenCreate) (userId : Id) : Service AppToken := do
  match ← call (.getProjectIfMember payload.projectId userId) with
  | none => throw (.forbidden "Forbidden")
  | some project =>
    if !project.isActive then throw (.forbidden "Forbidden")
    else do
      let createdAt ← call .readClock
      let appToken : AppToken :=
        { payload with id := g.id, token := g.token, userId, createdAt }
      ofExcept (← call (.insertToken appToken))
      return appToken

/-- **Find the first token to match, deleting it instead if it has expired.** -/
def findUnexpiredToken (filter : TokenFilter) : Service (Option AppToken) := do
  match ← ofExcept (← call (.findToken filter)) with
  | none => return none
  | some appToken =>
    let lifespan ← ofExcept (timedelta appToken.lifespanSeconds)
    let expiresAt ← ofExcept (addTo appToken.createdAt lifespan)
    let now ← call .readClock
    if expiresAt ≤ now then
      let _ ← call (.deleteToken appToken.id)
      return none
    else return some appToken

/-- **The owner of an unexpired token**, if its user and their membership are there. -/
def getTokenOwner (token : String) : Service (Option TokenOwner) := do
  match ← findUnexpiredToken (.ofToken token) with
  | none => return none
  | some appToken =>
    let user ← call (.getUser appToken.userId)
    let project ← call (.getProjectIfMember appToken.projectId appToken.userId)
    match user, project with
    | some user, some project => return some { project, user }
    | _, _ => return none

/-- **Move the expiry of the user's unexpired token.** -/
def updateAppTokenExpiry (tokenId userId : Id) (expiresAt : DateTime) :
    Service (Option AppToken) := do
  match ← findUnexpiredToken (.ofOwner tokenId userId) with
  | none => return none
  | some appToken =>
    let lifespan ← ofExcept (subtract expiresAt appToken.createdAt)
    ofExcept (← call (.setLifespan appToken.id (.finite (totalSeconds lifespan))))

end Mss.Lifespans
