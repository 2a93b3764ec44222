import Mathlib.Data.List.Sort
import Mss.JobRecords
import Mss.Lib.Pool
import Mss.Lib.Table

/-!
# The emails of notices

A notice is the outbox entry of its own email. A process claims pending emails, and those whose
claim is stale as its process must have stopped; it sends them and records the results.

* `Notice`, `World`, `Op`, `exec`: the notices, the clock that all share, the operations.
* **`claimPendingEmails`**: find, then compare and set the number of attempts, one by one.
* `toEmailDetails`, `sendBatch`, `processEmailBatchResults`: what is sent and what comes of it.
* **`emailRound`**: one round of a process that emails.
-/

namespace Mss.Emails

open Atomic Storage Prog

/-! ## Notices -/

/-- The delivery state of the email of a notice. -/
inductive EmailStatus
  | notApplicable | pending | sending | sent | failed
  deriving DecidableEq, Repr

/-- A notice, less what is only shown. -/
structure Notice where
  id : Id
  title : String
  body : String
  userId : Option Id := none
  emailStatus : EmailStatus := .notApplicable
  emailAttempts : ℕ := 0
  expiresAt : Option ℤ := none
  updatedAt : Option String
  deriving DecidableEq, Repr

/-- The notice has not expired. -/
def Notice.isUnexpired (now : ℤ) (n : Notice) : Bool := n.expiresAt.all (now < ·)

/-- What the emailing reads of the notice to claim it: it is for a user, and its email is pending,
or was claimed before the time given and not settled since. -/
def Notice.isPendingEmail (now : ℤ) (staleBefore : String) (n : Notice) : Bool :=
  n.userId.isSome &&
    (n.emailStatus = .pending ||
      (n.emailStatus = .sending && n.updatedAt.any (· < staleBefore))) &&
    n.isUnexpired now

/-- The notice claimed once more. -/
def Notice.claim (updatedAt : String) (n : Notice) : Notice :=
  { n with
    emailAttempts := n.emailAttempts + 1
    emailStatus := .sending
    updatedAt := some updatedAt }

/-- The notice with its email's status set. -/
def Notice.setEmailStatus (status : EmailStatus) (updatedAt : String) (n : Notice) : Notice :=
  { n with
    emailStatus := status
    updatedAt := some updatedAt }

@[simp] theorem Notice.claim_id (updatedAt : String) (n : Notice) :
    (n.claim updatedAt).id = n.id := rfl

@[simp] theorem Notice.setEmailStatus_id (status : EmailStatus) (updatedAt : String) (n : Notice) :
    (n.setEmailStatus status updatedAt).id = n.id := rfl

/-- One `updated_at` sorts before another or with it; none sorts first. -/
def sortsBefore : Option String → Option String → Bool
  | none, _ => true
  | some _, none => false
  | some x, some y => x ≤ y

/-! ## The operations -/

/-- **What the processes share**: the clock, in microseconds, the notices and the users. -/
structure World where
  backend : Backend
  now : ℤ
  notices : Table Notice Notice.id := .empty
  users : Table User User.id := .empty

/-- **The operations**; time passes, and expired notices are deleted, by operations of their own. -/
inductive Op
  | readClock
  | findPendingEmail (now : ℤ) (staleBefore : String) (limit : ℕ)
  | claimEmail (id : Id) (attempts : ℕ) (updatedAt : String)
  | findUsersById (ids : List Id)
  | setEmailStatus (ids : List Id) (status : EmailStatus) (updatedAt : String)
  | deleteExpired (now : ℤ)
  | passTime (micros : ℕ)
  deriving DecidableEq

/-- What an operation answers. -/
@[reducible] def Resp : Op → Type
  | .readClock => ℤ
  | .findPendingEmail _ _ _ => List Notice
  | .claimEmail _ _ _ => Option Notice
  | .findUsersById _ => List User
  | .setEmailStatus _ _ _ => Unit
  | .deleteExpired _ => Unit
  | .passTime _ => Unit

/-- The first records, to the limit; MongoDB takes a limit of 0 for none. -/
def limited {α : Type} (b : Backend) (limit : ℕ) (xs : List α) : List α :=
  if b = .mongodb ∧ limit = 0 then xs else xs.take limit

/-- The unexpired notice of an id that was claimed so many times. -/
def World.findClaimable (w : World) (id : Id) (attempts : ℕ) : Option Notice :=
  (w.notices.get id).filter fun n => n.isUnexpired w.now && n.emailAttempts = attempts

/-- Set the status of the notice's email, if it is one of those given and has not expired. -/
def World.setStatus (w : World) (ids : List Id) (status : EmailStatus) (updatedAt : String)
    (n : Notice) : Notice :=
  if n.id ∈ ids ∧ n.isUnexpired w.now then n.setEmailStatus status updatedAt else n

theorem World.setStatus_id (w : World) (ids : List Id) (status : EmailStatus) (updatedAt : String)
    (n : Notice) : (w.setStatus ids status updatedAt n).id = n.id := by
  unfold setStatus
  split_ifs <;> rfl

/-- **What an operation answers and leaves.** -/
def exec (o : Op) (w : World) : Resp o × World :=
  match o with
  | .readClock => (w.now, w)
  | .findPendingEmail now staleBefore limit =>
    (limited w.backend limit ((w.notices.rows.filter fun n =>
      n.isPendingEmail now staleBefore && n.isUnexpired w.now).insertionSort
        fun a b => sortsBefore a.updatedAt b.updatedAt), w)
  | .claimEmail id attempts updatedAt => match w.findClaimable id attempts with
    | some n => (some (n.claim updatedAt),
        { w with notices := w.notices.modify id (.claim updatedAt) (Notice.claim_id updatedAt) })
    | none => (none, w)
  | .findUsersById ids => (w.users.rows.filter (·.id ∈ ids), w)
  | .setEmailStatus ids status updatedAt => ((), { w with
      notices := w.notices.mapRows (w.setStatus ids status updatedAt)
        (w.setStatus_id ids status updatedAt) })
  | .deleteExpired now =>
    ((), { w with notices := w.notices.eraseWhere fun n => !n.isUnexpired now })
  | .passTime micros => ((), { w with now := w.now + micros })

/-- The errors raised; the emailing raises none of its own. -/
inductive Exc
  | storage

/-- A program of the emailing. -/
abbrev Service (α : Type) : Type := Prog Resp Exc α

/-- Call one operation. -/
abbrev call (o : Op) : Service (Resp o) := Prog.perform o

/-! ## Claiming -/

/-- What the host gives: an instant as ISO 8601 text, in the precision configured. -/
structure Host where
  datetimeToZulu : ℤ → String

variable (h : Host)

/-- How long a claim on an email stands before another process takes it over: 10 minutes. -/
def claimLifespan : ℤ := 600000000

/-- The current time as text. -/
def getCurrentTimestamp : Service String := do
  let now ← call .readClock
  return h.datetimeToZulu now

/-- The notices whose emails are pending, or claimed by a process that stopped. -/
def findNoticesPendingEmail (limit : ℕ) : Service (List Notice) := do
  let now ← call .readClock
  call (.findPendingEmail now (h.datetimeToZulu (now - claimLifespan)) limit)

/-- Claim each of the notices, unless another process claimed it first. -/
def claimEach (now : String) : List Notice → Service (List Notice)
  | [] => pure []
  | v :: notices => do
    let claimed ← call (.claimEmail v.id v.emailAttempts now)
    let rest ← claimEach now notices
    return claimed.toList ++ rest

/-- **Claim up to `limit` pending emails for this process.** -/
def claimPendingEmails (limit : ℕ) : Service (List Notice) := do
  let notices ← findNoticesPendingEmail h limit
  let now ← getCurrentTimestamp h
  claimEach now notices

/-! ## Recording the results -/

/-- The result of sending one email. -/
structure EmailResult where
  isSuccess : Bool
  refId : Id
  canRetry : Bool
  deriving DecidableEq, Repr

/-- The status that a result gives. -/
def EmailResult.status (v : EmailResult) : EmailStatus :=
  if v.isSuccess then .sent else if v.canRetry then .pending else .failed

/-- The ids of the notices whose results give a status. -/
def partitionResults (results : List EmailResult) (status : EmailStatus) : List Id :=
  (results.filter (·.status = status)).map (·.refId)

/-- Set the status of the emails of the notices. -/
def setEmailStatus (ids : List Id) (status : EmailStatus) : Service Unit := do
  let now ← getCurrentTimestamp h
  call (.setEmailStatus ids status now)

/-- An order in which the three statuses, gathered, come to be set. -/
abbrev GatherOrder : Type := {l : List EmailStatus // l.Perm [.sent, .failed, .pending]}

/-- Set each of the statuses that results give. -/
def setEach (results : List EmailResult) : List EmailStatus → Service Unit
  | [] => pure ()
  | status :: statuses => do
    setEmailStatus h (partitionResults results status) status
    setEach results statuses

/-- **Record the results of a batch**, in one of the orders they may be gathered in. -/
def processEmailBatchResults (order : GatherOrder) (results : List EmailResult) : Service Unit :=
  setEach h results order.1

/-! ## Sending -/

/-- The configuration of the notices. -/
structure NoticesConfig where
  emailRetryLimit : ℕ := 3
  dashboardUrl : String := ""
  appName : String := "Tergite"

/-- What is needed to send an email. -/
structure EmailDetails where
  toAddress : String
  subject : String
  body : String
  refId : Id
  canRetry : Bool := true
  deriving DecidableEq, Repr

variable (conf : NoticesConfig)

/-- The body of the email of a notice. -/
def toEmailBody (notice : Notice) : String :=
  "\n" ++ notice.title ++ "\n\n" ++ notice.body ++ "\n\nSee it in the dashboard: " ++
    conf.dashboardUrl ++ "\n\n--\nYou are receiving this because of activity on your " ++
    conf.appName ++ " account.\n"

/-- The email address of the user of a notice. -/
def emailOf (users : List User) (notice : Notice) : Option String := do
  let userId ← notice.userId
  let user ← users.find? (·.id = userId)
  return user.email

/-- The email of a notice to an address; its claim counted this attempt. -/
def emailDetails (notice : Notice) (toAddress : String) : EmailDetails where
  toAddress := toAddress
  subject := notice.title
  body := toEmailBody conf notice
  refId := notice.id
  canRetry := notice.emailAttempts < conf.emailRetryLimit

/-- The results of the notices of users without an address, whom no retry would help. -/
def unreachableResults (users : List User) (notices : List Notice) : List EmailResult :=
  (notices.filter fun v => (emailOf users v).isNone).map fun v => ⟨false, v.id, false⟩

/-- Mark the emails of users without an address failed, if there are any. -/
def failUnreachable (order : GatherOrder) (results : List EmailResult) : Service Unit :=
  if results ≠ [] then processEmailBatchResults h order results else pure ()

/-- The emails of the notices; those of users without an address are marked failed. -/
def toEmailDetails (order : GatherOrder) (notices : List Notice) :
    Service (List EmailDetails) := do
  let users ← call (.findUsersById (notices.filterMap (·.userId)))
  failUnreachable h order (unreachableResults users notices)
  return notices.filterMap fun v => (emailOf users v).map (emailDetails conf v)

/-- What becomes of a batch at the mail server: whether the connection held, and whether each of
the emails was taken. -/
structure Smtp where
  isConnected : Bool := true
  isSent : ℕ → Bool

/-- The results of sending a batch, each in its email's place. -/
def sendBatch (smtp : Smtp) (batch : List EmailDetails) : List EmailResult :=
  batch.mapIdx fun i detail => ⟨smtp.isConnected && smtp.isSent i, detail.refId, detail.canRetry⟩

/-- What differs from round to round. -/
structure Round where
  limit : ℕ := 50
  smtp : Smtp
  unreachableOrder : GatherOrder
  order : GatherOrder

/-- **One round of a process that emails**: claim, send, record. -/
def emailRound (round : Round) : Service Unit := do
  let notices ← claimPendingEmails h round.limit
  let batch ← toEmailDetails h conf round.unreachableOrder notices
  processEmailBatchResults h round.order (sendBatch round.smtp batch)

/-- Delete the notices expired by now. -/
def deleteExpiredRecords : Service Unit := do
  let now ← call .readClock
  call (.deleteExpired now)

end Mss.Emails
