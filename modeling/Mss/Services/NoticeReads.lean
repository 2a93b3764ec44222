import Mss.Notices
import Mss.Services.NoticeEmails
import Mss.Services.Projects

/-!
# Reading notices

A notice is addressed to one user, or is a broadcast that all share. A user has read a notice that
holds their id in `dismissed_by`; a notice addressed to a user also keeps when it was read.

* `Notice`, `Notice.validateRecord`: the notices, and the rules of their schema.
* `NoticeCondition`, `NoticeChanges`, `Op`, `exec`: the filters, the updates, the operations.
* **`setReadStatus`, `setReadStatusMany`**: a user reads, or unreads, one notice or all of theirs.
* **`clearNoticesByReference`**: the notices about something that is settled are read.
* `publishCustomNotice`, `createSystemNotice`: the notices created.
* `Call`, `runCalls`: a sequence of calls.
-/

namespace Mss.Reads

open Atomic Storage Prog

/-! ## Notices -/

/-- The kinds of notices: the system's, and the two that people write. -/
inductive NoticeTypeId
  | system (type : Mss.NoticeTypeId)
  | custom
  | customBroadcast
  deriving DecidableEq, Repr

/-- How urgent a notice is. -/
inductive NoticeSeverity
  | critical | warning | info
  deriving DecidableEq, Repr

/-- **A notice**, less the context and the counts that only its email needs. -/
structure Notice where
  id : Id
  type : NoticeTypeId
  title : String
  body : String
  userId : Option Id := none
  createdBy : Option Id := none
  severity : NoticeSeverity := .info
  refType : Option RefType := none
  refId : Option Id := none
  emailStatus : Emails.EmailStatus := .notApplicable
  readAt : Option String := none
  dismissedBy : List Id := []
  startsAt : Option ℤ := none
  expiresAt : Option ℤ := none
  updatedAt : Option String
  deriving DecidableEq, Repr

/-- Whether a text is there and not empty. -/
def isTruthy (text : Option String) : Bool := text.any (· ≠ "")

/-- **The rules of a notice**: a broadcast has no user and no time it was read, and what its user has
read holds their id. -/
def Notice.validateRecord (n : Notice) : Except String Unit :=
  if n.createdBy = none ∧ n.type = .custom then
    .error "Custom notice cannot be created by no one"
  else if n.type = .customBroadcast then
    if isTruthy n.userId then .error "Custom broadcast notices should not have target users"
    else if isTruthy n.readAt then
      .error "Custom broadcast notices can not have read_at set"
    else .ok ()
  else
    match n.userId with
    | none => .error "Non-broadcast notices should have target users"
    | some userId =>
      if isTruthy n.readAt ∧ userId ∉ n.dismissedBy then
        .error "Non-broadcast notices when read must also append user_id to dismissed_by"
      else .ok ()

/-- Whether the ids a notice holds are ids. -/
def Notice.holdsIds (n : Notice) : Bool :=
  n.userId.all isId && n.createdBy.all isId && n.refId.all isId && n.dismissedBy.all isId

/-- The notice has not expired. -/
def Notice.isUnexpired (now : ℤ) (n : Notice) : Bool := n.expiresAt.all (now < ·)

/-- The errors raised. -/
inductive Exc
  | notFound (msg : String)
  | duplicateKey
  | validation (msg : String)
  | attributeError (name : String)
  | keyError (key : String)
  | storage
  deriving DecidableEq, Repr

/-- The notice of a schema's values, validated. -/
def Notice.modelValidate (n : Notice) : Except Exc Notice :=
  if n.holdsIds then
    match n.validateRecord with
    | .ok _ => .ok n
    | .error msg => .error (.validation msg)
  else .error (.validation "String should match pattern '^[0-9a-f]\x7b24\x7d$'")

/-! ## Filters and updates -/

/-- A condition of a filter. A user, in a filter, is none where it is null. -/
inductive NoticeCondition
  | id (pk : Id)
  | userIn (ids : List (Option Id))
  | user (id : Option Id)
  | type (t : NoticeTypeId)
  | typeNot (t : NoticeTypeId)
  | typeIn (ts : List NoticeTypeId)
  | unread
  | refs (refTypeIdsMap : List (RefType × List Id))
  | expiresLaterOrNever (now : ℤ)
  | startsFrom (t : ℤ)
  | startsUntil (t : ℤ)
  | expiresFrom (t : ℤ)
  | expiresUntil (t : ℤ)
  | dismissedBy (id : Option Id)
  | notDismissedBy (id : Option Id)
  deriving DecidableEq, Repr

/-- Whether a notice meets the condition. -/
def NoticeCondition.matches (c : NoticeCondition) (n : Notice) : Bool :=
  match c with
  | .id pk => n.id = pk
  | .userIn ids => n.userId ∈ ids
  | .user userId => n.userId = userId
  | .type t => n.type = t
  | .typeNot t => n.type ≠ t
  | .typeIn ts => n.type ∈ ts
  | .unread => n.readAt = none
  | .refs m => m.any fun ref => n.refType = some ref.1 && n.refId.any (· ∈ ref.2)
  | .expiresLaterOrNever now => n.expiresAt.all (now ≤ ·)
  | .startsFrom t => n.startsAt.any (t ≤ ·)
  | .startsUntil t => n.startsAt.any (· ≤ t)
  | .expiresFrom t => n.expiresAt.any (t ≤ ·)
  | .expiresUntil t => n.expiresAt.any (· ≤ t)
  | .dismissedBy userId => userId.any (· ∈ n.dismissedBy)
  | .notDismissedBy userId => !userId.any (· ∈ n.dismissedBy)

/-- **A filter**: all of its conditions. -/
abbrev NoticeFilter := List NoticeCondition

/-- Whether the filter matches a notice. -/
def NoticeFilter.matches (f : NoticeFilter) (n : Notice) : Bool := List.all f (·.matches n)

/-- A change of who has read a notice: `$addToSet`, of none where it is null, or `$pull`. -/
inductive DismissedChange
  | addToSet (userId : Option Id)
  | pull (userId : Id)
  deriving DecidableEq, Repr

/-- The list after the change. A null is no id, so that it is not added. -/
def DismissedChange.apply : DismissedChange → List Id → List Id
  | addToSet none, ids => ids
  | addToSet (some userId), ids => if userId ∈ ids then ids else ids ++ [userId]
  | pull userId, ids => ids.filter (· ≠ userId)

/-- **An update of notices**: each field changed. -/
structure NoticeChanges where
  dismissedBy : Option DismissedChange := none
  readAt : Option (Option String) := none
  expiresAt : Option ℤ := none
  updatedAt : String
  deriving DecidableEq, Repr

/-- The notice after an update. -/
def Notice.apply (u : NoticeChanges) (n : Notice) : Notice :=
  { n with
    dismissedBy := (u.dismissedBy.map (·.apply n.dismissedBy)).getD n.dismissedBy
    readAt := u.readAt.getD n.readAt
    expiresAt := (u.expiresAt.map some).getD n.expiresAt
    updatedAt := some u.updatedAt }

@[simp] theorem Notice.apply_id (u : NoticeChanges) (n : Notice) : (n.apply u).id = n.id := rfl

/-! ## The operations -/

/-- What a notice's title and body are made from. -/
inductive NoticeContext
  | projectRequest (context : ProjectRequestContext)
  | custom (title body : String)
  deriving DecidableEq, Repr

/-- The template of a kind of notice. -/
structure NoticeTemplate where
  type : NoticeTypeId
  title : String
  body : String
  severity : NoticeSeverity
  deriving DecidableEq, Repr

/-- A user's email preferences, by the kind of notice. -/
structure NoticePreferences where
  userId : Id
  emailPrefs : List (NoticeTypeId × Bool)
  deriving DecidableEq, Repr

/-- **What the services share**: the clock, in microseconds, the notices and what they are made
from. -/
structure World where
  backend : Backend
  now : ℤ
  notices : Table Notice Notice.id := .empty
  templates : Table NoticeTemplate NoticeTemplate.type := .empty
  preferences : Table NoticePreferences NoticePreferences.userId := .empty
  users : Table User User.id := .empty
  projects : Table Project Project.id := .empty
  deletedProjects : Table DeletedProject (fun p => p.id) := .empty

/-- **The operations**; time passes, and expired notices are deleted, by operations of their own. -/
inductive Op
  | readClock
  | updateNotice (f : NoticeFilter) (u : NoticeChanges)
  | updateNotices (f : NoticeFilter) (u : NoticeChanges)
  | findDistinctUserIds (f : NoticeFilter)
  | insertNotices (ns : List Notice)
  | getTemplate (type : NoticeTypeId)
  | findPreferences (userIds : List Id)
  | findUsersByEmail (emails : List String)
  | getProject (id : Id)
  | getDeletedProject (id : Id)
  | deleteExpired (now : ℤ)
  | passTime (micros : ℕ)
  deriving DecidableEq

/-- What an operation answers. -/
@[reducible] def Resp : Op → Type
  | .readClock => ℤ
  | .updateNotice _ _ => Option Notice
  | .updateNotices _ _ => ℕ
  | .findDistinctUserIds _ => List (Option Id)
  | .insertNotices _ => Except Exc Unit
  | .getTemplate _ => Option NoticeTemplate
  | .findPreferences _ => List NoticePreferences
  | .findUsersByEmail _ => List User
  | .getProject _ => Option Project
  | .getDeletedProject _ => Option DeletedProject
  | .deleteExpired _ => Unit
  | .passTime _ => Unit

/-- Whether an operation reaches a notice: it matches, and has not expired. -/
def World.reaches (w : World) (f : NoticeFilter) (n : Notice) : Bool :=
  f.matches n && n.isUnexpired w.now

/-- Update a notice that is reached. -/
def World.updateIf (w : World) (f : NoticeFilter) (u : NoticeChanges) (n : Notice) : Notice :=
  if w.reaches f n then n.apply u else n

theorem World.updateIf_id (w : World) (f : NoticeFilter) (u : NoticeChanges) (n : Notice) :
    (w.updateIf f u n).id = n.id := by
  unfold updateIf
  split_ifs <;> rfl

/-- The notices after an `insert_many`: in SQL one transaction, in MongoDB one insert at a time. -/
def insertMany (b : Backend) (t : Table Notice Notice.id) (ns : List Notice) :
    Except Exc Unit × Table Notice Notice.id :=
  match t.insertInOrder (fun _ _ => False) ns, b with
  | (t', true), _ => (.ok (), t')
  | (_, false), .sql => (.error .duplicateKey, t)
  | (t', false), .mongodb => (.error .duplicateKey, t')

/-- What the host gives: an instant as ISO 8601 text, lower case and the database's collation of a
text, and a template's text with the values of a context. -/
structure Host where
  datetimeToZulu : ℤ → String
  lower : String → String
  collate : String → String
  formatMap : String → NoticeContext → Except Exc String

variable (h : Host)

/-- **What an operation answers and leaves.** -/
def exec (o : Op) (w : World) : Resp o × World :=
  match o with
  | .readClock => (w.now, w)
  | .updateNotice f u => match w.notices.rows.find? (w.reaches f) with
    | some n => (some (n.apply u),
        { w with notices := w.notices.modify n.id (.apply u) (Notice.apply_id u) })
    | none => (none, w)
  | .updateNotices f u =>
    (w.notices.rows.countP fun n => w.updateIf f u n ≠ n,
      { w with notices := w.notices.mapRows (w.updateIf f u) (w.updateIf_id f u) })
  | .findDistinctUserIds f =>
    (((w.notices.rows.filter (w.reaches f)).map (·.userId)).dedup, w)
  | .insertNotices ns =>
    ((insertMany w.backend w.notices ns).1,
      { w with notices := (insertMany w.backend w.notices ns).2 })
  | .getTemplate type => (w.templates.get type, w)
  | .findPreferences userIds => (w.preferences.rows.filter (·.userId ∈ userIds), w)
  | .findUsersByEmail emails =>
    (w.users.rows.filter fun u =>
      h.collate u.email ∈ emails.map (w.backend.asked h.lower h.collate), w)
  | .getProject id => (w.projects.get id, w)
  | .getDeletedProject id => (w.deletedProjects.get id, w)
  | .deleteExpired now =>
    ((), { w with notices := w.notices.eraseWhere fun n => !n.isUnexpired now })
  | .passTime micros => ((), { w with now := w.now + micros })

/-- A program of the notices service. -/
abbrev Service (α : Type) : Type := Prog Resp Exc α

/-- Call one operation. -/
abbrev call (o : Op) : Service (Resp o) := Prog.perform o

/-- The current time as text. -/
def getCurrentTimestamp : Service String := do
  let now ← call .readClock
  return h.datetimeToZulu now

/-! ## Reading -/

/-- What reading, or unreading, changes of a broadcast: all share it, so that its read state lives
in `dismissed_by` alone. -/
def broadcastUpdate (userId : Id) (isRead : Bool) (now : String) : NoticeChanges :=
  if isRead then { dismissedBy := some (.addToSet userId), updatedAt := now }
  else { dismissedBy := some (.pull userId), updatedAt := now }

/-- What reading, or unreading, changes of a notice addressed to the user. -/
def directUpdate (userId : Id) (isRead : Bool) (now : String) : NoticeChanges :=
  if isRead then
    { dismissedBy := some (.addToSet userId), readAt := some (some now), updatedAt := now }
  else { dismissedBy := some (.pull userId), readAt := some none, updatedAt := now }

/-- **Set whether a user has read a notice.** -/
def setReadStatus (pk userId : Id) (isRead : Bool) : Service Notice := do
  let noticeFilter : NoticeFilter := [.id pk, .userIn [some userId, none]]
  let now ← getCurrentTimestamp h
  let broadcast ← call (.updateNotice (noticeFilter ++ [.type .customBroadcast])
    (broadcastUpdate userId isRead now))
  match broadcast with
  | some notice => return notice
  | none =>
    let direct ← call (.updateNotice (noticeFilter ++ [.typeNot .customBroadcast])
      (directUpdate userId isRead now))
    match direct with
    | some notice => return notice
    | none => throw (.notFound ("notice of ID '" ++ pk ++ "' not found"))

/-- The constraints of a query of notices. -/
structure NoticeQuery where
  userId : Option Id := none
  minStartUtc : Option ℤ := none
  maxStartUtc : Option ℤ := none
  minExpiresUtc : Option ℤ := none
  maxExpiresUtc : Option ℤ := none
  shouldIncludeDismissed : Bool := false
  types : List NoticeTypeId := []
  isRead : Option Bool := none
  deriving DecidableEq, Repr

/-- The filter of the notices that fit the query. -/
def getNoticeFilter (query : NoticeQuery) : NoticeFilter := List.flatten [
  if isTruthy query.userId then [.userIn [query.userId, none]] else [],
  query.minStartUtc.toList.map .startsFrom,
  query.maxStartUtc.toList.map .startsUntil,
  query.minExpiresUtc.toList.map .expiresFrom,
  query.maxExpiresUtc.toList.map .expiresUntil,
  if query.types ≠ [] then [.typeIn query.types] else [],
  if isTruthy query.userId && !query.shouldIncludeDismissed then
    [.notDismissedBy query.userId] else [],
  if query.isRead = some false then [.notDismissedBy query.userId] else [],
  if query.isRead = some true then [.dismissedBy query.userId] else []]

/-- **Set whether a user has read all of their notices.** -/
def setReadStatusMany (userId : Id) (isRead : Bool) : Service ℕ :=
  if isId userId then do
    let noticeFilter := getNoticeFilter
      { userId := some userId, shouldIncludeDismissed := true, isRead := some (!isRead) }
    let now ← getCurrentTimestamp h
    let broadcastCount ← call (.updateNotices (noticeFilter ++ [.type .customBroadcast])
      (broadcastUpdate userId isRead now))
    let directCount ← call (.updateNotices (noticeFilter ++ [.typeNot .customBroadcast])
      (directUpdate userId isRead now))
    return broadcastCount + directCount
  else throw (.validation "String should match pattern '^[0-9a-f]\x7b24\x7d$'")

/-! ## Clearing -/

/-- The filter of the unread, unexpired notices of the given references. -/
def getUnreadRefFilter (refTypeIdsMap : List (RefType × List Id)) (now : ℤ) : NoticeFilter :=
  [.unread, .refs refTypeIdsMap, .expiresLaterOrNever now]

/-- Expire the broadcasts of the filter, as all share them. -/
def expireBroadcasts (unreadFilter : NoticeFilter) (timestamp : String) (now : ℤ) : Service ℕ :=
  call (.updateNotices (unreadFilter ++ [.type .customBroadcast])
    { expiresAt := some now, updatedAt := timestamp })

/-- Mark the notices of each of the users read by them, and expire them. -/
def markEachRead (directFilter : NoticeFilter) (timestamp : String) (now : ℤ) :
    List (Option Id) → Service ℕ
  | [] => pure 0
  | userId :: userIds => do
    let count ← call (.updateNotices (directFilter ++ [.user userId])
      { dismissedBy := some (.addToSet userId), readAt := some (some timestamp),
        expiresAt := some now, updatedAt := timestamp })
    let rest ← markEachRead directFilter timestamp now userIds
    return count + rest

/-- Mark the notices of the filter that are addressed to users read by them, and expire them. -/
def markDirectNoticesRead (unreadFilter : NoticeFilter) (timestamp : String) (now : ℤ) :
    Service ℕ := do
  let directFilter := unreadFilter ++ [.typeNot .customBroadcast]
  let userIds ← call (.findDistinctUserIds directFilter)
  markEachRead directFilter timestamp now userIds

/-- **Mark read every unread notice of the given references.** -/
def clearNoticesByReference (refTypeIdsMap : List (RefType × List Id)) : Service ℕ := do
  if refTypeIdsMap = [] then return 0
  let now ← call .readClock
  let timestamp ← getCurrentTimestamp h
  let unreadFilter := getUnreadRefFilter refTypeIdsMap now
  let count ← expireBroadcasts unreadFilter timestamp now
  let direct ← markDirectNoticesRead unreadFilter timestamp now
  return count + direct

/-! ## Creating -/

/-- The values of a notice that its template does not give. -/
structure NoticeFields where
  id : Id
  userId : Option Id := none
  createdBy : Option Id := none
  severity : Option NoticeSeverity := none
  refType : Option RefType := none
  refId : Option Id := none
  emailStatus : Emails.EmailStatus := .notApplicable
  startsAt : Option ℤ := none
  expiresAt : Option ℤ
  updatedAt : Option String
  deriving DecidableEq, Repr

/-- **A notice from a template**, its title and body filled in from the context. -/
def Notice.fromTemplate (template : NoticeTemplate) (context : NoticeContext)
    (fields : NoticeFields) : Except Exc Notice := do
  let title ← h.formatMap template.title context
  let body ← h.formatMap template.body context
  Notice.modelValidate
    { id := fields.id, type := template.type, title, body, userId := fields.userId,
      createdBy := fields.createdBy, severity := fields.severity.getD template.severity,
      refType := fields.refType, refId := fields.refId, emailStatus := fields.emailStatus,
      startsAt := fields.startsAt, expiresAt := fields.expiresAt, updatedAt := fields.updatedAt }

/-- The template found; what is looked up on `None` is no attribute of it. -/
def requireTemplate : Option NoticeTemplate → Except Exc NoticeTemplate
  | some template => .ok template
  | none => .error (.attributeError "model_dump")

/-- The payload of a custom notice. -/
structure CustomNoticeCreate where
  message : String
  severity : NoticeSeverity
  expiresAt : ℤ
  startsAt : ℤ
  targetUserEmails : List String := []
  deriving DecidableEq, Repr

/-- What a call of the service generates: the id of each notice it creates, and their timestamp. -/
structure Generated where
  ids : ℕ → Id
  now : String

/-- The values of the `i`-th notice of a payload, for a user or for all. -/
def CustomNoticeCreate.fields (payload : CustomNoticeCreate) (g : Generated) (createdBy : Id)
    (i : ℕ) (userId : Option Id) : NoticeFields where
  id := g.ids i
  userId := userId
  createdBy := some createdBy
  severity := some payload.severity
  startsAt := some payload.startsAt
  expiresAt := some payload.expiresAt
  updatedAt := some g.now

/-- **The notices of a payload**: one for each of the users found, or a single broadcast. -/
def CustomNoticeCreate.toDocuments (payload : CustomNoticeCreate) (g : Generated)
    (createdBy : Id) : Service (List Notice) := do
  let context := NoticeContext.custom payload.message payload.message
  if payload.targetUserEmails ≠ [] then
    let users ← call (.findUsersByEmail payload.targetUserEmails)
    let template ← call (.getTemplate .custom)
    ofExcept (users.zipIdx.mapM fun user => do
      let template ← requireTemplate template
      Notice.fromTemplate h template context (payload.fields g createdBy user.2 (some user.1.id)))
  else
    let template ← call (.getTemplate .customBroadcast)
    ofExcept do
      let template ← requireTemplate template
      let notice ← Notice.fromTemplate h template context (payload.fields g createdBy 0 none)
      return [notice]

/-- **Publish a custom notice**: one for each target user, or one broadcast. -/
def publishCustomNotice (g : Generated) (currentUserId : Id) (payload : CustomNoticeCreate) :
    Service (List Notice) := do
  let notices ← payload.toDocuments h g currentUserId
  let inserted ← call (.insertNotices notices)
  ofExcept inserted
  return notices

/-- The name of a project, or of a deleted one, for a context that has only its id. -/
def withProjectName (context : NoticeContext) : Service NoticeContext :=
  match context with
  | .projectRequest c =>
    if c.projectName = "" ∧ isId c.projectId then do
      let project ← call (.getProject c.projectId)
      match project with
      | some p => return .projectRequest { c with projectName := p.name }
      | none =>
        let deleted ← call (.getDeletedProject c.projectId)
        match deleted with
        | some p => return .projectRequest { c with projectName := p.name }
        | none => return context
    else return context
  | .custom _ _ => return context

/-- Whether a user takes emails of a kind of notice; a user does who has not opted out. -/
def takesEmail (preferences : List NoticePreferences) (type : NoticeTypeId) (userId : Id) : Bool :=
  match preferences.find? (·.userId = userId) with
  | some record => (record.emailPrefs.lookup type).getD true
  | none => true

/-- What is asked for where a system notice is created. -/
structure SystemNoticeCreate where
  userIds : List Id
  noticeType : NoticeTypeId
  context : NoticeContext
  refType : Option RefType := none
  refId : Option Id := none
  deriving DecidableEq, Repr

/-- The configuration of the notices: how long they are kept, in days, and whether emails are
sent. -/
structure NoticesConfig where
  retentionDays : ℕ := 90
  isEmailEnabled : Bool := false

/-- A day, in microseconds. -/
def day : ℤ := 86400000000

/-- The values of the `i`-th system notice, for a user. -/
def SystemNoticeCreate.fields (conf : NoticesConfig) (g : Generated)
    (preferences : List NoticePreferences) (expiresAt : ℤ) (create : SystemNoticeCreate) (i : ℕ)
    (userId : Id) : NoticeFields where
  id := g.ids i
  userId := some userId
  refType := create.refType
  refId := create.refId
  emailStatus :=
    if conf.isEmailEnabled && takesEmail preferences create.noticeType userId then .pending
    else .notApplicable
  expiresAt := some expiresAt
  updatedAt := some g.now

/-- The part of creating system notices that may raise. -/
def renderAndInsert (conf : NoticesConfig) (g : Generated) (create : SystemNoticeCreate) :
    Service (List Notice) := do
  let context ← withProjectName create.context
  let template ← call (.getTemplate create.noticeType)
  let preferences ← call (.findPreferences create.userIds)
  let now ← call .readClock
  let notices ← ofExcept (create.userIds.dedup.zipIdx.mapM fun user => do
    let template ← requireTemplate template
    Notice.fromTemplate h template context
      (create.fields conf g preferences (now + conf.retentionDays * day) user.2 user.1))
  let inserted ← call (.insertNotices notices)
  ofExcept inserted
  return notices

/-- **Create a system notice for each of the users**; it never raises. -/
def createSystemNotice (conf : NoticesConfig) (g : Generated) (create : SystemNoticeCreate) :
    Service (List Notice) :=
  if create.userIds = [] then pure []
  else tryCatch (renderAndInsert h conf g create) fun _ => pure []

/-! ## Sequences of calls -/

/-- **A call**, with what it generates; time passes and expired notices are deleted between calls. -/
inductive Call
  | setReadStatus (pk userId : Id) (isRead : Bool)
  | setReadStatusMany (userId : Id) (isRead : Bool)
  | clearNoticesByReference (refTypeIdsMap : List (RefType × List Id))
  | publishCustomNotice (g : Generated) (currentUserId : Id) (payload : CustomNoticeCreate)
  | createSystemNotice (conf : NoticesConfig) (g : Generated) (create : SystemNoticeCreate)
  | deleteExpired (now : ℤ)
  | passTime (micros : ℕ)

/-- The program of a call. -/
def Call.service : Call → Service Unit
  | setReadStatus pk userId isRead => do
    let _ ← Reads.setReadStatus h pk userId isRead
  | setReadStatusMany userId isRead => do
    let _ ← Reads.setReadStatusMany h userId isRead
  | clearNoticesByReference refTypeIdsMap => do
    let _ ← Reads.clearNoticesByReference h refTypeIdsMap
  | publishCustomNotice g currentUserId payload => do
    let _ ← Reads.publishCustomNotice h g currentUserId payload
  | createSystemNotice conf g create => do
    let _ ← Reads.createSystemNotice h conf g create
  | deleteExpired now => call (.deleteExpired now)
  | passTime micros => call (.passTime micros)

/-- The user whose read state the call sets. -/
def Call.reader : Call → Option Id
  | setReadStatus _ userId _ | setReadStatusMany userId _ => some userId
  | _ => none

/-- What a call leaves. -/
def Call.run (c : Call) (w : World) : World := ((c.service h).run (exec h) w).2

/-- What a sequence of calls leaves. -/
def runCalls (calls : List Call) (w : World) : World := calls.foldl (fun w c => c.run h w) w

end Mss.Reads
