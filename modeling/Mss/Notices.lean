import Mss.Records

/-!
# Notices

What the services tell users, as they hand it to the notices service: `SystemNotice` is the
arguments of one `create_system_notice` call. That service never raises and touches its own
tables only, so that a call of it is one operation of the model.
-/

namespace Mss

/-- The kinds of notices the modelled services create. -/
inductive NoticeTypeId
  | projectAccessRequested | projectAccessApproved | projectAccessRejected
  | projectCreateRequested | projectCreateApproved | projectCreateRejected
  | projectCloseRequested | projectCloseApproved | projectCloseRejected
  | projectTransferRequested | projectTransferApproved | projectTransferRejected
  | qpuSecondsRequested | qpuSecondsGranted | qpuSecondsDenied
  | qpuSecondsLow | qpuSecondsDepleted
  | pulseAccessRequested | pulseAccessGranted | pulseAccessDenied
  | projectMembershipGranted | projectMembershipRevoked | projectAdminAssigned
  deriving DecidableEq, Repr

/-- The values a notice about a project is filled in from; `seconds` is none where it is blank. -/
structure ProjectRequestContext where
  requesterName : String := ""
  projectId : String := ""
  projectName : String := ""
  reason : String := ""
  approverName : String := ""
  seconds : Option ℚ := none
  adminEmail : String := ""
  deriving DecidableEq, Repr

/-- **A notice asked for**: the users it is for, its kind, its values and what it refers to. -/
structure SystemNotice where
  userIds : List Id
  noticeType : NoticeTypeId
  context : ProjectRequestContext
  refType : RefType
  refId : Id
  deriving DecidableEq, Repr

/-- The notice type of a request of a type in a status. -/
def noticeTypes : RequestType → RequestStatus → NoticeTypeId
  | .createProject, .pending => .projectCreateRequested
  | .createProject, .rejected => .projectCreateRejected
  | .createProject, .approved => .projectCreateApproved
  | .closeProject, .pending => .projectCloseRequested
  | .closeProject, .rejected => .projectCloseRejected
  | .closeProject, .approved => .projectCloseApproved
  | .transferProject, .pending => .projectTransferRequested
  | .transferProject, .rejected => .projectTransferRejected
  | .transferProject, .approved => .projectTransferApproved
  | .projectQpuSeconds, .pending => .qpuSecondsRequested
  | .projectQpuSeconds, .rejected => .qpuSecondsDenied
  | .projectQpuSeconds, .approved => .qpuSecondsGranted
  | .projectPulseAccess, .pending => .pulseAccessRequested
  | .projectPulseAccess, .rejected => .pulseAccessDenied
  | .projectPulseAccess, .approved => .pulseAccessGranted
  | .projectAccess, .pending => .projectAccessRequested
  | .projectAccess, .rejected => .projectAccessRejected
  | .projectAccess, .approved => .projectAccessApproved

/-- The notice type of the request in its status, none (a `KeyError`) for a null status. -/
def Request.noticeType (r : Request) : Option NoticeTypeId := r.status.map (noticeTypes r.type)

/-- The values of the notice that tells of the request in its status. -/
def Request.noticeContext (r : Request) : ProjectRequestContext where
  requesterName := r.requesterName.getD ""
  projectId := r.resourceId
  projectName := match r.metadata with | .createProject name .. => name | _ => ""
  reason := if r.status = some .rejected then r.rejectionReason.getD "" else r.reason
  approverName := r.approverName.getD ""
  seconds := match r.metadata with | .projectQpuSeconds s => some s.1 | _ => none
  adminEmail := match r.metadata with | .transferProject email => email | _ => ""

end Mss
