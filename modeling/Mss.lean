import Mss.Lib.Prog
import Mss.Lib.Stops
import Mss.Lib.Pool
import Mss.Lib.Table
import Mss.Lib.ChildTable
import Mss.Lib.Kleene
import Mss.Lib.Like
import Mss.Lib.Documents
import Mss.Lib.Refusals
import Mss.Lib.Transactions
import Mss.Lib.Numerals
import Mss.Lib.ScriptNumbers
import Mss.Lib.ScriptDoubles
import Mss.Lib.Collators
import Mss.Lib.Calendar
import Mss.Lib.IsoTexts
import Mss.Lib.Regexes
import Mss.Lib.Tallies
import Mss.Records
import Mss.JobRecords
import Mss.Notices
import Mss.Database
import Mss.Services.Membership
import Mss.Services.Projects
import Mss.Services.AppTokens
import Mss.Services.Jobs
import Mss.Services.Requests
import Mss.Services.Handshakes
import Mss.Services.NoticeEmails
import Mss.Services.Devices
import Mss.Services.Calibrations
import Mss.Services.DeviceEvents
import Mss.Services.NewRequests
import Mss.Storage.Schemas
import Mss.Storage.Filters
import Mss.Storage.SqlFilters
import Mss.StoredRecords
import Mss.ColumnConditions
import Mss.FilterAgreement
import Mss.ReadStates
import Mss.Lib.Paging
import Mss.Storage.Finds
import Mss.Storage.MongoFilters
import Mss.Pages
import Mss.Storage.Collations
import Mss.CaseFolding
import Mss.Storage.Updates
import Mss.Storage.SqlStore
import Mss.SqlWrites
import Mss.ListUpdates
import Mss.Storage.Writes
import Mss.Storage.MongoWrites
import Mss.SqlInserts
import Mss.FailedWrites
import Mss.Storage.Indexes
import Mss.UniqueKeys
import Mss.Runs
import Mss.PersonalProjects
import Mss.DeletedProjects
import Mss.SqlProjects
import Mss.QpuLedger
import Mss.ChargedOnce
import Mss.QpuAlerts
import Mss.Instants
import Mss.Storage.Reads
import Mss.Services.JobReads
import Mss.JobLists
import Mss.JobWindows
import Mss.ExpiringUpdates
import Mss.NamedMembers
import Mss.KeptSubmissions
import Mss.LoggedOnce
import Mss.SameUser
import Mss.LastState
import Mss.KeptMembers
import Mss.ProjectAdmins
import Mss.RevokedTokens
import Mss.HandshakeOnce
import Mss.EmailClaims
import Mss.SettledEmails
import Mss.OnlineFlags
import Mss.LastOnline
import Mss.SwitchedOff
import Mss.DeviceIsolation
import Mss.PendingRequests
import Mss.NamedUsers
import Mss.FailedApprovals
import Mss.DecidedOnce
import Mss.Services.SignIns
import Mss.MarkedNotices
import Mss.TextSearches
import Mss.Services.EmailPreferences
import Mss.KeptPreferences
import Mss.KeptKeys
import Mss.AddedElements
import Mss.Services.Lifespans
import Mss.LiveTokens
import Mss.GivenEmails
import Mss.SignedMessages
import Mss.Storage.TableSetup
import Mss.Lib.Verdicts
import Mss.Storage.SetupChecks
import Mss.SchemaOrder
import Mss.Ui.Counts
import Mss.Ui.Time
import Mss.ShotCounts
import Mss.InputDurations
import Mss.FormattedTimes
import Mss.Ui.MultiInput
import Mss.HiddenInputs
import Mss.Ui.TopBanner
import Mss.AnnouncementsInForce
import Mss.KeptAccounts
import Mss.Storage.Deletes
import Mss.Deletions
import Mss.StoreDeletions
import Mss.UpdatedRecords
import Mss.InsertedRecords
import Mss.UpsertsInOrder
import Mss.ValidDocuments
import Mss.ReadDocuments
