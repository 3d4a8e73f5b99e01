import Damaru.Async.Amid
import Damaru.Async.Trace
import Damaru.Controllers
import Damaru.Verify.LinkExclusive
import Damaru.Verify.Outcomes
import Damaru.Verify.Writes
import Damaru.Verify.ServiceWrites
import Damaru.Verify.EventWrites
import Damaru.Verify.LinkInvariant
import Damaru.Verify.LinkAtomicity
import Damaru.Verify.AssignmentSpecs
import Damaru.Verify.AccountSpecs
import Damaru.Verify.TenantWrites
import Damaru.Verify.TenantReads
import Damaru.Verify.DeviceAccess
import Damaru.Verify.Privileges
import Damaru.Verify.Publishing
import Damaru.Verify.LinkAuthority
import Damaru.Verify.LinkUse
import Damaru.Verify.AssignmentOwners
import Damaru.Verify.Sessions
import Damaru.Verify.Routing
import Damaru.Verify.ConnectionSpecs
import Damaru.Verify.Authenticity
import Damaru.Verify.Pins
import Damaru.Verify.AdminViews
import Damaru.Verify.AssignmentViews
import Damaru.Verify.SessionLog
import Damaru.Verify.Streaming
import Damaru.Verify.Departures
import Damaru.Verify.Uploads
import Damaru.Verify.RootAccounts
import Damaru.Verify.Login
import Damaru.Verify.BulkAssignments
import Damaru.Verify.UnlinkRetry
import Damaru.Verify.LinkUndo
import Damaru.Verify.Passwords
import Damaru.Verify.Interception
import Damaru.Verify.Modes
import Damaru.Verify.Toggling
import Damaru.Verify.FirstLogin
import Damaru.Verify.Extensions
import Damaru.Verify.AdminAccounts
import Damaru.Verify.ApkUploads
import Damaru.Verify.UserRetry
import Damaru.Verify.Removals
import Damaru.Verify.Seeding
import Damaru.World
import Damaru.Verify.Authority
import Damaru.Verify.Confirmation
import Damaru.Verify.Attribution
import Damaru.Verify.Lasting
import Damaru.Verify.AuditTrail
import Damaru.Verify.Credentials
import Damaru.Verify.Rejections
import Damaru.Verify.Clocks
import Damaru.Verify.Startup
import Damaru.Verify.Revocation
import Damaru.Verify.Relay
import Damaru.Verify.ConnectionLog
