import FastapiTemplate.Library.KeyedTable
import FastapiTemplate.Library.BitMask
import FastapiTemplate.Library.Positional
import FastapiTemplate.Library.Committing
import FastapiTemplate.Library.LastWrite
import FastapiTemplate.Library.Regex
import FastapiTemplate.Library.Delegation
import FastapiTemplate.Uuid
import FastapiTemplate.Errors
import FastapiTemplate.Registry
import FastapiTemplate.Implied
import FastapiTemplate.Mask
import FastapiTemplate.Models
import FastapiTemplate.Statements
import FastapiTemplate.RoleRepository
import FastapiTemplate.UserRepository
import FastapiTemplate.TenantRepository
import FastapiTemplate.AuthzCache
import FastapiTemplate.Delegation
import FastapiTemplate.AccessToken
import FastapiTemplate.RoleService
import FastapiTemplate.UserManagementService
import FastapiTemplate.TenantService
import FastapiTemplate.Changes
import FastapiTemplate.Calls
import FastapiTemplate.Authority
import FastapiTemplate.Operations
import FastapiTemplate.Registers
import FastapiTemplate.AuthzEvents
import FastapiTemplate.System
import FastapiTemplate.Catalog
import FastapiTemplate.PermVersion
import FastapiTemplate.Confinement
import FastapiTemplate.TenantIsolation
import FastapiTemplate.MaskAgreement
import FastapiTemplate.MintSnapshot
import FastapiTemplate.AuthzSync
import FastapiTemplate.Convergence
import FastapiTemplate.Outage
import FastapiTemplate.ResyncRace
import FastapiTemplate.AuthActions
import FastapiTemplate.Sessions
import FastapiTemplate.Lineage
import FastapiTemplate.TokenReuse
import FastapiTemplate.Logout
import FastapiTemplate.RefreshRace
import FastapiTemplate.SlidingWindow
import FastapiTemplate.Ceiling
import FastapiTemplate.RoleMembership
import FastapiTemplate.ReadIsolation
import FastapiTemplate.Library.ReadCommitted
import FastapiTemplate.Transactions
import FastapiTemplate.VersionRace
import FastapiTemplate.RejectedCalls
import FastapiTemplate.CircuitBreaker
import FastapiTemplate.CircuitRace
import FastapiTemplate.FailedRefresh
import FastapiTemplate.CallLog
import FastapiTemplate.Migrations
import FastapiTemplate.Bootstrap
import FastapiTemplate.TenantCeilings
import FastapiTemplate.RootRole
import FastapiTemplate.Text
import FastapiTemplate.SafeFilename
import FastapiTemplate.StrongPassword
import FastapiTemplate.Sanitize
import FastapiTemplate.Authoring
import FastapiTemplate.Accounts
import FastapiTemplate.CeilingEdit
import FastapiTemplate.RemainingCalls
import FastapiTemplate.Credentials
import FastapiTemplate.LoginOutcome
import FastapiTemplate.PageSession
import FastapiTemplate.PageLogout
import FastapiTemplate.MaskRace
import FastapiTemplate.AssignRace
import FastapiTemplate.NameMasks
import FastapiTemplate.CatalogSync
import FastapiTemplate.FreeUsername
import FastapiTemplate.Library.JsonTree
import FastapiTemplate.DataValidation
import FastapiTemplate.Retry
import FastapiTemplate.Library.Paging
import FastapiTemplate.Listings
import FastapiTemplate.Routes
import FastapiTemplate.AccountLinks
import FastapiTemplate.OutsideSteps
import FastapiTemplate.Backend
import FastapiTemplate.Mediation
import FastapiTemplate.AccountRuns
import FastapiTemplate.SharedRedis
import FastapiTemplate.CurrentTokens
import FastapiTemplate.Origins
import FastapiTemplate.PageServer
import FastapiTemplate.Downgrade
import FastapiTemplate.Coalition
import FastapiTemplate.Library.SerialRuns
import FastapiTemplate.SerialTransactions
