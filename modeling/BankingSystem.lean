import BankingSystem.Foundation.Prog
import BankingSystem.Foundation.Pool
import BankingSystem.Foundation.Fuel
import BankingSystem.Foundation.Protocol
import BankingSystem.Foundation.Trace
import BankingSystem.Foundation.Run
import BankingSystem.Foundation.Table
import BankingSystem.Foundation.CString
import BankingSystem.Foundation.Amount
import BankingSystem.Records
import BankingSystem.Store.Modifiers
import BankingSystem.Store.Commands
import BankingSystem.Store.Auth
import BankingSystem.Modules.Customer
import BankingSystem.Modules.Employee
import BankingSystem.Modules.Manager
import BankingSystem.Modules.Admin
import BankingSystem.Requests.Request
import BankingSystem.Requests.Tables
import BankingSystem.Requests.Logic
import BankingSystem.Requests.Refinement
import BankingSystem.Requests.WellFormed
import BankingSystem.Requests.Customers
import BankingSystem.Requests.Credentials
import BankingSystem.Requests.Balance
import BankingSystem.Requests.Ledger
import BankingSystem.Requests.LoanCycle
import BankingSystem.Requests.Holders
import BankingSystem.Requests.Poison
import BankingSystem.Clients.Interleaving
import BankingSystem.Clients.Overdraft
import BankingSystem.Clients.Transfer
import BankingSystem.Clients.Creation
import BankingSystem.Clients.Uniqueness
import BankingSystem.Foundation.Posix
import BankingSystem.Foundation.Disk
import BankingSystem.Foundation.Faults
import BankingSystem.Store.SystemCalls
import BankingSystem.Store.Unrolled
import BankingSystem.Requests.Alone
import BankingSystem.Requests.Identity
import BankingSystem.Clients.SystemCalls
import BankingSystem.Clients.LostUpdate
import BankingSystem.Clients.DoublePayout
import BankingSystem.Clients.Apart
import BankingSystem.Clients.Appends
import BankingSystem.Clients.FileLocks
import BankingSystem.Clients.RecordLocks
import BankingSystem.Failures.Helpers
import BankingSystem.Failures.Money
import BankingSystem.Failures.Approval
import BankingSystem.Failures.Creation
import BankingSystem.Server.Scanf
import BankingSystem.Server.Dispatch
import BankingSystem.Server.Router
import BankingSystem.Server.Sessions
import BankingSystem.Server.Access
import BankingSystem.Server.SessionTable
import BankingSystem.Server.Framing
import BankingSystem.Server.LoginReply
import BankingSystem.Server.Malformed
import BankingSystem.Server.Overlong
import BankingSystem.Server.Terminated
import BankingSystem.Frontend.Menus
import BankingSystem.Frontend.Agreement
import BankingSystem.Frontend.Fields
import BankingSystem.Frontend.Forms
import BankingSystem.Frontend.Greeting
import BankingSystem.Foundation.Buffer
import BankingSystem.Requests.Listings
import BankingSystem.Clients.Reviews
import BankingSystem.Requests.Passwords
import BankingSystem.Foundation.Seek
import BankingSystem.Server.Details
import BankingSystem.Requests.History
import BankingSystem.Requests.UserList
import BankingSystem.Frontend.Feedback
import BankingSystem.Foundation.RecordFile
import BankingSystem.Failures.Persistence
import BankingSystem.Requests.Acceptance
import BankingSystem.Server.StatusCodes
import BankingSystem.Foundation.Loop
import BankingSystem.Foundation.Stdin
import BankingSystem.Frontend.Prompts
import BankingSystem.Frontend.Terminal
import BankingSystem.Frontend.Loops
import BankingSystem.Foundation.Mutex
import BankingSystem.Server.ClientThread
import BankingSystem.Server.CriticalSections
import BankingSystem.Clients.Ledger
import BankingSystem.Foundation.Ownership
import BankingSystem.Server.Lifecycle
import BankingSystem.Requests.Privacy
import BankingSystem.Tools.Bootstrap
import BankingSystem.Foundation.Bystander
import BankingSystem.Foundation.Growth
import BankingSystem.Clients.Snapshots
import BankingSystem.Tools.Inspector
