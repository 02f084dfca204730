import Geata.Lib.Alone
import Geata.Lib.Chronicle
import Geata.Lib.Concurrent
import Geata.Lib.Disk
import Geata.Lib.Except
import Geata.Lib.File
import Geata.Lib.Final
import Geata.Lib.Fold
import Geata.Lib.Framing
import Geata.Lib.Json
import Geata.Lib.JsonString
import Geata.Lib.Logic
import Geata.Lib.Mac
import Geata.Lib.Map
import Geata.Lib.Net
import Geata.Lib.Period
import Geata.Lib.Prog
import Geata.Lib.Registry
import Geata.Lib.Rotation
import Geata.Lib.Table
import Geata.Lib.Text
import Geata.Lib.Triple
import Geata.Lib.Turns
import Geata.Lib.Visits
import Geata.Lib.Word
import Geata.Lightning.Agreement
import Geata.Lightning.Attenuation
import Geata.Lightning.Binding
import Geata.Lightning.Invoice
import Geata.Lightning.L402
import Geata.Lightning.Policy
import Geata.Lightning.Security
import Geata.Lightning.Store
import Geata.Payments.Collect
import Geata.Payments.Footprint
import Geata.Payments.Identity
import Geata.Payments.Journal
import Geata.Payments.Ledger
import Geata.Payments.Minting
import Geata.Payments.Paced
import Geata.Payments.Pacing
import Geata.Payments.Payout
import Geata.Payments.Policy
import Geata.Payments.Recovery
import Geata.Payments.Rules
import Geata.Payments.Steps
import Geata.Payments.Truthful
import Geata.Payments.Uses
import Geata.Payments.Wallet
import Geata.Proxy.Filter
import Geata.Proxy.Gates
import Geata.Proxy.Logs
import Geata.Proxy.Request
import Geata.Proxy.Upstream
import Geata.RateLimit.Bound
import Geata.RateLimit.Limiter
import Geata.RateLimit.Refinement
import Geata.RateLimit.RetryAfter
import Geata.Admission.Answers
import Geata.Admission.Clients
import Geata.Admission.Connections
import Geata.Admission.Issuance
import Geata.Admission.Limits
import Geata.Admission.Permits
import Geata.Admission.Reload
import Geata.Admission.Tallies
import Geata.Service.Alone
import Geata.Service.Associations
import Geata.Service.Books
import Geata.Service.Capacity
import Geata.Service.Deposits
import Geata.Service.Evidence
import Geata.Service.History
import Geata.Service.Machine
import Geata.Service.Payouts
import Geata.Service.Programs
import Geata.Service.Removal
import Geata.Service.Rounds
import Geata.Service.Rules
import Geata.Service.Settlements
import Geata.Service.SingleUse
import Geata.Service.Tokens
import Geata.Storage.Durability
import Geata.Storage.Programs
import Geata.Storage.Steps
import Geata.Certificates.Challenges
import Geata.Certificates.Cooldown
import Geata.Certificates.Exclusive
import Geata.Certificates.Handshake
import Geata.Certificates.Loop
import Geata.Certificates.Retry
import Geata.Certificates.Spacing
import Geata.Geatafile.Groups
import Geata.Geatafile.Lexer
import Geata.Geatafile.Lines
import Geata.Geatafile.Order
import Geata.Geatafile.Parse
import Geata.Geatafile.Policy
import Geata.Geatafile.Rendering
import Geata.Geatafile.Safe
import Geata.Geatafile.Site
import Geata.Geatafile.Slices
