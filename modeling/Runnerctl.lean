import Runnerctl.Lib.Program
import Runnerctl.Lib.Journal
import Runnerctl.Lib.Companions
import Runnerctl.Lib.TreeMap
import Runnerctl.Lib.Toml
import Runnerctl.Lib.Congruence
import Runnerctl.Lib.Ranking
import Runnerctl.Lib.Coroutines
import Runnerctl.Lib.Paging
import Runnerctl.Lib.Escaping
import Runnerctl.Lib.Trimming
import Runnerctl.Lib.Streams
import Runnerctl.Lib.Utf8
import Runnerctl.Lib.Lines
import Runnerctl.Model.Config
import Runnerctl.Model.State
import Runnerctl.Model.Protocol
import Runnerctl.Model.Operation
import Runnerctl.Model.Serde
import Runnerctl.Model.Engine
import Runnerctl.Model.Requests
import Runnerctl.Model.Reconcile
import Runnerctl.Model.Manager
import Runnerctl.Model.Queries
import Runnerctl.Model.Github
import Runnerctl.Model.Service
import Runnerctl.Model.Scanner
import Runnerctl.Model.Secret
import Runnerctl.Model.Framing
import Runnerctl.Model.Docker
import Runnerctl.Model.Logs
import Runnerctl.Metatheory.Effects
import Runnerctl.Metatheory.Views
import Runnerctl.Metatheory.Configuration
import Runnerctl.Metatheory.Serde
import Runnerctl.Metatheory.Soundness
import Runnerctl.Metatheory.Requests
import Runnerctl.Metatheory.Acceptance
import Runnerctl.Metatheory.Handlers
import Runnerctl.Metatheory.Serving
import Runnerctl.Metatheory.History
import Runnerctl.Metatheory.Readiness
import Runnerctl.Metatheory.Steps
import Runnerctl.Metatheory.Steady
import Runnerctl.Metatheory.Copies
import Runnerctl.Metatheory.Visits
import Runnerctl.Metatheory.Pass
import Runnerctl.Metatheory.Ticks
import Runnerctl.Metatheory.Reachability
import Runnerctl.Metatheory.Scripts
import Runnerctl.Metatheory.Oblivious
import Runnerctl.Metatheory.Relations
import Runnerctl.Metatheory.Causes
import Runnerctl.Metatheory.Selection
import Runnerctl.Metatheory.Applying
import Runnerctl.Metatheory.Timing
import Runnerctl.Metatheory.Client
import Runnerctl.Metatheory.Interleaving
import Runnerctl.Metatheory.Custody
import Runnerctl.Metatheory.Conduct
import Runnerctl.Metatheory.Discipline
import Runnerctl.Metatheory.Daemon
import Runnerctl.Guarantees.Revisions
import Runnerctl.Guarantees.Files
import Runnerctl.Guarantees.Atomicity
import Runnerctl.Guarantees.Agreement
import Runnerctl.Guarantees.Structure
import Runnerctl.Guarantees.Lifecycle
import Runnerctl.Guarantees.Draining
import Runnerctl.Guarantees.Backoff
import Runnerctl.Guarantees.Exits
import Runnerctl.Guarantees.Deadlines
import Runnerctl.Guarantees.Status
import Runnerctl.Guarantees.Scaling
import Runnerctl.Guarantees.Listing
import Runnerctl.Guarantees.Caching
import Runnerctl.Guarantees.Removal
import Runnerctl.Guarantees.RateLimits
import Runnerctl.Guarantees.Isolation
import Runnerctl.Guarantees.Credentials
import Runnerctl.Guarantees.Editing
import Runnerctl.Guarantees.Quoting
import Runnerctl.Guarantees.Limits
import Runnerctl.Guarantees.Secrets
import Runnerctl.Guarantees.Framing
import Runnerctl.Guarantees.Routing
import Runnerctl.Guarantees.Pagination
import Runnerctl.Guarantees.BootTime
import Runnerctl.Guarantees.Following
import Runnerctl.Guarantees.Interruption
import Runnerctl.Guarantees.Intent
import Runnerctl.Guarantees.Changes
import Runnerctl.Guarantees.Records
import Runnerctl.Guarantees.Force
import Runnerctl.Guarantees.Deletion
import Runnerctl.Guarantees.Termination
import Runnerctl.Guarantees.Containers
