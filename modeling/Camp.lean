import Camp.Wire.Utf8
import Camp.Wire.Json
import Camp.Wire.JsonRoundTrip
import Camp.Wire.Codec
import Camp.Wire.Rfc3339
import Camp.Wire.Sha256
import Camp.Program.Prog
import Camp.Program.Files
import Camp.Domain.Names
import Camp.Domain.Records
import Camp.Domain.Session
import Camp.Domain.Validation
import Camp.Journal.Entries
import Camp.Journal.Replay
import Camp.Journal.Store
import Camp.Journal.StoreSpec
import Camp.Journal.Healthy
import Camp.Journal.History
import Camp.Journal.Careful
import Camp.Journal.Session
import Camp.Journal.Totality
import Camp.Journal.Binding
import Camp.Journal.Alike
import Camp.Journal.Crash
import Camp.Journal.Merge
import Camp.Program.Concurrent
import Camp.Program.Objects
import Camp.Coordination.Documents
import Camp.Coordination.Pointers
import Camp.Coordination.Leases
import Camp.Coordination.Clients
import Camp.Coordination.Generations
import Camp.Coordination.LeaseRights
import Camp.Coordination.PointerRights
import Camp.Coordination.GenerationRights
import Camp.Coordination.Promises
import Camp.Coordination.Calm
import Camp.Coordination.Exclusion
import Camp.Coordination.Keys
import Camp.Coordination.Observation
import Camp.Coordination.Succession
import Camp.Coordination.Deposits
import Camp.Coordination.ReadBack
import Camp.Program.Paths
import Camp.Program.Steady
import Camp.Program.Exchange
import Camp.S3Store.Store
import Camp.S3Store.Outcomes
import Camp.S3Store.Probe
import Camp.Program.Folder
import Camp.Capsule.Initialize
import Camp.Capsule.Resumption
import Camp.Program.Checks
import Camp.Wire.Order
import Camp.Wire.Text
import Camp.Program.Calls
import Camp.Program.Neighbours
import Camp.Capsule.Publication
import Camp.Capsule.Publishing
import Camp.Program.Traced
import Camp.RemoteWorker.Checkpoint
import Camp.Hydration.StateFiles
import Camp.Registry.Sealing
import Camp.Wire.Words
import Camp.Supervisor.Units
import Camp.Supervisor.Reuse
import Camp.Supervisor.Readiness
import Camp.HaulKit.Manifest
import Camp.HaulKit.Chunks
import Camp.HaulKit.Canonical
import Camp.HaulKit.Ready
import Camp.HaulKit.Extraction
import Camp.CampKit.Frame
import Camp.CampKit.Manifest
import Camp.CampKit.Canonical
import Camp.CampKit.Verify
import Camp.Shell.Lexer
import Camp.SshTransfer.Commands
import Camp.DevPod.Quoting
import Camp.Program.Flags
import Camp.DevPod.Options
import Camp.Workspace.Mirror
import Camp.Workspace.Identifiers
import Camp.Workspace.Hardlinks
import Camp.S3Store.Multipart
import Camp.JsonStrict.Names
import Camp.Wire.JsonLength
import Camp.RemoteWorker.Protocol
import Camp.RemoteWorker.Meaning
import Camp.RemoteWorker.Worker
import Camp.CampKit.Import
import Camp.App.Selection
import Camp.Wire.SliceSort
import Camp.HaulKit.Inventory
import Camp.Program.Reading
import Camp.CampKit.Budget
import Camp.Wire.JsonLocal
import Camp.Journal.Reconcile
import Camp.Wire.Url
import Camp.CampConfig.Backend
