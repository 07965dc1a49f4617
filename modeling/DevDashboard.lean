import DevDashboard.Lib.Machine
import DevDashboard.Lib.LoopFill
import DevDashboard.Lib.WeakOrder
import DevDashboard.Lib.JsSort
import DevDashboard.Lib.Nesting
import DevDashboard.Lib.Dict
import DevDashboard.Lib.Digits
import DevDashboard.Lib.Epochs
import DevDashboard.Lib.Frames
import DevDashboard.Lib.Like
import DevDashboard.Lib.Paging
import DevDashboard.Lib.Path
import DevDashboard.Lib.Str
import DevDashboard.Lib.Url
import DevDashboard.Lib.WebUrl
import DevDashboard.Lib.NetUrl
import DevDashboard.Lib.Conninfo
import DevDashboard.Lib.ConninfoSqueeze
import DevDashboard.Lib.Utf8
import DevDashboard.Lib.YamlStream
import DevDashboard.Lib.Base64
import DevDashboard.Lib.Json
import DevDashboard.Lib.Lines
import DevDashboard.Lib.EventStream
import DevDashboard.Logs.Tail
import DevDashboard.Cmd.ConnPool
import DevDashboard.Cmd.ConnPoolInv
import DevDashboard.Cmd.ConnPoolSafety
import DevDashboard.Cmd.ServiceFor
import DevDashboard.StateStore.Keys
import DevDashboard.StateStore.Store
import DevDashboard.StateStore.BulkGet
import DevDashboard.StateStore.ConnInfo
import DevDashboard.Workflow.Types
import DevDashboard.Workflow.Decode
import DevDashboard.Workflow.Sidecar
import DevDashboard.Workflow.Load
import DevDashboard.Workflow.SummaryCache
import DevDashboard.Workflow.List
import DevDashboard.Workflow.Walk
import DevDashboard.Workflow.CacheRun
import DevDashboard.Workflow.CacheCoherence
import DevDashboard.Workflow.Remove
import DevDashboard.Workflow.RemoveScope
import DevDashboard.Server.Purge
import DevDashboard.Web.Selection
import DevDashboard.Cmd.Registry
import DevDashboard.Cmd.RegistryRun
import DevDashboard.Cmd.Derive
import DevDashboard.Workflow.Rows
import DevDashboard.Server.Open
import DevDashboard.Workflow.AppFilter
import DevDashboard.Workflow.Composite
import DevDashboard.Workflow.WalkRows
import DevDashboard.Workflow.Routing
import DevDashboard.StateStore.Detect
import DevDashboard.StateStore.Translate
import DevDashboard.Cmd.Components
import DevDashboard.Secrets.Resolve
import DevDashboard.Resources.Service
import DevDashboard.StateStore.Documents
import DevDashboard.Discovery.Instance
import DevDashboard.Discovery.Containers
import DevDashboard.Discovery.Scan
import DevDashboard.Cmd.Compose
import DevDashboard.Lifecycle.Overlay
import DevDashboard.Lifecycle.Manager
import DevDashboard.Lifecycle.Failures
import DevDashboard.Lifecycle.Restarts
import DevDashboard.State.Classify
import DevDashboard.State.Service
import DevDashboard.State.Record
import DevDashboard.State.Walk
import DevDashboard.Web.Pages
import DevDashboard.Web.Detail
import DevDashboard.Web.Replay.Validate
import DevDashboard.Web.Replay.Share
import DevDashboard.Server.Records
import DevDashboard.Server.Logs
import DevDashboard.Cmd.Election
import DevDashboard.Cmd.Edit
import DevDashboard.Cmd.Stores
import DevDashboard.Cmd.Routes
import DevDashboard.Cmd.PathLookups
import DevDashboard.Cmd.Secrecy
import DevDashboard.SelfUpdate.Release
import DevDashboard.SelfUpdate.Run
import DevDashboard.Server.GuardRails
import DevDashboard.Web.Resiliency.Reducer
import DevDashboard.Web.Resiliency.Emit
import DevDashboard.Web.EventOrder
import DevDashboard.Web.Pairing
import DevDashboard.StateStore.TranslatePg
import DevDashboard.StateStore.Spelling
import DevDashboard.StateStore.Credentials
import DevDashboard.Web.Replay.Watching
