import BuilderPro.App.Attachments
import BuilderPro.App.ChangedEvents
import BuilderPro.App.CommandStrip
import BuilderPro.App.ConnectRetry
import BuilderPro.App.DaemonUpdate
import BuilderPro.App.DirCache
import BuilderPro.App.DocsPanel
import BuilderPro.App.DomainLists
import BuilderPro.App.FileLinks
import BuilderPro.App.FilePreview
import BuilderPro.App.FsCalls
import BuilderPro.App.FsExplorer
import BuilderPro.App.GoalSwaps
import BuilderPro.App.GraphMoves
import BuilderPro.App.GuardedRefresh
import BuilderPro.App.KeepAwake
import BuilderPro.App.LinkRanges
import BuilderPro.App.ListConvergence
import BuilderPro.App.ListRefresh
import BuilderPro.App.Markdown
import BuilderPro.App.MarkdownInline
import BuilderPro.App.MarkdownPreview
import BuilderPro.App.RootsConvergence
import BuilderPro.App.RulesetPanel
import BuilderPro.App.Screen
import BuilderPro.App.StaleRequests
import BuilderPro.App.StatsSlice
import BuilderPro.App.TerminalReplays
import BuilderPro.App.Toasts
import BuilderPro.App.UsageDays
import BuilderPro.App.UsageScan
import BuilderPro.App.WatchBanner
import BuilderPro.App.WorkflowEditor
import BuilderPro.App.WorkflowStages
import BuilderPro.App.WriteStdin
import BuilderPro.DaemonCore.Broadcaster
import BuilderPro.DaemonCore.Migrations
import BuilderPro.DaemonCore.SingleInstance
import BuilderPro.DaemonCore.Upgrades
import BuilderPro.Lib.Attempt
import BuilderPro.Lib.Blocks
import BuilderPro.Lib.Calendar
import BuilderPro.Lib.CarryFilter
import BuilderPro.Lib.CarryFilterText
import BuilderPro.Lib.Cbor
import BuilderPro.Lib.Digits
import BuilderPro.Lib.FileTree
import BuilderPro.Lib.FileWrites
import BuilderPro.Lib.GreedyRegExp
import BuilderPro.Lib.JsString
import BuilderPro.Lib.Json
import BuilderPro.Lib.KeyedList
import BuilderPro.Lib.Like
import BuilderPro.Lib.LocalDraft
import BuilderPro.Lib.RankedList
import BuilderPro.Lib.RecursiveQuery
import BuilderPro.Lib.RefreshGuard
import BuilderPro.Lib.RegExp
import BuilderPro.Lib.Replica
import BuilderPro.Lib.Results
import BuilderPro.Lib.Retry
import BuilderPro.Lib.Slots
import BuilderPro.Lib.SqlInserts
import BuilderPro.Lib.Tally
import BuilderPro.Lib.TreeKeys
import BuilderPro.Lib.Utf8
import BuilderPro.Lib.Utf8Lossy
import BuilderPro.Orchd.Accounts
import BuilderPro.Orchd.AuditTrail
import BuilderPro.Orchd.CallSteps
import BuilderPro.Orchd.Calls
import BuilderPro.Orchd.Constraints
import BuilderPro.Orchd.Egress
import BuilderPro.Orchd.Export
import BuilderPro.Orchd.FaultlessVerbs
import BuilderPro.Orchd.Fingerprint
import BuilderPro.Orchd.Frozen
import BuilderPro.Orchd.FrozenRuns
import BuilderPro.Orchd.GoalMoves
import BuilderPro.Orchd.GoalOrder
import BuilderPro.Orchd.GraphSearch
import BuilderPro.Orchd.Import
import BuilderPro.Orchd.ImportFiles
import BuilderPro.Orchd.ImportInside
import BuilderPro.Orchd.Imported
import BuilderPro.Orchd.Invoke
import BuilderPro.Orchd.Items
import BuilderPro.Orchd.ListedTrees
import BuilderPro.Orchd.Migrations
import BuilderPro.Orchd.Neighborhood
import BuilderPro.Orchd.OnlyAdds
import BuilderPro.Orchd.PolicyText
import BuilderPro.Orchd.Projects
import BuilderPro.Orchd.RateCap
import BuilderPro.Orchd.ReadBack
import BuilderPro.Orchd.Requests
import BuilderPro.Orchd.ResearchSettle
import BuilderPro.Orchd.RuleFiles
import BuilderPro.Orchd.SecretOwners
import BuilderPro.Orchd.SignIns
import BuilderPro.Orchd.Store
import BuilderPro.Orchd.TokenRotation
import BuilderPro.Orchd.ToolBan
import BuilderPro.Orchd.Trees
import BuilderPro.Orchd.Trust
import BuilderPro.Orchd.Writes
import BuilderPro.Protocol.Framing
import BuilderPro.Protocol.Handshake
import BuilderPro.Protocol.Preamble
import BuilderPro.Sessiond.AttachOnce
import BuilderPro.Sessiond.CloseSession
import BuilderPro.Sessiond.CommandHistory
import BuilderPro.Sessiond.Conservation
import BuilderPro.Sessiond.CwdReports
import BuilderPro.Sessiond.ExitAnnounce
import BuilderPro.Sessiond.ExitFinal
import BuilderPro.Sessiond.FinalFlush
import BuilderPro.Sessiond.GroundBytes
import BuilderPro.Sessiond.Migrations
import BuilderPro.Sessiond.OscGrammar
import BuilderPro.Sessiond.RemoveWorkspace
import BuilderPro.Sessiond.ReplaySafety
import BuilderPro.Sessiond.Scrollback
import BuilderPro.Sessiond.StatusPushes
import BuilderPro.Sessiond.WorkspaceTables
