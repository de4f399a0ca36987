import Zos.Agent.Edit
import Zos.Backup.Health
import Zos.Backup.Retention
import Zos.Batches.Db
import Zos.Batches.Drain
import Zos.Batches.Machine
import Zos.Docker.Console
import Zos.Docker.Progress
import Zos.Downloader.Db
import Zos.Downloader.Machine
import Zos.Downloader.Network
import Zos.Downloader.Plan
import Zos.Hostd.Devices
import Zos.Hostd.DockerDaemon
import Zos.Hostd.Error
import Zos.Hostd.EthernetValidation
import Zos.Hostd.ShareAcl
import Zos.Hostd.ShareApply
import Zos.Hostd.StoragePool
import Zos.Indexer.AdvancedSearch
import Zos.Indexer.Changeover
import Zos.Indexer.Extractor
import Zos.Indexer.Index
import Zos.Indexer.ProcessFile
import Zos.Indexer.Queue
import Zos.Indexer.Quiet
import Zos.Indexer.Runs
import Zos.Indexer.SearchTerms
import Zos.Indexer.Spelling
import Zos.Indexer.StaticScan
import Zos.Indexer.Storage
import Zos.Indexer.TextVersions
import Zos.Indexer.Watcher
import Zos.Jobs.Db
import Zos.Jobs.Transcript
import Zos.Lib.Acl
import Zos.Lib.Blocks
import Zos.Lib.ByteOrder
import Zos.Lib.Cover
import Zos.Lib.Fallible
import Zos.Lib.FileSystem
import Zos.Lib.Join
import Zos.Lib.Js
import Zos.Lib.Json
import Zos.Lib.Keyed
import Zos.Lib.Like
import Zos.Lib.Lossy
import Zos.Lib.NodePath
import Zos.Lib.Number
import Zos.Lib.Paging
import Zos.Lib.Path
import Zos.Lib.Reach
import Zos.Lib.Replace
import Zos.Lib.Rows
import Zos.Lib.Runs
import Zos.Lib.ScopedPaging
import Zos.Lib.StringDecoder
import Zos.Lib.Text
import Zos.Lib.Triple
import Zos.Lib.Utf8
import Zos.NasTools.CrossDevice
import Zos.NasTools.PathSafety
import Zos.Photostaff.Cache
import Zos.Photostaff.CaptureDate
import Zos.Photostaff.Db
import Zos.Photostaff.Metadata
import Zos.Photostaff.Query
import Zos.Photostaff.Search
import Zos.Photostaff.Sidecar
import Zos.Photostaff.Timeline
import Zos.Photostaff.Worker
import Zos.Photostaff.Workers
import Zos.Proofs.AclSteps
import Zos.Proofs.AclWidening
import Zos.Proofs.AddressSpellings
import Zos.Proofs.AdvancedPaging
import Zos.Proofs.AgentEdits
import Zos.Proofs.AlertReports
import Zos.Proofs.AtRest
import Zos.Proofs.BackupReport
import Zos.Proofs.BatchRecovery
import Zos.Proofs.BatchSources
import Zos.Proofs.BatchSteps
import Zos.Proofs.CaptureTimes
import Zos.Proofs.ChangeoverSearch
import Zos.Proofs.CheckedText
import Zos.Proofs.CjkSearch
import Zos.Proofs.ConsoleTicket
import Zos.Proofs.ControlRequests
import Zos.Proofs.CrossDeviceMove
import Zos.Proofs.DerivativePublication
import Zos.Proofs.DeviceTrees
import Zos.Proofs.DockerRollback
import Zos.Proofs.DownloadSteps
import Zos.Proofs.DownloadTables
import Zos.Proofs.DrainAttention
import Zos.Proofs.EntryFailures
import Zos.Proofs.ExtractedText
import Zos.Proofs.FileFutures
import Zos.Proofs.FrameCuts
import Zos.Proofs.IncrementalScan
import Zos.Proofs.IndexNames
import Zos.Proofs.IndexPaths
import Zos.Proofs.IndexQueue
import Zos.Proofs.IndexTables
import Zos.Proofs.LeaseFencing
import Zos.Proofs.MessagePaths
import Zos.Proofs.MetadataLimits
import Zos.Proofs.MetadataVisits
import Zos.Proofs.MountLookups
import Zos.Proofs.PathContainment
import Zos.Proofs.PathSpellings
import Zos.Proofs.PhotoLeases
import Zos.Proofs.PlanPartition
import Zos.Proofs.PlayerResume
import Zos.Proofs.PlayerState
import Zos.Proofs.PoolDeletion
import Zos.Proofs.ProgressStream
import Zos.Proofs.PublicAddresses
import Zos.Proofs.PublishOnce
import Zos.Proofs.QueryPaging
import Zos.Proofs.RetentionBound
import Zos.Proofs.RunArchive
import Zos.Proofs.SearchIndex
import Zos.Proofs.SegmentPlan
import Zos.Proofs.SensitiveMetadata
import Zos.Proofs.SessionLimit
import Zos.Proofs.ShareGrants
import Zos.Proofs.ShareRollback
import Zos.Proofs.SidecarMatching
import Zos.Proofs.SignalLoops
import Zos.Proofs.SpaceReservations
import Zos.Proofs.StaleCleanup
import Zos.Proofs.TabSessions
import Zos.Proofs.TabSetInvariant
import Zos.Proofs.TerminalOutput
import Zos.Proofs.TimelinePaging
import Zos.Proofs.TimestampOrder
import Zos.Proofs.TmuxSteps
import Zos.Proofs.TmuxTargets
import Zos.Proofs.TranscriptEnd
import Zos.Proofs.TranscriptMerge
import Zos.Proofs.UploadShape
import Zos.Proofs.WatchPaths
import Zos.Servers.Alerts
import Zos.Servers.SignalLoop
import Zos.Storage.Mounts
import Zos.Terminals.TabSets
import Zos.Terminals.Tabs
import Zos.Termux.Broker
import Zos.Termux.Frames
import Zos.Termux.OpenSession
import Zos.Termux.Tmux
import Zos.Time.Timestamp
import Zos.VodPlayer.Controller
import Zos.Web.ChatPaths
import Zos.Web.Transcript
import Zos.Web.Uploads
