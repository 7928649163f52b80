import Grizol.Library.BigEndian
import Grizol.Library.AssocMap
import Grizol.Library.Framing
import Grizol.Analysis.EncodedMessages
import Grizol.Analysis.StreamReading
import Grizol.Analysis.WireRoundTrip
import Grizol.Analysis.HandshakeIdentity
import Grizol.Model.OutgoingRequests
import Grizol.Interface.RequestQueue
import Grizol.Analysis.RequestQueueInvariant
import Grizol.Analysis.RequestThrottling
import Grizol.Library.FileStore
import Grizol.Model.FileWriter
import Grizol.Model.StorageManager
import Grizol.Analysis.FileWriterCalls
import Grizol.Analysis.WriterRegistry
import Grizol.Model.BepState
import Grizol.Analysis.DatabaseRefinement
import Grizol.Analysis.IndexLoading
import Grizol.Analysis.IndexCoherence
import Grizol.Interface.Backups
import Grizol.Analysis.BackupDeletion
import Grizol.Interface.Uploads
import Grizol.Analysis.UploadSafety
import Grizol.Interface.SharedWriter
import Grizol.Analysis.WriterExclusion
import Grizol.Analysis.ConcurrentWrites
import Grizol.Interface.ConcurrentResponses
import Grizol.Analysis.BlockCompletion
import Grizol.Interface.BlockRequests
import Grizol.Analysis.BlockRequests
import Grizol.Analysis.QueueConsistency
import Grizol.Analysis.RequestSlots
import Grizol.Analysis.Downloads
import Grizol.Interface.ReadCache
import Grizol.Analysis.ReadCache
import Grizol.Analysis.NewerFiles
import Grizol.Analysis.RepeatedMessages
import Grizol.Analysis.MarkedBlocks
import Grizol.Analysis.WrittenRows
import Grizol.Interface.HostileInput
import Grizol.Analysis.HostileInput
import Grizol.Library.Base32
import Grizol.Library.CheckDigit
import Grizol.Model.DeviceId
import Grizol.Interface.DeviceIdText
import Grizol.Analysis.DeviceIdText
import Grizol.Analysis.CacheBound
import Grizol.Library.Path
import Grizol.Model.FsMem
import Grizol.Interface.Listings
import Grizol.Analysis.FsTree
import Grizol.Analysis.Listings
import Grizol.Interface.Renames
import Grizol.Analysis.AcceptedFiles
import Grizol.Analysis.Renames
import Grizol.Interface.FuseRefresh
import Grizol.Analysis.FuseRefresh
import Grizol.Interface.IndexIntake
import Grizol.Analysis.SequenceNumbers
import Grizol.Analysis.IndexIntake
import Grizol.Analysis.IndexingSafety
import Grizol.Analysis.VersionOrder
import Grizol.Analysis.WorkConserving
import Grizol.Analysis.NewRequests
import Grizol.Analysis.FileSequences
import Grizol.Analysis.Reloading
import Grizol.Analysis.RefusedFrames
import Grizol.Analysis.WriterRecovery
import Grizol.Interface.SharedFolders
import Grizol.Analysis.SharedFolders
import Grizol.Interface.UpdatedRows
import Grizol.Analysis.UpdatedRows
import Grizol.Analysis.ChunkExclusion
import Grizol.Analysis.FailedConsolidation
import Grizol.Analysis.AcceptedChunks
import Grizol.Analysis.CachedReads
import Grizol.Interface.RefreshedTrees
import Grizol.Analysis.RefreshedTrees
import Grizol.Library.Paging
import Grizol.Interface.DirectoryPaging
import Grizol.Analysis.DirectoryPaging
import Grizol.Model.Lookup
import Grizol.Interface.Lookups
import Grizol.Analysis.Lookups
import Grizol.Interface.MovedFiles
import Grizol.Analysis.MovedFiles
import Grizol.Interface.RecordedMoves
import Grizol.Analysis.RecordedMoves
import Grizol.Interface.CacheEviction
import Grizol.Analysis.CacheEviction
import Grizol.Interface.CheckDigits
import Grizol.Analysis.CheckDigits
import Grizol.Interface.ChunkArithmetic
import Grizol.Analysis.ChunkArithmetic
import Grizol.Interface.ParserProgress
import Grizol.Analysis.ParserProgress
import Grizol.Model.ClusterConfig
import Grizol.Model.Connection
import Grizol.Interface.Connections
import Grizol.Analysis.Connections
import Grizol.Interface.Conversations
import Grizol.Analysis.Conversations
import Grizol.Interface.Greetings
import Grizol.Analysis.Greetings
import Grizol.Interface.SentRequests
import Grizol.Analysis.ServerTurns
import Grizol.Analysis.SentRequests
import Grizol.Interface.AnnouncedFolders
import Grizol.Analysis.AnnouncedFolders
import Grizol.Interface.RememberedFolders
import Grizol.Analysis.RememberedFolders
import Grizol.Model.GetAttr
import Grizol.Interface.FsViews
import Grizol.Analysis.FsViews
import Grizol.Interface.OfferedBlocks
import Grizol.Analysis.OfferedBlocks
import Grizol.Interface.ReceivedBlocks
import Grizol.Analysis.ReceivedBlocks
import Grizol.Interface.ByteOrigins
import Grizol.Analysis.ByteOrigins
import Grizol.Library.Locks
import Grizol.Model.GuardedServer
import Grizol.Interface.GuardedServer
import Grizol.Analysis.GuardedServer
import Grizol.Library.Fairness
import Grizol.Interface.FinishedTasks
import Grizol.Analysis.TaskRanks
import Grizol.Analysis.FinishedTasks
