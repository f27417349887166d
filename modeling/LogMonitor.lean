import LogMonitor.Library.Transition
import LogMonitor.Library.Machine
import LogMonitor.Library.ByteString
import LogMonitor.Library.BinaryStream
import LogMonitor.Library.FileStream
import LogMonitor.Library.Json
import LogMonitor.Library.JsonText
import LogMonitor.Library.PrometheusText
import LogMonitor.Library.Digits
import LogMonitor.Library.Table
import LogMonitor.Library.OrderedMap
import LogMonitor.Library.Positions
import LogMonitor.Library.Scoring
import LogMonitor.Library.SharedMutex
import LogMonitor.Library.SortedList
import LogMonitor.Library.Lines
import LogMonitor.Library.OutputStream
import LogMonitor.Library.LineReader
import LogMonitor.Library.Metering
import LogMonitor.Library.Completion
import LogMonitor.Library.Restart
import LogMonitor.Library.Tally
import LogMonitor.RingBuffer
import LogMonitor.RingBufferInvariant
import LogMonitor.RingBufferFifo
import LogMonitor.RingBufferRun
import LogMonitor.RingBufferMpsc
import LogMonitor.RingBufferQueue
import LogMonitor.LogEntry
import LogMonitor.PushRetry
import LogMonitor.FileWatcher
import LogMonitor.FileWatcherRun
import LogMonitor.FileTruncation
import LogMonitor.FileRotation
import LogMonitor.HttpParser
import LogMonitor.TcpFraming
import LogMonitor.ConnectionTracking
import LogMonitor.NetworkIngester
import LogMonitor.HttpChunks
import LogMonitor.HttpGrammar
import LogMonitor.LogPipeline
import LogMonitor.SaveFile
import LogMonitor.Tsdb
import LogMonitor.TsdbBinary
import LogMonitor.TsdbRestart
import LogMonitor.TsdbEviction
import LogMonitor.TsdbArrival
import LogMonitor.TsdbLifetime
import LogMonitor.TsdbCorrupt
import LogMonitor.TsdbJson
import LogMonitor.AuthManager
import LogMonitor.Base64
import LogMonitor.ProjectStore
import LogMonitor.ProjectStoreRun
import LogMonitor.ProjectMap
import LogMonitor.ProjectMapRun
import LogMonitor.ProjectMapDraws
import LogMonitor.UserStore
import LogMonitor.FailedSave
import LogMonitor.FailedCall
import LogMonitor.Token
import LogMonitor.Base64Shift
import LogMonitor.TokenRevocation
import LogMonitor.Server
import LogMonitor.TenantIsolation
import LogMonitor.StoredOnce
import LogMonitor.QueryAnswers
import LogMonitor.TenantManager
import LogMonitor.TenantThreads
import LogMonitor.AlertRulesEngine
import LogMonitor.AlertRulesRun
import LogMonitor.AlertRulesReload
import LogMonitor.ProjectRoutes
import LogMonitor.TenantResponses
import LogMonitor.ProjectAccess
import LogMonitor.ProjectQuery
import LogMonitor.CodeIndexer
import LogMonitor.CodeIndexerBuild
import LogMonitor.CodeIndexerQuery
import LogMonitor.CodeIndexerScores
import LogMonitor.RateLimiter
import LogMonitor.TokenRoundTrip
import LogMonitor.ThreadPool
import LogMonitor.AlertDelivery
import LogMonitor.TsdbMetrics
import LogMonitor.TsdbPrometheus
import LogMonitor.HttpServer
import LogMonitor.HttpServerTrace
import LogMonitor.IngestTimestamps
import LogMonitor.IngestReport
import LogMonitor.AccountLoad
import LogMonitor.AccountRestarts
import LogMonitor.ProjectDeletion
import LogMonitor.PipelineCounters
import LogMonitor.Shutdown
import LogMonitor.ShutdownRun
import LogMonitor.AlertRulesWatch
import LogMonitor.AlertRulesUnwatched
import LogMonitor.ProjectRefusals
import LogMonitor.ProjectLogs
import LogMonitor.ProjectFaults
import LogMonitor.AlertManager
import LogMonitor.AccountLogin
import LogMonitor.SdkClient
import LogMonitor.StatsThroughput
import LogMonitor.IngesterPool
import LogMonitor.AlertDispatch
import LogMonitor.AlertNotices
