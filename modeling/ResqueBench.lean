import ResqueBench.Machine
import ResqueBench.Sampling
import ResqueBench.Threads
import ResqueBench.Custody
import ResqueBench.PriorityLine
import ResqueBench.Redis
import ResqueBench.Confinement
import ResqueBench.Grouping
import ResqueBench.Decimal
import ResqueBench.Job
import ResqueBench.Producer
import ResqueBench.Metrics
import ResqueBench.Worker
import ResqueBench.Fleet
import ResqueBench.FleetLedger
import ResqueBench.Trial
import ResqueBench.TrialRuns
import ResqueBench.QueueContents
import ResqueBench.Conservation
import ResqueBench.ReadOut
import ResqueBench.DoneSignal
import ResqueBench.PriorityOrder
import ResqueBench.CounterLedger
import ResqueBench.LatencyReport
import ResqueBench.SnapshotWindows
import ResqueBench.MainLoop
import ResqueBench.MainRuns
import ResqueBench.TrialStock
import ResqueBench.OwnJobs
import ResqueBench.TrialTally
import ResqueBench.TrialIsolation
import ResqueBench.IdleGate
import ResqueBench.JsonReport
import ResqueBench.ReportedTrials
import ResqueBench.SharedRedis
import ResqueBench.BulkEnqueue
import ResqueBench.MonitorSeries
import ResqueBench.Shutdown
import ResqueBench.TimedPolls
import ResqueBench.ResqueLoop
import ResqueBench.Url
import ResqueBench.PlainUrl
import ResqueBench.RedisUrl
import ResqueBench.PasswordRedaction
import ResqueBench.Percentiles
import ResqueBench.LatencySeries
import ResqueBench.JsonText
import ResqueBench.PayloadRoundTrip
import ResqueBench.WindDown
import ResqueBench.Vigilance
import ResqueBench.PollCost
import ResqueBench.InTime
import ResqueBench.Quantile
import ResqueBench.QuantileReport
import ResqueBench.PollRate
import ResqueBench.MainReturns
import ResqueBench.TypedKeys
import ResqueBench.UnixPath
import ResqueBench.OutputFile
import ResqueBench.ExitStatus
import ResqueBench.CleanRun
import ResqueBench.Startup
import ResqueBench.FlushWarning
import ResqueBench.SameStartup
import ResqueBench.BacklogPeak
