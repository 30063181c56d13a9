import SafeEdge.Library.Binary64
import SafeEdge.Library.Run
import SafeEdge.Safety.StateMachine
import SafeEdge.Safety.Cycle
import SafeEdge.Safety.MachineRun
import SafeEdge.Safety.Monitors
import SafeEdge.Safety.DualChannel
import SafeEdge.Safety.SupervisorRun
import SafeEdge.Safety.Discrepancy
import SafeEdge.Library.RootEvaluation
import SafeEdge.Library.CodeDistance
import SafeEdge.Safety.Crc32
import SafeEdge.Safety.CrcDistance
import SafeEdge.Safety.BlackChannel
import SafeEdge.Safety.TelegramCodec
import SafeEdge.Safety.ReceiverStep
import SafeEdge.Safety.TelegramChecksum
import SafeEdge.Safety.Addressing
import SafeEdge.Safety.SafetyLink
import SafeEdge.Concurrent.SpscRing
import SafeEdge.Concurrent.SpscFifo
import SafeEdge.Concurrent.SpscRefinement
import SafeEdge.Library.SerialDivision
import SafeEdge.Safety.CrcSpecification
import SafeEdge.Safety.DecoderImage
import SafeEdge.Library.XorElimination
import SafeEdge.Safety.HealthyStream
import SafeEdge.Library.BurstErrors
import SafeEdge.Safety.Bursts
import SafeEdge.Ipc.SeqlockSlot
import SafeEdge.Edge.RuntimeSnapshot
import SafeEdge.Ipc.SeqlockReaders
import SafeEdge.Opcua.AddressSpace
import SafeEdge.Opcua.Publisher
import SafeEdge.Ipc.QuietSlot
import SafeEdge.Opcua.DeadRuntime
import SafeEdge.Apps.FileFlagWatcher
import SafeEdge.Rt.CyclicExecutor
import SafeEdge.Apps.Safeedged
import SafeEdge.Apps.HealthyDaemon
import SafeEdge.Apps.SupervisionTime
import SafeEdge.Safety.FaultLatch
import SafeEdge.Safety.RequestIndependence
import SafeEdge.Safety.SafeStop1
import SafeEdge.Safety.DiscrepancyLatch
import SafeEdge.Safety.FirstCause
import SafeEdge.Apps.PublishedSnapshots
import SafeEdge.Apps.Shutdown
import SafeEdge.Safety.DeadTransport
import SafeEdge.Safety.SequenceFaults
import SafeEdge.Safety.ReceiverAccounting
import SafeEdge.Safety.ChannelSymmetry
import SafeEdge.Safety.UnreadableReadings
import SafeEdge.Library.Grid
import SafeEdge.Rt.DeadlineGrid
import SafeEdge.Library.LogBuckets
import SafeEdge.Library.OrderStatistic
import SafeEdge.Rt.Percentile
import SafeEdge.Rt.HistogramAlgebra
import SafeEdge.Apps.TransitionCount
import SafeEdge.Library.Decimal
import SafeEdge.Rt.ThreadConfig
import SafeEdge.Ipc.SharedMemory
import SafeEdge.Library.Custody
import SafeEdge.Ipc.RegionCreation
import SafeEdge.Ipc.RegionOwnership
import SafeEdge.Library.Compaction
import SafeEdge.Opcua.Security
import SafeEdge.Edge.HttpServer
import SafeEdge.Scripts.Traceability
import SafeEdge.Scripts.TraceabilityGate
import SafeEdge.Library.Exposition
import SafeEdge.Edge.Metrics
import SafeEdge.Edge.MetricCounters
import SafeEdge.Apps.ExportedQuantiles
import SafeEdge.Ipc.WriterReplacement
import SafeEdge.Library.AtomicMax
import SafeEdge.Rt.NoAllocGuard
import SafeEdge.Safety.CrcBursts
import SafeEdge.Apps.DaemonLink
import SafeEdge.Apps.EmergencyStop
import SafeEdge.Edge.ServerLifecycle
import SafeEdge.Edge.ServerStop
import SafeEdge.Apps.Endpoints
import SafeEdge.Apps.EventPath
import SafeEdge.Apps.HealthProbe
import SafeEdge.Apps.SafetyEndpoint
import SafeEdge.Safety.Recovery
import SafeEdge.Apps.AllocationMetric
import SafeEdge.Rt.AllocationStatistic
import SafeEdge.Safety.ClockOrigin
import SafeEdge.Safety.FuzzTarget
import SafeEdge.Concurrent.SpscKnowledge
import SafeEdge.Concurrent.SpscRaceFreedom
import SafeEdge.Ipc.SeqlockCausality
import SafeEdge.Library.Binary64Sum
import SafeEdge.Rt.HistogramMean
import SafeEdge.Apps.Environment
import SafeEdge.Apps.OpcuaExposure
import SafeEdge.Apps.OpcuaOperator
import SafeEdge.Concurrent.SpscSequential
import SafeEdge.Ipc.SeqlockSequential
