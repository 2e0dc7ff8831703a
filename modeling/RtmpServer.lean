import RtmpServer.Lib.Interference
import RtmpServer.HeaderRoundTrip
import RtmpServer.HeaderInheritance
import RtmpServer.Isolation
import RtmpServer.MetadataEntries
import RtmpServer.RelayDecode
import RtmpServer.FailedReceive
import RtmpServer.ControlChunks
import RtmpServer.Session
import RtmpServer.IncomingChunks
import RtmpServer.History
import RtmpServer.Clients
import RtmpServer.Correlation
import RtmpServer.Undisturbed
import RtmpServer.Gating
import RtmpServer.LiveConsumers
import RtmpServer.ContinuationChunks
import RtmpServer.PropertyLists
import RtmpServer.Printing
import RtmpServer.GuardedPayloads
import RtmpServer.Fragments
import RtmpServer.PayloadSizes
import RtmpServer.SeveralObjects
import RtmpServer.TimestampRange
import RtmpServer.WaitConnect
import RtmpServer.OnAir
import RtmpServer.SystemCalls
import RtmpServer.TimeoutHeap
import RtmpServer.Scheduler
import RtmpServer.SchedulerRuns
