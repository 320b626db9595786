import AeronPy.Lib.StepMachine
import AeronPy.Lib.ByteMemory
import AeronPy.Lib.StridedLayout
import AeronPy.Lib.CyclicLog
import AeronPy.Lib.AppendLog
import AeronPy.Lib.KeyedOverlay
import AeronPy.Lib.ScopedLock
import AeronPy.Lib.KeepAlive
import AeronPy.Lib.PositionLog
import AeronPy.Pybind
import AeronPy.Data
import AeronPy.Publication
import AeronPy.Subscription
import AeronPy.PollForm
import AeronPy.Delivery
import AeronPy.RoundTrip
import AeronPy.Samples
import AeronPy.Demultiplex
import AeronPy.LogBuffer
import AeronPy.LogDelivery
import AeronPy.ImageClose
import AeronPy.Kwargs
import AeronPy.Archive
import AeronPy.ArchiveOverlay
import AeronPy.Recordings
import AeronPy.Replay
import AeronPy.ReplayDelivery
import AeronPy.FindAndReplay
import AeronPy.Context
import AeronPy.ContextOverlay
import AeronPy.EndOfStream
import AeronPy.Callbacks
import AeronPy.NoneOmission
import AeronPy.Client
import AeronPy.Registration
import AeronPy.Reuse
import AeronPy.Released
import AeronPy.Threads
import AeronPy.WaitLoops
import AeronPy.Deadlock
import AeronPy.Invoker
import AeronPy.Destructor
import AeronPy.Lifetime
