import Aosp.Liblp.Bounds
import Aosp.Liblp.Validation
import Aosp.Liblp.ImportExport
import Aosp.Liblp.CrashAtomic
import Aosp.Sparse.PieceSize
import Aosp.Sparse.Checksum
import Aosp.Libutils.String16
import Aosp.Libutils.String8
import Aosp.Libutils.UnicodeRoundTrip
import Aosp.Sparse.Expansion
import Aosp.Sparse.ChunkCount
import Aosp.Sparse.QueueOrder
import Aosp.Libutils.VectorRuns
import Aosp.Libutils.Looper
import Aosp.Scheduler.DispatchRuns
import Aosp.Scheduler.Unregister
import Aosp.Init.TokenizerRoundTrip
import Aosp.Scheduler.PredictorPhase
import Aosp.Scheduler.VsyncModulator
import Aosp.Scheduler.OneShotTimer
import Aosp.Modprobe.Termination
import Aosp.Fastboot.VendorBootFragments
import Aosp.Fastboot.UdpReliable
import Aosp.Input.StylusStreams
import Aosp.Input.Cancelation
import Aosp.Snapshot.ParseTermination
import Aosp.Init.PropertyCrash
import Aosp.Snapshot.SequenceData
import Aosp.Snapshot.DroppedOps
import Aosp.Liblp.FreeRegionHint
import Aosp.Tracing.RingBuffer
