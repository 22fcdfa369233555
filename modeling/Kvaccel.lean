import Kvaccel.Proofs.ReadYourWrites
import Kvaccel.Proofs.Isolation
import Kvaccel.Spec.Reply
import Kvaccel.Proofs.ScanOrder
import Kvaccel.Proofs.Decoding
import Kvaccel.Proofs.FreshScan
import Kvaccel.Proofs.ScanOutcomes
import Kvaccel.Proofs.ReadPaths
import Kvaccel.Proofs.PutBuffer
import Kvaccel.Proofs.HostBuffer
import Kvaccel.Spec.IdealDev
import Kvaccel.Proofs.Threads
import Kvaccel.Proofs.Reads
import Kvaccel.Proofs.Pass
import Kvaccel.Proofs.Coherence
import Kvaccel.Spec.Coherent
import Kvaccel.Proofs.MergedScan
import Kvaccel.Proofs.IteratorReads
import Kvaccel.Lib.Join
import Kvaccel.Lib.Inevitable
import Kvaccel.Lib.Lock
import Kvaccel.Lib.Run
import Kvaccel.Proofs.Acknowledged
import Kvaccel.Proofs.Migration
import Kvaccel.Proofs.Deadlock
import Kvaccel.Proofs.ValueLog
import Kvaccel.Proofs.ValueFlush
import Kvaccel.Proofs.Session
import Kvaccel.Proofs.Lifecycle
import Kvaccel.Proofs.Tracker
import Kvaccel.Proofs.ScanBuffers
import Kvaccel.Proofs.Stalls
import Kvaccel.Proofs.Stats
import Kvaccel.Proofs.IterIds
import Kvaccel.Spec.Serial
import Kvaccel.Proofs.Serial
import Kvaccel.Proofs.Sections
import Kvaccel.Proofs.SerialMaster
import Kvaccel.Spec.KeyWalk
import Kvaccel.Spec.KvDevice
import Kvaccel.Proofs.DriverSilent
import Kvaccel.Proofs.KvDriver
import Kvaccel.Proofs.KvSections
import Kvaccel.Proofs.KvRest
import Kvaccel.Proofs.KvDrain
import Kvaccel.Proofs.KvReads
import Kvaccel.Proofs.SingleIter
import Kvaccel.Proofs.BenchKeys
import Kvaccel.Proofs.PutBuilds
import Kvaccel.Proofs.Races
import Kvaccel.Proofs.IterDriver
