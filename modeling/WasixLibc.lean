import WasixLibc.Bisect
import WasixLibc.SpanList
import WasixLibc.ThreadList
import WasixLibc.TimedWait
import WasixLibc.ClampedTimeout
import WasixLibc.CInteger
import WasixLibc.BarrierFrames
import WasixLibc.BarrierRounds
import WasixLibc.BitflagHeader
import WasixLibc.FlagTable
import WasixLibc.Epoll
import WasixLibc.BlockReserve
import WasixLibc.Arc4random
import WasixLibc.Arc4randomSeed
import WasixLibc.ByteMemory
import WasixLibc.SocketAddress
import WasixLibc.LinkedStack
import WasixLibc.FileActions
import WasixLibc.PosixSpawn
import WasixLibc.AddressRange
import WasixLibc.ThreadLayout
import WasixLibc.UntimedJoin
import WasixLibc.MmanFailure
import WasixLibc.MmanCapacity
import WasixLibc.MmanReturns
import WasixLibc.MmanCoverage
import WasixLibc.MmanStall
import WasixLibc.Vfork
import WasixLibc.WaitStatus
import WasixLibc.Nanoseconds
import WasixLibc.IntervalTimer
import WasixLibc.SendAddress
import WasixLibc.SocketOption
import WasixLibc.SocketOptionRound
import WasixLibc.ChaCha20
import WasixLibc.Keystream
import WasixLibc.RejectionSampling
import WasixLibc.UniformDraw
import WasixLibc.CComment
import WasixLibc.DatatypeHeader
import WasixLibc.HiddenType
import WasixLibc.MmanRelease
import WasixLibc.LinkedRing
import WasixLibc.ListZipper
import WasixLibc.LittleEndian
import WasixLibc.DirStream
import WasixLibc.DirentCursor
import WasixLibc.DirentHost
import WasixLibc.LabelledRun
import WasixLibc.MmanState
import WasixLibc.MmanCalls
import WasixLibc.MmanTable
import WasixLibc.MmanUnmap
import WasixLibc.MmanInvariant
import WasixLibc.MmanAcquire
import WasixLibc.MmanMap
import WasixLibc.MmanRun
import WasixLibc.MmanPageMap
import WasixLibc.MmanAllocation
import WasixLibc.MmanWriteback
import WasixLibc.MmanFileRef
import WasixLibc.MmanOrigin
import WasixLibc.SignalSet
import WasixLibc.SignalThread
import WasixLibc.SignalStep
import WasixLibc.SignalQuiescence
import WasixLibc.SignalReentrancy
import WasixLibc.Scandirat
import WasixLibc.ScandiratAgree
import WasixLibc.ScandiratRun
import WasixLibc.SignalAccounting
import WasixLibc.SignalDefault
import WasixLibc.SignalInternal
import WasixLibc.SignalMaskFrame
import WasixLibc.BoundedLoop
import WasixLibc.WasmDirent
import WasixLibc.WasmReaddir
import WasixLibc.WasmReaddirRound
import WasixLibc.WasmReaddirEnds
import WasixLibc.WasmDirStream
import WasixLibc.WasmSeekdir
import WasixLibc.Poll
import WasixLibc.DescriptorSet
import WasixLibc.PselectSets
import WasixLibc.Chdir
import WasixLibc.ChdirAtomic
import WasixLibc.ChdirCanonical
import WasixLibc.PathComponents
import WasixLibc.NulString
import WasixLibc.PreopenTable
import WasixLibc.PreopenLock
import WasixLibc.PreopenLookup
import WasixLibc.RecordStream
import WasixLibc.Relpath
import WasixLibc.AbsolutePath
import WasixLibc.RelpathDirectory
import WasixLibc.RelpathSound
import WasixLibc.ThreadLifetime
import WasixLibc.SignalTarget
import WasixLibc.FiledBins
import WasixLibc.EmmallocState
import WasixLibc.EmmallocCalls
import WasixLibc.EmmallocLayout
import WasixLibc.EmmallocBuckets
import WasixLibc.EmmallocInvariant
import WasixLibc.EmmallocSearch
import WasixLibc.EmmallocGrowth
import WasixLibc.EmmallocLevels
import WasixLibc.EmmallocRuns
import WasixLibc.EmmallocOwnership
import WasixLibc.EmmallocLedger
import WasixLibc.FutexThreads
import WasixLibc.FutexWait
import WasixLibc.InternalLock
import WasixLibc.ReadWriteLock
import WasixLibc.ThreadMutex
import WasixLibc.ThreadListLock
import WasixLibc.ThreadBarrier
import WasixLibc.ThreadOnce
import WasixLibc.PrefixTest
import WasixLibc.BarrierWakes
import WasixLibc.LeonardoHeap
import WasixLibc.Smoothsort
import WasixLibc.Qsort
import WasixLibc.QsortMoves
import WasixLibc.QsortRefines
