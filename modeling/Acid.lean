import Acid.PointerForest
import Acid.HashTable
import Acid.Tally
import Acid.SinkGraph
import Acid.State
import Acid.Safelist
import Acid.Collector
import Acid.Object
import Acid.Run
import Acid.Frame
import Acid.Fields
import Acid.Merging
import Acid.SafelistEffect
import Acid.CollectorForest
import Acid.Balance
import Acid.Forwarding
import Acid.Layout
import Acid.Sound
import Acid.SoundCollectors
import Acid.SoundCounting
import Acid.LinkFrame
import Acid.SoundLinks
import Acid.Listing
import Acid.SoundObjects
import Acid.SoundRemoval
import Acid.SoundMutators
import Acid.ObjectEffect
import Acid.SoundTasks
import Acid.SoundExit
import Acid.Events
import Acid.SoundRun
import Acid.Replay
import Acid.Accounting
import Acid.HeapStep
import Acid.Flags
import Acid.LinkRecords
import Acid.WeakOnly
import Acid.Safety
import Acid.Interleaving
import Acid.PhantomizeWindow
import Acid.RecoverWindow
import Acid.LayoutStep
import Acid.RebuildLists
import Acid.Counts
import Acid.ClassClosure
import Acid.ClassEvents
import Acid.ClassAssertions
import Acid.Termination
import Acid.Locker
import Acid.Assignment
import Acid.TaskPool
import Acid.StartStop
import Acid.WaitForZero
import Acid.CollectionStatus
import Acid.StatusMerging
import Acid.StatusAccounts
import Acid.Procedure
import Acid.LockedCollector
import Acid.LockedObject
import Acid.LockScopes
import Acid.LockBalance
import Acid.LockOrder
import Acid.LockRequests
import Acid.OrderedCollector
import Acid.OrderedObject
import Acid.OrderedRun
import Acid.DeadlockFree
import Acid.TableRuns
import Acid.NodeList
import Acid.Completion
import Acid.CollectorReturns
import Acid.UndisturbedRun
import Acid.UndisturbedWorker
