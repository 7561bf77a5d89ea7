import HiStar.Btree.StaleRead
import HiStar.Dj.Delivery
import HiStar.Dj.Incoming
import HiStar.Dj.Translation
import HiStar.Dstack
import HiStar.FsDir.Dirbase
import HiStar.FsDir.Links
import HiStar.FsDir.Move
import HiStar.Handle.Alloc
import HiStar.Handle.Decipher
import HiStar.Iflow.Boundary
import HiStar.Iflow.CompareCache
import HiStar.Iflow.Conservation
import HiStar.Iflow.Flow
import HiStar.Iflow.Join
import HiStar.Jcomm.Channel
import HiStar.Kobj.BorrowAtomic
import HiStar.Kobj.Hereditary
import HiStar.Mmap.Suitable
import HiStar.Pagetree.Map
import HiStar.Pmap.Traverse
import HiStar.Pstate.BuffersConserved
import HiStar.Pstate.HashRuns
import HiStar.Pstate.LogRefines
import HiStar.Pstate.PartitionReplay
import HiStar.Pstate.RoundTrip
import HiStar.Pstate.Waiters
import HiStar.Sched.Timer
import HiStar.Sched.Waking
import HiStar.Userlabel.Agree
import HiStar.Userlabel.GateEnter
import HiStar.Userlabel.Taint
import HiStar.Userlabel.Text
import HiStar.Vm.Invert
import HiStar.Vm.Readonly
