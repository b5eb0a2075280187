import Rhype.Logical.Equiv.Lookup
import Rhype.Resource.Equiv.PsmRelease
import Rhype.Resource.Equiv.Slots
import Rhype.Gdt.Equiv.Partial
import Rhype.Resource.Equiv.AcceptPlace
import Rhype.Resource.Equiv.Create
import Rhype.Resource.Equiv.Conflict
import Rhype.Resource.Equiv.AcceptRace
import Rhype.Resource.Equiv.InsertRace
import Rhype.Resource.Equiv.DeathCleanup
import Rhype.Pgcache.Equiv.Present
import Rhype.Pgcache.Equiv.Linked
import Rhype.Pgcache.Equiv.Backed
import Rhype.Pgcache.Equiv.HvSlots
import Rhype.Vio.Equiv.PutTce
import Rhype.Ipc.Equiv.Wakeup
import Rhype.Intr.Equiv.Privilege
import Rhype.Hash.Equiv.Multimap
import Rhype.Lbm.Equiv.Acquire
import Rhype.Htab.Equiv.EnterSlot
import Rhype.Vio.Equiv.Dart
import Rhype.Sched.Equiv.Next
import Rhype.Sched.Equiv.Slots
import Rhype.Ipc.Equiv.Create
import Rhype.Rcu.Equiv.Grace
import Rhype.Rcu.Equiv.Pause
import Rhype.Llan.Equiv.Unicast
import Rhype.Htab.Equiv.ReadBack
import Rhype.Htab.Equiv.Purge
import Rhype.Htab.Equiv.Tlbie
import Rhype.Htab.Equiv.Count
import Rhype.Logical.Equiv.Claim
import Rhype.Logical.Equiv.Info
import Rhype.Vio.Equiv.Transfer
import Rhype.Vio.Equiv.Release
import Rhype.Vterm.Equiv.Queue
import Rhype.Os.Equiv.Events
import Rhype.Llan.Equiv.Handout
import Rhype.Llan.Equiv.RecvQueue
import Rhype.Xir.Equiv.Queues
import Rhype.Openfw.Equiv.Memory
import Rhype.Devtree.Equiv.Setprop
import Rhype.Gdb.Equiv.Hex
import Rhype.Hash.Equiv.Alloc
import Rhype.Atomic.Equiv.Lock
