import Mh.Lib.Run
import Mh.Lib.Tally
import Mh.Lib.Bins
import Mh.Lib.Ranges
import Mh.Lib.Links
import Mh.Lib.Tiles
import Mh.Lib.Refile
import Mh.Lib.Sessions
import Mh.Lib.Outcome
import Mh.Lib.Digits
import Mh.Lib.Slist
import Mh.Lib.Simpleq
import Mh.Lib.RingBuf
import Mh.Param
import Mh.Vm.Entry
import Mh.Vm.State
import Mh.Vm.Kern
import Mh.Vm.Spec
import Mh.Vm.Inv
import Mh.Vm.Steps
import Mh.Vm.Copy
import Mh.Vm.Reach
import Mh.Vm.Refs
import Mh.Vm.Flush
import Mh.Vm.Private
import Mh.Vm.Handler
import Mh.Vm.Fork
import Mh.Zone.Alloc
import Mh.Zone.Lists
import Mh.Vmap.Model
import Mh.Vmap.Inv
import Mh.Vmap.Calls
import Mh.Pg.Model
import Mh.Pg.Create
import Mh.Pg.Calls
import Mh.Pg.Init
import Mh.Pg.Runs
import Mh.Pg.WindowRuns
import Mh.Signal.Model
import Mh.Signal.Stub
import Mh.Signal.Nested
import Mh.Slab.Model
import Mh.Slab.Inv
import Mh.Slab.Calls
import Mh.Slab.Linked
import Mh.Slab.Classes
import Mh.Heap.Model
import Mh.Heap.Inv
import Mh.Heap.Runs
import Mh.Sched.Model
import Mh.Sched.Queues
import Mh.Sched.QInv
import Mh.Sched.Runs
import Mh.Sched.Timers
import Mh.Sched.TimerRuns
import Mh.Sched.Alarms
import Mh.Sched.VirtualAlarm
import Mh.Sched.Zombies
import Mh.Smp.Model
import Mh.Smp.Inv
import Mh.Smp.Steps
import Mh.Smp.Wake
import Mh.Smp.Stack
import Mh.Bus.State
import Mh.Bus.Drivers
import Mh.Bus.Calls
import Mh.Bus.Rules
import Mh.Bus.IoSpace
import Mh.Bus.OpCall
import Mh.Bus.Mmio
import Mh.Bus.Frame
import Mh.Bus.Plugs
import Mh.Bus.Tables
import Mh.Bus.Inv
import Mh.Bus.Steps
import Mh.Bus.Runs
import Mh.Bus.Attrib
import Mh.Bus.Signals
import Mh.Bus.Held
import Mh.Bus.Still
import Mh.Bus.Platform
import Mh.Bus.Blind
import Mh.Bus.Apertures
import Mh.Bus.Xcopy
import Mh.Lib.Copying
import Mh.Xcopy.Model
import Mh.Xcopy.Copies
import Mh.Bus.Twins
import Mh.Bus.Successors
import Mh.Proc.Model
import Mh.Proc.Tree
import Mh.Proc.Status
import Mh.Consume.Retry
import Mh.Irq.Lines
import Mh.Klog.Races
import Mh.Mrg.Model
import Mh.Mrg.Tree
import Mh.Mrg.Calls
import Mh.Mrg.Space
import Mh.Mrg.Dma32
import Mh.Lwt.Model
import Mh.Lwt.Queue
import Mh.Lwt.Events
import Mh.Lwt.EvtAlloc
import Mh.Lwt.Level
import Mh.Tlb.Requests
import Mh.Tlb.Shootdown
import Mh.Tlb.Progress
import Mh.Lib.Locking
import Mh.Locks.Kern
import Mh.Locks.Drivers
import Mh.Locks.Bus
import Mh.Life.Model
import Mh.Life.Inv
import Mh.Life.Steps
import Mh.Life.Runs
import Mh.Vm.Move
import Mh.Vm.Clean
import Mh.Vm.Export
import Mh.Vm.WireCounts
import Mh.Vm.MapRecords
import Mh.Zone.Fit
import Mh.Zone.Exact
import Mh.Pg.Built
import Mh.Vmap.Kvmap
import Mh.Vmap.RoundTrip
import Mh.Sysboot.Model
import Mh.Sysboot.Classify
import Mh.Slab.Release
import Mh.Squoze.RoundTrip
import Mh.Squoze.Append
import Mh.Blk.Model
import Mh.Blk.Bounds
import Mh.Blk.Life
import Mh.Dio.Segments
import Mh.Dio.Iomap
import Mh.Ahci.Port
import Mh.Ahci.Prdt
import Mh.Ahci.Encode
import Mh.Ahci.Queue
import Mh.Ahci.Runs
import Mh.Hyper.Exclusion
import Mh.Smp.IdleMap
import Mh.Smp.Vtt
import Mh.Console.Model
import Mh.Console.Delivery
import Mh.Lib.SearchTree
import Mh.Vmap.Overlap
import Mh.Vtty.Clist
import Mh.Console.Vga
import Mh.Console.Bounds
import Mh.Vtty.Consio
import Mh.Console.Registers
import Mh.Console.Keyboard
import Mh.Acpi.Resources
import Mh.Acpi.Bars
import Mh.Acpi.Sizing
import Mh.Acpi.Decode
import Mh.Acpi.Scanbus
import Mh.Lib.Tour
import Mh.Logio.Printf
import Mh.Logio.Toa
import Mh.Sysboot.Indices
import Mh.Squoze.Bounded
import Mh.Lib.RedBlack
import Mh.Rb.Model
import Mh.Rb.Shape
import Mh.Rb.Search
import Mh.Rb.Insert
import Mh.Rb.Remove
import Mh.Rb.Swap
import Mh.Rb.Spec
import Mh.Rb.Runs
import Mh.Rb.Check
import Mh.Blk.Tree
import Mh.Lib.WaitLists
import Mh.Rump.Effects
import Mh.Rump.Exclusion
import Mh.Rump.Join
