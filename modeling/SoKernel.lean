import SoKernel.Library.ByteMemory
import SoKernel.Library.Loops
import SoKernel.Library.Bitmap
import SoKernel.Library.CircularList
import SoKernel.Library.Tiling
import SoKernel.Library.RingBuffer
import SoKernel.Library.PageTable
import SoKernel.Library.CharBuffer
import SoKernel.Memory.FrameAllocator
import SoKernel.Memory.Paging
import SoKernel.Memory.KernelHeap
import SoKernel.Memory.HeapInvariant
import SoKernel.Memory.HeapAllocation
import SoKernel.Memory.HeapSafety
import SoKernel.Memory.FreeList
import SoKernel.Memory.HeapRequests
import SoKernel.Kernel.State
import SoKernel.Scheduler.Schedule
import SoKernel.Syscall.UserSpace
import SoKernel.Memory.AddressSpace
import SoKernel.Memory.SpaceBuilding
import SoKernel.Memory.SpaceCloning
import SoKernel.Memory.ImageBuilding
import SoKernel.Interrupts.Timer
import SoKernel.Kernel.ModuleLoader
import SoKernel.Process.Creation
import SoKernel.Syscall.Dispatcher
import SoKernel.Memory.Spaces
import SoKernel.Memory.StoreInvariant
import SoKernel.Kernel.Boot
import SoKernel.Kernel.System
import SoKernel.Kernel.Invariant
import SoKernel.Syscall.Fork
import SoKernel.Syscall.Exec
import SoKernel.Kernel.Preservation
import SoKernel.Process.Loading
import SoKernel.Process.Making
import SoKernel.Kernel.BootInvariant
import SoKernel.Interrupts.Stubs
import SoKernel.Scheduler.Labels
import SoKernel.Scheduler.ReadyQueue
import SoKernel.Scheduler.Rotation
import SoKernel.Scheduler.Contexts
import SoKernel.Scheduler.StatLog
import SoKernel.Scheduler.StatText
import SoKernel.Scheduler.BurstPrediction
import SoKernel.Syscall.ExecImages
import SoKernel.Syscall.ForkCopies
import SoKernel.Process.AllOrNothing
import SoKernel.Process.StaleMemory
import SoKernel.Scheduler.Pids
import SoKernel.Syscall.ExecBuilds
import SoKernel.Syscall.UserPath
import SoKernel.Syscall.ModuleLookup
import SoKernel.Kernel.Progress
import SoKernel.Kernel.Isolation
import SoKernel.Kernel.Population
import SoKernel.Syscall.SpaceRelease
import SoKernel.Syscall.ForkFailures
import SoKernel.Kernel.TempWindow
import SoKernel.Memory.PageMapping
import SoKernel.Io.Framebuffer
import SoKernel.Interrupts.Keyboard
import SoKernel.Library.Traces
import SoKernel.Kernel.Events
import SoKernel.Scheduler.Policies
import SoKernel.Scheduler.BoundedWaiting
import SoKernel.Scheduler.Accounting
import SoKernel.Scheduler.Metrics
import SoKernel.Kernel.Privilege
import SoKernel.Library.PrivateMemory
import SoKernel.Kernel.Memories
import SoKernel.Kernel.Lifetime
import SoKernel.Library.PortIo
import SoKernel.Library.Uart
import SoKernel.Io.SerialPort
import SoKernel.Io.Transcript
import SoKernel.Library.InterruptController
import SoKernel.Interrupts.Controllers
import SoKernel.Library.Descriptors
import SoKernel.Segment.Tables
import SoKernel.Kernel.Entry
import SoKernel.Kernel.FrameBalance
