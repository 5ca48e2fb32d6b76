import TP2Kernel.Framework.Transition
import TP2Kernel.Framework.Word
import TP2Kernel.Memory.PageStack
import TP2Kernel.Memory.Ownership
import TP2Kernel.Memory.Conservation
import TP2Kernel.Framework.Scan
import TP2Kernel.Framework.Counting
import TP2Kernel.Stdlib
import TP2Kernel.BasicFile.Table
import TP2Kernel.BasicFile.Invariant
import TP2Kernel.BasicFile.Destruction
import TP2Kernel.BasicFile.Fifo
import TP2Kernel.Process.Pcb
import TP2Kernel.Process.Lifecycle
import TP2Kernel.Scheduler.Queue
import TP2Kernel.Framework.RoundRobin
import TP2Kernel.Scheduler.Ring
import TP2Kernel.Scheduler.Outcome
import TP2Kernel.Scheduler.Runs
import TP2Kernel.Scheduler.Refinement
import TP2Kernel.Scheduler.Failure
import TP2Kernel.Scheduler.Recycling
import TP2Kernel.Scheduler.History
import TP2Kernel.Terminal.Buffers
import TP2Kernel.MessageQueue.Table
import TP2Kernel.FileManager.Operate
import TP2Kernel.MessageQueue.Operations
import TP2Kernel.FileManager.WaitForIO
import TP2Kernel.FileManager.Calls
import TP2Kernel.MessageQueue.Transfer
import TP2Kernel.MessageQueue.Delivery
import TP2Kernel.MessageQueue.Outcome
import TP2Kernel.MessageQueue.Runs
import TP2Kernel.MessageQueue.Links
import TP2Kernel.MessageQueue.Invariant
import TP2Kernel.MessageQueue.Failure
import TP2Kernel.MessageQueue.Exit
import TP2Kernel.Scheduler.Preemption
import TP2Kernel.MessageQueue.Steps
import TP2Kernel.MessageQueue.Company
import TP2Kernel.MessageQueue.Race
import TP2Kernel.MessageQueue.Occupancy
import TP2Kernel.Framework.CircularBuffer
import TP2Kernel.Framework.LinkedRing
import TP2Kernel.Process.Outcome
import TP2Kernel.Process.Descriptors
import TP2Kernel.Process.Failure
import TP2Kernel.MessageQueue.Modes
import TP2Kernel.MessageQueue.Sharing
import TP2Kernel.Terminal.Contents
import TP2Kernel.Terminal.Output
import TP2Kernel.Terminal.Keyboard
import TP2Kernel.Terminal.Lines
import TP2Kernel.Terminal.LineEditor
import TP2Kernel.Userland.SongModule
import TP2Kernel.Framework.TestAndSet
import TP2Kernel.Mutex.Calls
import TP2Kernel.Mutex.Exclusion
import TP2Kernel.Framework.LinkedChain
import TP2Kernel.Memory.Words
import TP2Kernel.Process.Heap
import TP2Kernel.Process.Allocation
import TP2Kernel.Process.Heaps
import TP2Kernel.Process.Accounting
import TP2Kernel.Memory.Copies
import TP2Kernel.Memory.Bytes
import TP2Kernel.Process.StackFrame
import TP2Kernel.Process.Arguments
import TP2Kernel.Process.Context
import TP2Kernel.Process.Exhaustion
import TP2Kernel.BasicFile.Creation
import TP2Kernel.Framework.BoundedQueue
import TP2Kernel.BasicFile.Queue
import TP2Kernel.BasicFile.FreeSpace
import TP2Kernel.MessageQueue.Draining
import TP2Kernel.FileManager.Refusal
import TP2Kernel.FileManager.DescriptorTables
import TP2Kernel.Framework.Recorded
import TP2Kernel.Process.StackWrites
import TP2Kernel.Mutex.CallerMemory
import TP2Kernel.MessageQueue.UniqueNames
import TP2Kernel.MessageQueue.Bulk
import TP2Kernel.Terminal.LineReading
import TP2Kernel.Terminal.Progress
import TP2Kernel.Terminal.Shift
import TP2Kernel.Terminal.RawKeys
import TP2Kernel.Scheduler.Walking
import TP2Kernel.Scheduler.Waiting
import TP2Kernel.Scheduler.Sleep
import TP2Kernel.Process.Names
import TP2Kernel.Scheduler.ProcessList
import TP2Kernel.Framework.IntLoop
import TP2Kernel.Video.Graphics
import TP2Kernel.Video.Text
import TP2Kernel.Video.Cursor
import TP2Kernel.Video.Scrolling
import TP2Kernel.Framework.Painting
import TP2Kernel.Video.Rectangles
import TP2Kernel.Video.Images
import TP2Kernel.Userland.ReadLine
import TP2Kernel.Userland.Game
import TP2Kernel.Userland.Jumping
import TP2Kernel.Modules.Packer
import TP2Kernel.Modules.Loader
import TP2Kernel.Framework.Numeral
import TP2Kernel.Stdlib.IntToStr
import TP2Kernel.Stdlib.NumberBuffers
import TP2Kernel.Stdlib.StringOrder
import TP2Kernel.Stdlib.StringSearch
import TP2Kernel.Framework.Multiplexing
import TP2Kernel.Process.Interrupts
import TP2Kernel.Process.HeapWrites
import TP2Kernel.Scheduler.Housed
import TP2Kernel.Scheduler.Processor
import TP2Kernel.Video.Picture
import TP2Kernel.Video.Screen
import TP2Kernel.BasicFile.Preemption
import TP2Kernel.Framework.Framing
import TP2Kernel.MessageQueue.Messages
import TP2Kernel.Scheduler.Fairness
import TP2Kernel.Framework.Ledger
import TP2Kernel.Process.Pool
import TP2Kernel.Terminal.Session
import TP2Kernel.Process.Isolation
import TP2Kernel.Terminal.Echo
import TP2Kernel.Userland.Commands
import TP2Kernel.Userland.InputReceiver
import TP2Kernel.Userland.Display
