import PKernel.Library.ByteMemory
import PKernel.Library.Transition
import PKernel.Machine
import PKernel.Heap.Allocator
import PKernel.Heap.Layout
import PKernel.Heap.Alloc
import PKernel.Heap.Free
import PKernel.Library.Tiling
import PKernel.Heap.Run
import PKernel.Paging.VirtualRegions
import PKernel.Paging.VirtualAllocator
import PKernel.Paging.VirtualRun
import PKernel.Paging.VirtualCanonical
import PKernel.Paging.VirtualGaps
import PKernel.Paging.Bitmap
import PKernel.Paging.PhysicalAllocator
import PKernel.Library.TableTree
import PKernel.Paging.PageTables
import PKernel.Paging.PageTableTree
import PKernel.Paging.PageTableRun
import PKernel.Paging.Manager
import PKernel.Paging.Operations
import PKernel.Library.Tally
import PKernel.Paging.References
import PKernel.Paging.ReferenceRun
import PKernel.Paging.Ranges
import PKernel.Paging.RangeRun
import PKernel.Library.Associations
import PKernel.Library.LinkedList
import PKernel.Library.Ring
import PKernel.Library.WaitQueue
import PKernel.Library.ListFamily
import PKernel.Filesystem.Pipe
import PKernel.Filesystem.DirectoryEntry
import PKernel.Filesystem.EntryCounts
import PKernel.Filesystem.EntryOperations
import PKernel.Filesystem.Paths
import PKernel.Filesystem.Scanner
import PKernel.Filesystem.Resolution
import PKernel.Filesystem.File
import PKernel.Filesystem.EntryRun
import PKernel.Filesystem.PathReferences
import PKernel.Filesystem.PathRun
import PKernel.Filesystem.Mounts
import PKernel.Filesystem.MountRun
import PKernel.Filesystem.FileTable
import PKernel.Filesystem.Descriptors
import PKernel.Filesystem.PipeRun
import PKernel.Library.Ownership
import PKernel.Pkfs.Disc
import PKernel.Pkfs.Operations
import PKernel.Pkfs.PageContents
import PKernel.Pkfs.Ownership
import PKernel.Pkfs.Creation
import PKernel.Pkfs.Deletion
import PKernel.Pkfs.OwnershipRun
import PKernel.Pkfs.Listing
import PKernel.Pkfs.FileData
import PKernel.Scheduler.Operations
import PKernel.Scheduler.Memory
import PKernel.Scheduler.Placement
import PKernel.Scheduler.Calls
import PKernel.Processes.Children
import PKernel.Processes.Waits
import PKernel.Processes.Kernel
import PKernel.Processes.Standing
import PKernel.Processes.Calls
import PKernel.Processes.Lifetimes
import PKernel.Processes.Kill
import PKernel.Processes.KillRun
import PKernel.Modules.Loader
import PKernel.Modules.LoadRun
import PKernel.Sockets.UnixSocket
import PKernel.Sockets.Waiting
import PKernel.Sockets.Peers
import PKernel.Sockets.Stream
import PKernel.Sockets.Pairing
import PKernel.Sockets.Backlog
import PKernel.Sockets.Readers
import PKernel.Terminal.Tty
import PKernel.Terminal.LineDiscipline
import PKernel.Scheduler.Waits
import PKernel.Scheduler.Creation
import PKernel.Scheduler.Yield
import PKernel.Scheduler.InterruptableWait
import PKernel.Scheduler.Runs
import PKernel.Signals.SignalTable
import PKernel.Signals.Interruption
import PKernel.Paging.Translation
import PKernel.Paging.WriteFaults
import PKernel.Paging.Resizing
import PKernel.Paging.TableAllocator
import PKernel.Paging.AddressSpaces
import PKernel.Paging.AddressSpaceRun
import PKernel.Processes.TaskState
import PKernel.Programs.Loader
import PKernel.Programs.Segments
import PKernel.Paging.KernelMemory
import PKernel.Programs.Arguments
import PKernel.Programs.Exec
import PKernel.Signals.Delivery
import PKernel.Signals.Privilege
import PKernel.Processes.ProcessTable
import PKernel.Timers.Timer
import PKernel.Timers.AlarmRun
import PKernel.Heap.Realloc
import PKernel.Heap.Canonical
import PKernel.Heap.Accounting
import PKernel.Heap.Fit
import PKernel.Heap.Shrink
import PKernel.Paging.TranslationMap
import PKernel.Paging.TranslationMapRun
import PKernel.Filesystem.Removal
import PKernel.Filesystem.PathCalls
import PKernel.Filesystem.Listings
import PKernel.Filesystem.Unlinked
import PKernel.Filesystem.RemovalRun
import PKernel.Pkfs.Lookup
import PKernel.Paging.ContiguousSearch
import PKernel.Paging.Restoring
import PKernel.Paging.BitmapInit
import PKernel.Paging.WindowRun
import PKernel.Paging.KernelViews
import PKernel.Paging.TeardownRun
import PKernel.Paging.RootFrames
import PKernel.Programs.StackPushes
import PKernel.Programs.ArgumentStrings
import PKernel.Programs.ArgumentVector
import PKernel.Programs.StackRoom
import PKernel.Pkfs.FileSize
import PKernel.Pkfs.WritePages
import PKernel.Pkfs.Linking
import PKernel.Pkfs.Superblock
import PKernel.Pkfs.NodeLookup
import PKernel.Pkfs.EnteredFiles
import PKernel.Pkfs.FailedCreation
import PKernel.Library.ChunkChain
import PKernel.Pkfs.MalformedImages
import PKernel.Pkfs.DeletedListing
import PKernel.Library.SparseBytes
import PKernel.Filesystem.Ramfs
import PKernel.Filesystem.RamfsRun
import PKernel.Filesystem.Making
import PKernel.Timers.Ticks
import PKernel.Timers.TimerList
import PKernel.Timers.TimerWalk
import PKernel.Timers.Schedule
import PKernel.Input.Mouse
import PKernel.Input.Device
import PKernel.Input.Keyboard
import PKernel.Discs.Pio
import PKernel.Filesystem.RamfsBounds
import PKernel.Filesystem.Seek
import PKernel.Terminal.BufferBounds
import PKernel.Filesystem.DescriptorArguments
import PKernel.Filesystem.TableBlocks
import PKernel.Programs.BufferCalls
import PKernel.Programs.BufferViews
import PKernel.Filesystem.Opening
import PKernel.Filesystem.Sysfs
import PKernel.Filesystem.SysfsRun
import PKernel.Strings.Writestr
import PKernel.Devices.DeviceList
import PKernel.Terminal.Numbering
import PKernel.Library.Painting
import PKernel.Terminal.VgaTerminal
import PKernel.Terminal.VgaScreen
import PKernel.Library.HashChains
import PKernel.Io.Arbitrator
import PKernel.Discs.Probe
import PKernel.Modules.LoadTermination
import PKernel.Pkfs.PageTypes
import PKernel.Pkfs.PageTypesRun
import PKernel.Library.Refinement
import PKernel.Paging.Loans
import PKernel.Paging.Separation
import PKernel.Paging.Unsharing
import PKernel.Library.PrivateMemory
import PKernel.Processes.Fork
import PKernel.Paging.PrivateViews
import PKernel.Processes.PrivateMemories
import PKernel.Processes.CopyOnWrite
