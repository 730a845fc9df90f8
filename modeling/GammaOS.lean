import GammaOS.Boot.BootSector
import GammaOS.CString
import GammaOS.Display.Backspace
import GammaOS.Display.Screen
import GammaOS.Display.Vga
import GammaOS.Foundation.AtaDrive
import GammaOS.Foundation.ByteMemory
import GammaOS.Foundation.ByteString
import GammaOS.Foundation.Decimal
import GammaOS.Foundation.Ledger
import GammaOS.Foundation.LinkedList
import GammaOS.Foundation.MappedCopy
import GammaOS.Foundation.Program
import GammaOS.Foundation.Ring
import GammaOS.Foundation.Runs
import GammaOS.Foundation.SlotTable
import GammaOS.Foundation.StepRelation
import GammaOS.Foundation.X86
import GammaOS.Foundation.X86Calls
import GammaOS.Fs.AtaRead
import GammaOS.Fs.ChainWalk
import GammaOS.Fs.DirectoryLookup
import GammaOS.Fs.Disk
import GammaOS.Fs.DiskStream
import GammaOS.Fs.DriverErrors
import GammaOS.Fs.EntryName
import GammaOS.Fs.EntryScan
import GammaOS.Fs.Fat16
import GammaOS.Fs.Fat16Faults
import GammaOS.Fs.Fat16Frame
import GammaOS.Fs.Fat16Handles
import GammaOS.Fs.Fat16Laws
import GammaOS.Fs.Fat16Read
import GammaOS.Fs.Fat16ReadBack
import GammaOS.Fs.FatEntry
import GammaOS.Fs.FdTable
import GammaOS.Fs.FdTableRuns
import GammaOS.Fs.FileEnd
import GammaOS.Fs.FopenLeak
import GammaOS.Fs.FopenSafety
import GammaOS.Fs.Geometry
import GammaOS.Fs.GeometrySafety
import GammaOS.Fs.NamedEntry
import GammaOS.Fs.Parser
import GammaOS.Fs.ParserMemory
import GammaOS.Fs.PathGrammar
import GammaOS.Fs.PathLookup
import GammaOS.Fs.PathPrint
import GammaOS.Fs.PathRoom
import GammaOS.Fs.PathUnits
import GammaOS.Fs.PathWalk
import GammaOS.Fs.ReadSeek
import GammaOS.Fs.ReadStores
import GammaOS.Fs.RootScan
import GammaOS.Fs.SeekRuns
import GammaOS.Fs.Vfs
import GammaOS.Fs.VfsFrame
import GammaOS.Kernel.AllocationTable
import GammaOS.Kernel.Boot
import GammaOS.Kernel.BootRun
import GammaOS.Kernel.CreatedProcess
import GammaOS.Kernel.DescriptorRuns
import GammaOS.Kernel.ElfBounds
import GammaOS.Kernel.ElfSegments
import GammaOS.Kernel.ElfTails
import GammaOS.Kernel.EnterTask
import GammaOS.Kernel.Entries
import GammaOS.Kernel.FileProcess
import GammaOS.Kernel.FreedPages
import GammaOS.Kernel.GiveBack
import GammaOS.Kernel.Idt
import GammaOS.Kernel.ImageCalls
import GammaOS.Kernel.InControl
import GammaOS.Kernel.InnerSteps
import GammaOS.Kernel.Isolation
import GammaOS.Kernel.Isr
import GammaOS.Kernel.KernelPages
import GammaOS.Kernel.Keyboard
import GammaOS.Kernel.KeyboardQueue
import GammaOS.Kernel.KilledProcess
import GammaOS.Kernel.LiveProcess
import GammaOS.Kernel.LoadErrors
import GammaOS.Kernel.LoadFrame
import GammaOS.Kernel.MachineRuns
import GammaOS.Kernel.NewAtomic
import GammaOS.Kernel.NewFrame
import GammaOS.Kernel.NewProcess
import GammaOS.Kernel.Process
import GammaOS.Kernel.ProcessFiles
import GammaOS.Kernel.ProcessLoad
import GammaOS.Kernel.ProcessMap
import GammaOS.Kernel.ProcessMemory
import GammaOS.Kernel.ProcessRuns
import GammaOS.Kernel.ProcessTable
import GammaOS.Kernel.ProgramRuns
import GammaOS.Kernel.Ps2
import GammaOS.Kernel.Quiet
import GammaOS.Kernel.Resume
import GammaOS.Kernel.SegmentLimits
import GammaOS.Kernel.Served
import GammaOS.Kernel.State
import GammaOS.Kernel.Syscall
import GammaOS.Kernel.SyscallStrings
import GammaOS.Kernel.SystemRuns
import GammaOS.Kernel.TaskBodies
import GammaOS.Kernel.TaskCopy
import GammaOS.Kernel.TaskCopyExact
import GammaOS.Kernel.TaskList
import GammaOS.Kernel.TaskListOrder
import GammaOS.Kernel.TaskListRuns
import GammaOS.Kernel.TaskState
import GammaOS.Kernel.TypedText
import GammaOS.Kernel.Undisturbed
import GammaOS.Kernel.UserCalls
import GammaOS.Kernel.UserFree
import GammaOS.Kernel.UserMalloc
import GammaOS.Kernel.UserMemory
import GammaOS.Kernel.UserStores
import GammaOS.Loader.Elf
import GammaOS.Loader.FileVolume
import GammaOS.Loader.GLoader
import GammaOS.Loader.ShellVolume
import GammaOS.Machine
import GammaOS.Memory.Arena
import GammaOS.Memory.Blocks
import GammaOS.Memory.FirstFit
import GammaOS.Memory.FreeCount
import GammaOS.Memory.Heap
import GammaOS.Memory.HeapLayout
import GammaOS.Memory.HeapLeak
import GammaOS.Memory.HeapRuns
import GammaOS.Memory.HeapSearch
import GammaOS.Memory.HeldBlocks
import GammaOS.Memory.KernelHeap
import GammaOS.Memory.Region
import GammaOS.Memory.SingleBlocks
import GammaOS.Memory.StringCalls
import GammaOS.Paging.AddressSpace
import GammaOS.Paging.DestroyedSpace
import GammaOS.Paging.MapCalls
import GammaOS.Paging.NewSpace
import GammaOS.Paging.PageMap
import GammaOS.Paging.PageWalk
import GammaOS.Paging.Paging
import GammaOS.Paging.SpaceFrame
import GammaOS.Paging.SpaceRuns
import GammaOS.Segments.Gdt
import GammaOS.User.CallStubs
import GammaOS.User.GetsCode
import GammaOS.User.Gshell
import GammaOS.User.PrintfText
import GammaOS.User.Stdio
import GammaOS.User.Stdlib
