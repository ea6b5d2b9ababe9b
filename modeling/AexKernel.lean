import AexKernel.Kernel
import AexKernel.Lib.Counting
import AexKernel.Lib.Endless
import AexKernel.Lib.Runs
import AexKernel.Lib.Words
import AexKernel.Mem.Frame
import AexKernel.Rc.Entry
import AexKernel.Task.Process
import AexKernel.Task.PrkillInvariant
import AexKernel.Task.PrkillArgs
import AexKernel.Task.PrkillOnce
import AexKernel.Task.PrkillProgress
import AexKernel.Task.PruseBusy
import AexKernel.Task.Thread
import AexKernel.Task.ThreadFrame
import AexKernel.Task.TkillOnce
import AexKernel.Task.TuseBusy
import AexKernel.Task.ShedCyclic
import AexKernel.Lib.Machine
import AexKernel.Page.Foreach
import AexKernel.Page.Map
import AexKernel.Page.Refine
import AexKernel.Lib.Ownership
import AexKernel.Mem.OnePiece
import AexKernel.Page.Alloc
import AexKernel.Page.Isolation
import AexKernel.Page.Grown
import AexKernel.Page.Search
import AexKernel.Page.Account
import AexKernel.Page.Counters
import AexKernel.Page.Ledger
import AexKernel.Mem.Pieces
import AexKernel.Page.Pgfree
import AexKernel.Page.PgfreeSafe
import AexKernel.Lib.Bytes
import AexKernel.Lib.Writes
import AexKernel.Lib.FirstFit
import AexKernel.Mem.Pool
import AexKernel.Mem.PoolInvariant
import AexKernel.Mem.PoolCreate
import AexKernel.Mem.Realloc
import AexKernel.Mem.PoolChain
import AexKernel.Mem.PoolServes
import AexKernel.Rc.Array
import AexKernel.Rc.Foreach
import AexKernel.Rc.ArrayRefs
import AexKernel.Rc.Table
import AexKernel.Rc.TableRefs
import AexKernel.Lib.Ring
import AexKernel.Sync.Cbuf
import AexKernel.Task.Shed
import AexKernel.Task.ShedChoice
import AexKernel.Task.CallRefs
import AexKernel.Sync.Event
import AexKernel.Sync.EventLock
import AexKernel.Sync.EventDefunct
import AexKernel.Dev.BlockRead
import AexKernel.Dev.BlockReadRight
import AexKernel.Dev.BlockQueue
import AexKernel.Dev.BlockServed
import AexKernel.Sync.CbufWait
import AexKernel.Sync.Cbufm
import AexKernel.Sync.CbufmWait
import AexKernel.Sys.IrqQueue
import AexKernel.Sys.IrqWake
import AexKernel.Fs.Files
import AexKernel.Fs.FilesOnce
import AexKernel.Fs.Iso9660
import AexKernel.Lib.Sharing
import AexKernel.Fs.Devfs
import AexKernel.Fs.Layer
import AexKernel.Fs.LayerKept
import AexKernel.Fs.DevfsSessions
import AexKernel.Fs.DevfsOnce
import AexKernel.Fs.Iso9660Open
import AexKernel.Fs.NullOps
import AexKernel.Fs.Iso9660Scan
import AexKernel.Fs.MountLookup
import AexKernel.Lib.Strings
import AexKernel.Fs.AbsolutePath
import AexKernel.Fs.Iso9660Resolve
import AexKernel.Rc.Alive
import AexKernel.Dev.Tree
import AexKernel.Dev.TreeKept
import AexKernel.Dev.TreeBind
import AexKernel.Tty.Screen
import AexKernel.Tty.Bounds
import AexKernel.Tty.Separate
import AexKernel.Exec.Elf
import AexKernel.Fs.LayerCounts
import AexKernel.Exec.ElfCloses
import AexKernel.Exec.ElfSafe
import AexKernel.Exec.EntryCaller
import AexKernel.Task.Spawn
import AexKernel.Task.SpawnUndone
import AexKernel.Mem.InOrder
import AexKernel.Lib.WordBytes
import AexKernel.Page.Calls
import AexKernel.Page.Laid
import AexKernel.Page.Find
import AexKernel.Page.Window
import AexKernel.Page.Access
import AexKernel.Page.Backed
import AexKernel.Exec.ElfMemory
import AexKernel.Page.Borrowed
import AexKernel.Exec.ElfSetting
import AexKernel.Exec.ElfSteps
import AexKernel.Exec.ElfSections
import AexKernel.Exec.ElfEntry
import AexKernel.Exec.ElfReturns
import AexKernel.Exec.ElfLoaded
import AexKernel.Mem.FrameSet
import AexKernel.Mem.Addresses
import AexKernel.Mem.Contiguous
import AexKernel.Page.Kpalloc
import AexKernel.Page.Mapping
import AexKernel.Lib.Postorder
import AexKernel.Page.Dispose
import AexKernel.Page.Rooted
import AexKernel.Page.Disposed
import AexKernel.Mem.Multiboot
import AexKernel.Mem.MultibootPieces
import AexKernel.Mem.BitmapFrames
import AexKernel.Mem.MultibootTaken
import AexKernel.Mem.MultibootBitmaps
import AexKernel.Dev.BlockBursts
import AexKernel.Lib.Sectors
import AexKernel.Dev.ClassDisk
import AexKernel.Dev.AhciSr
import AexKernel.Dev.BlockRefs
import AexKernel.Lib.Cursor
import AexKernel.Fs.Iso9660Cursor
import AexKernel.Lib.Script
import AexKernel.Fs.Iso9660Script
import AexKernel.Fs.Iso9660Failures
import AexKernel.Lib.Ends
import AexKernel.Fs.Iso9660Mount
import AexKernel.Fs.Iso9660Extents
import AexKernel.Fs.Iso9660Inside
import AexKernel.Fs.Iso9660Listing
import AexKernel.Sys.IrqImmediate
import AexKernel.Sys.PciConfig
import AexKernel.Sys.PciBars
import AexKernel.Fs.DevfsOpen
import AexKernel.Fs.ProcCleanup
import AexKernel.Tty.Escapes
import AexKernel.Tty.Display
import AexKernel.Tty.Coherent
import AexKernel.Dev.Keyboard
import AexKernel.Task.SlotLive
import AexKernel.Sys.Syscall
import AexKernel.Task.Setcwd
import AexKernel.Lib.Bindings
import AexKernel.Lib.Numerals
import AexKernel.Str.Ntoa
import AexKernel.Str.Snprintf
import AexKernel.Str.SnprintfExact
import AexKernel.Fs.PathWalk
import AexKernel.Page.FindLeast
import AexKernel.Klist.Calls
import AexKernel.Klist.Klist
import AexKernel.Klist.Kslist
import AexKernel.Sync.Tqueue
import AexKernel.Tty.Roll
import AexKernel.Lib.Held
import AexKernel.Dev.Ps2
import AexKernel.Tty.Reading
import AexKernel.Str.Printk
import AexKernel.Lib.Trail
import AexKernel.Sys.Hooks
import AexKernel.Sys.IrqHandlers
import AexKernel.Sync.Spinlock
import AexKernel.Lib.RoundRobin
import AexKernel.Task.ShedWaits
import AexKernel.Dev.AhciPort
import AexKernel.Sys.PciEnum
import AexKernel.Dev.Pcuart
import AexKernel.Fs.Mounts
import AexKernel.Fs.MountInitial
import AexKernel.Dev.NameInc
import AexKernel.Sys.Acpi
import AexKernel.Fs.DevfsListing
import AexKernel.Sys.Debug
import AexKernel.Tty.Typing
