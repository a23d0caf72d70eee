import NoobKernel.Lib.Rv64
import NoobKernel.Lib.Ring
import NoobKernel.Trap.Kernelvec
import NoobKernel.Hal.Virtq
import NoobKernel.Hal.VirtqInv
import NoobKernel.Hal.VirtqRun
import NoobKernel.Hal.VirtqAvail
import NoobKernel.Hal.VirtioBlk
import NoobKernel.Lib.Lts
import NoobKernel.Mm.Bcache
import NoobKernel.Mm.BcacheInv
import NoobKernel.Mm.BcacheLists
import NoobKernel.Mm.BcacheLinks
import NoobKernel.Mm.BcacheSteps
import NoobKernel.Mm.BcacheRun
import NoobKernel.Mm.BcacheLocks
import NoobKernel.Mm.BcacheErrors
import NoobKernel.Mm.BcacheLru
import NoobKernel.Lib.Radix
import NoobKernel.Mm.PageTable
import NoobKernel.Mm.PageTableMap
import NoobKernel.Mm.PageTableDestroy
import NoobKernel.Mm.PageTableErrors
import NoobKernel.Mm.PageTableUnmap
import NoobKernel.Lib.Intervals
import NoobKernel.Mm.Vma
import NoobKernel.Mm.VmaPages
import NoobKernel.Lib.Ranges
import NoobKernel.Misc.Align
import NoobKernel.Misc.Config
import NoobKernel.Mm.SlabLayout
import NoobKernel.Lib.Exec
import NoobKernel.Lib.Dyadic
import NoobKernel.Misc.Math
import NoobKernel.Misc.Bitmap
import NoobKernel.Mm.Kernel
import NoobKernel.Mm.Buddy
import NoobKernel.Mm.BuddyInv
import NoobKernel.Mm.BuddySpec
import NoobKernel.Mm.BuddyRun
import NoobKernel.Mm.BuddyChoice
import NoobKernel.Lib.BackCopy
import NoobKernel.Misc.Lz4
import NoobKernel.Misc.Lz4RoundTrip
import NoobKernel.Misc.Lz4Bounds
import NoobKernel.Misc.Lz4Capacity
import NoobKernel.Misc.RadixTree
import NoobKernel.Misc.RadixTreeMap
import NoobKernel.Lib.Links
import NoobKernel.Misc.Hashtable
import NoobKernel.Misc.HashtableLinks
import NoobKernel.Fs.Dentry
import NoobKernel.Fs.DentryCache
import NoobKernel.Fs.DentryList
import NoobKernel.Fs.DentryLru
import NoobKernel.Fs.File
import NoobKernel.Fs.FileLifetime
import NoobKernel.Fs.Namei
import NoobKernel.Lib.Tally
import NoobKernel.Fs.NameiRefs
import NoobKernel.Fs.NameiWalk
import NoobKernel.Fs.NameiParent
import NoobKernel.Fs.NameiNames
import NoobKernel.Fs.NameiDotdot
import NoobKernel.Fs.NameiRoute
import NoobKernel.Fs.NameiParentRefs
import NoobKernel.Fs.NameiBalance
import NoobKernel.Fs.Vfs
import NoobKernel.Fs.VfsCreate
import NoobKernel.Fs.VfsNewNames
import NoobKernel.Fs.VfsInv
import NoobKernel.Fs.VfsKeeps
import NoobKernel.Fs.VfsRun
import NoobKernel.Fs.OpenClose
import NoobKernel.Fs.Inode
import NoobKernel.Fs.InodeTable
import NoobKernel.Fs.InodeIdentity
import NoobKernel.Fs.InodeRace
import NoobKernel.Fs.InodeUnique
import NoobKernel.Fs.InodeLifetime
import NoobKernel.Fs.InodeWrite
import NoobKernel.Trap.Intr
import NoobKernel.Trap.IntrNesting
import NoobKernel.Task.Sched
import NoobKernel.Task.RunQueue
import NoobKernel.Task.SchedSteps
import NoobKernel.Task.SchedSafety
import NoobKernel.Task.Pid
import NoobKernel.Lib.Fips180
import NoobKernel.Misc.Sha2
import NoobKernel.Misc.Sha2Stream
import NoobKernel.Lib.BlockStream
import NoobKernel.Lib.Fips180Rounds
import NoobKernel.Lib.Fips180Wide
import NoobKernel.Misc.Sha512
import NoobKernel.Misc.Sha512Stream
import NoobKernel.Lib.Locks
import NoobKernel.Mm.Slab
import NoobKernel.Mm.Kalloc
import NoobKernel.Mm.SlabLocks
import NoobKernel.Mm.BuddyLocks
import NoobKernel.Mm.KallocLocks
import NoobKernel.Mm.Boot
import NoobKernel.Mm.SlabFree
import NoobKernel.Mm.SlabInv
import NoobKernel.Mm.HeapInv
import NoobKernel.Mm.HeapSpec
import NoobKernel.Mm.HeapChoice
import NoobKernel.Mm.HeapBoot
import NoobKernel.Mm.HeapBytes
import NoobKernel.Mm.HeapRun
import NoobKernel.Mm.Reissue
import NoobKernel.Mm.HeapReentry
import NoobKernel.Mm.MergeLoops
import NoobKernel.Mm.Krealloc
import NoobKernel.Mm.SlabCaches
import NoobKernel.Mm.SlabCachesSteps
import NoobKernel.Mm.SlabRun
import NoobKernel.Mm.SlabFlush
import NoobKernel.Fs.Locked
import NoobKernel.Fs.LockDiscipline
import NoobKernel.Fs.FileRead
import NoobKernel.Fs.Super
import NoobKernel.Fs.FdTable
import NoobKernel.Fs.FdTableRun
import NoobKernel.Misc.RadixTreeSteps
import NoobKernel.Misc.RadixTreeCanon
import NoobKernel.Misc.RadixTreeNodes
import NoobKernel.Misc.Lz4Block
import NoobKernel.Lib.WordScale
import NoobKernel.Misc.Cputime
import NoobKernel.Misc.CString
import NoobKernel.Misc.Printf
import NoobKernel.Misc.PrintfFormat
import NoobKernel.Misc.PrintfInteger
import NoobKernel.Sync.Spinlock
import NoobKernel.Sync.SpinlockInv
import NoobKernel.Sync.SpinlockOrder
import NoobKernel.Task.Kthread
import NoobKernel.Lib.Sv39
import NoobKernel.Mm.Kvm
import NoobKernel.Hal.Blk
import NoobKernel.Hal.VirtioBlkInit
import NoobKernel.Lib.Rv64Spaces
import NoobKernel.Trap.Trampoline
import NoobKernel.Fs.Filesystems
import NoobKernel.Fs.Mounts
import NoobKernel.Hal.Timer
import NoobKernel.Task.RoundRobin
import NoobKernel.Hal.VirtioBlkRun
import NoobKernel.Misc.Lz4Format
