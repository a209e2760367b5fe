import Os161.Lib.Prog
import Os161.Lib.Wlp
import Os161.Lib.Run
import Os161.Lib.Bytes
import Os161.Lib.Word
import Os161.Lib.Linked
import Os161.Lib.Bitmap
import Os161.Kern.Uio
import Os161.Kern.Array
import Os161.Kern.Bitmap
import Os161.Kern.BitmapSet
import Os161.Dev.Lhd
import Os161.Sfs.Rwblock
import Os161.Thread.Synch
import Os161.Thread.Cv
import Os161.Semfs.Sem
import Os161.Syscall.File
import Os161.Syscall.Effect
import Os161.Syscall.Refcount
import Os161.Syscall.OpenLimit
import Os161.Syscall.OpenAtomic
import Os161.Proc.Proc
import Os161.Proc.Ends
import Os161.Proc.Console
import Os161.Vm.Kmalloc
import Os161.Vm.Pagerefs
import Os161.Vm.HeapInv
import Os161.Vm.SubpageKmalloc
import Os161.Vm.SubpageKfree
import Os161.Vm.HeapRun
import Os161.Vm.NoTrace
import Os161.Vm.ObjectSize
import Os161.Sfs.Bmap
import Os161.Sfs.Io
import Os161.Sfs.Fs
import Os161.Sfs.View
import Os161.Sfs.Blocks
import Os161.Sfs.OneFile
import Os161.Sfs.Vnops
import Os161.Sfs.BmapEnds
import Os161.Sfs.IoEnds
import Os161.Sfs.Progress
import Os161.Syscall.Position
import Os161.Sfs.Untouched
import Os161.Lib.Scatter
import Os161.Kern.Stream
import Os161.Kern.Copyinout
import Os161.Kern.Moves
import Os161.Lib.Commute
import Os161.Syscall.Descriptors
import Os161.Vfs.Vfslist
import Os161.Vfs.Names
import Os161.Lib.Census
import Os161.Sfs.Lifetime
import Os161.Sfs.LifetimeInv
import Os161.Thread.SemUse
import Os161.Thread.SemProgram
import Os161.Paintshop.Fill
import Os161.Paintshop.Shop
import Os161.Paintshop.Laws
import Os161.Paintshop.Orders
import Os161.Paintshop.Rounds
import Os161.Paintshop.Counts
import Os161.Thread.Switch
import Os161.Thread.Places
import Os161.Thread.States
import Os161.Thread.Threadlist
import Os161.Lib.Chain
import Os161.Thread.Hangman
import Os161.Syscall.Dispatch
import Os161.Vm.Ram
import Os161.Sfs.Mount
import Os161.Sfs.Mksfs
import Os161.Sfs.FreeSpace
import Os161.Lib.Objects
import Os161.Semfs.Objects
import Os161.Semfs.Lifetime
import Os161.Semfs.Runs
import Os161.Semfs.Memory
import Os161.Semfs.Listing
import Os161.Thread.Spl
import Os161.Thread.Migration
import Os161.Lib.Keeps
import Os161.Libc.Qsort
import Os161.Sfsck.Utils
import Os161.Sfsck.Sfs
import Os161.Sfsck.Passes
import Os161.Sfsck.Quiet
import Os161.Sfsck.Termination
import Os161.Sfsck.Dirs
import Os161.Userland.Tac
import Os161.Sfs.Offset
import Os161.Vfs.Seekable
import Os161.Vfs.RawDisk
import Os161.Syscall.Seek
import Os161.Vm.Dumbvm
import Os161.Syscall.Loadelf
import Os161.Vfs.Path
import Os161.Vfs.Getdevice
import Os161.Vfs.Bootfs
import Os161.Vfs.References
import Os161.Libc.QsortSorts
import Os161.Libc.Printf
import Os161.Libc.PrintfOutput
import Os161.Libc.PrintfField
import Os161.Libc.PrintfReadBack
import Os161.Libc.Memmove
import Os161.Libc.Malloc
import Os161.Libc.Free
import Os161.Libc.Snprintf
import Os161.Libc.Strtok
import Os161.Math.Adders
import Os161.Lib.RingQueue
import Os161.Dev.Console
