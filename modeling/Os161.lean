import Os161.Lib.Links
import Os161.Lib.Outcome
import Os161.Machine
import Os161.Tlb
import Os161.TlbSound
import Os161.Swapfile
import Os161.Vmstate
import Os161.Coremap
import Os161.CoremapSound
import Os161.EvictSound
import Os161.ClockSound
import Os161.ChanceSound
import Os161.KernelSound
import Os161.Uio
import Os161.Addrspace
import Os161.Loadelf
import Os161.Pt
import Os161.PageInSound
import Os161.AddrspaceSound
import Os161.Spl
import Os161.SplSound
import Os161.LoadelfSound
import Os161.Elf
import Os161.ElfSound
import Os161.ReadFault
import Os161.ReadFaultSound
import Os161.Vmsys
import Os161.DestroySound
import Os161.TeardownSound
import Os161.VmsysSound
import Os161.Kframes
import Os161.KframesSound
import Os161.Kheap
import Os161.KheapSound
import Os161.KmallocSound
import Os161.ExecSound
import Os161.CopyinSound
import Os161.RoundSound
import Os161.ForkSound
import Os161.RunSound
import Os161.OwnershipSound
import Os161.CoherenceSound
import Os161.WriteSound
import Os161.FlatSound
import Os161.Vnode
import Os161.Vfslist
import Os161.VfslistSound
import Os161.Reclaim
import Os161.ReclaimSound
import Os161.Lifetime
import Os161.LifetimeSound
import Os161.Lib.Bytes
import Os161.Runprogram
import Os161.RunprogramSound
import Os161.Usercopy
import Os161.UsercopySound
import Os161.Execv
import Os161.ExecvSound
import Os161.Lib.Proc
import Os161.Lib.Table
import Os161.Sfs
import Os161.Lib.Bits
import Os161.Bitmap
import Os161.BitmapSound
import Os161.SfsVnode
import Os161.SfsFs
import Os161.Volume
import Os161.SfsSound
import Os161.BmapSound
import Os161.TruncSound
import Os161.UioSound
import Os161.IoSound
import Os161.StoreSound
import Os161.DirSound
import Os161.CutSound
import Os161.LoadSound
import Os161.NameSound
import Os161.LinkSound
import Os161.MountSound
import Os161.MksfsSound
import Os161.IntegritySound
import Os161.Vfspath
import Os161.VfspathSound
import Os161.GetdeviceSound
import Os161.Lhd
import Os161.LhdSound
import Os161.Printf
import Os161.PrintfSound
import Os161.NumberSound
import Os161.Menu
import Os161.MenuSound
import Os161.Pid
import Os161.PidSound
import Os161.Filetable
import Os161.FiletableSound
import Os161.SysWrite
import Os161.SysWriteSound
import Os161.Lookup
import Os161.LookupSound
import Os161.Ftdestroy
import Os161.FtdestroySound
import Os161.Lib.Tally
import Os161.Stoplight
import Os161.StoplightSound
import Os161.Catmouse
import Os161.CatmouseSound
import Os161.SoloSound
import Os161.TogetherSound
import Os161.StuckSound
import Os161.StartupSound
import Os161.Lib.Ring
import Os161.Queue
import Os161.QueueSound
import Os161.Queue32
import Os161.Queue32Sound
import Os161.Semaphore
import Os161.SemaphoreSound
import Os161.Thread
import Os161.ThreadSound
import Os161.PreallocSound
import Os161.Threadfork
import Os161.ThreadforkSound
import Os161.Memmove
import Os161.MemmoveSound
