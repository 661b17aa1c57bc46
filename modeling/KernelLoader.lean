import KernelLoader.Lib.Reach
import KernelLoader.Lib.Ring
import KernelLoader.Lib.Word
import KernelLoader.Lib.Custody
import KernelLoader.Lib.Memory
import KernelLoader.Lib.Loop
import KernelLoader.Lib.Ledger
import KernelLoader.Lib.Mips
import KernelLoader.Lib.Async
import KernelLoader.Lib.Owned
import KernelLoader.Lib.Locks
import KernelLoader.Lib.Exclusive
import KernelLoader.Lib.Duty
import KernelLoader.Lib.Solo
import KernelLoader.Lib.Text
import KernelLoader.Lib.Logged
import KernelLoader.Lib.Buffer
import KernelLoader.Lib.Replace
import KernelLoader.Lib.ShiftRegister
import KernelLoader.Lib.Stream
import KernelLoader.Lib.CString
import KernelLoader.Lib.Atomic
import KernelLoader.Lib.Cpu
import KernelLoader.Lib.Mask
import KernelLoader.Lib.Tlb
import KernelLoader.Lib.Linked
import KernelLoader.Lib.R5900
import KernelLoader.Lib.Flow
import KernelLoader.Lib.Copy
import KernelLoader.Lib.Mmi
import KernelLoader.Lib.ZeroByte
import KernelLoader.Lib.Cache
import KernelLoader.Lib.Bitmap
import KernelLoader.Lib.Alloc
import KernelLoader.Lib.Trap
import KernelLoader.Sif.Dma
import KernelLoader.Sif.DmaRing
import KernelLoader.Sif.DmaPayload
import KernelLoader.Sif.DmaStat
import KernelLoader.Sif.Command
import KernelLoader.Sif.CommandInterrupt
import KernelLoader.Sif.Rpc
import KernelLoader.Sif.RpcOwnership
import KernelLoader.Sif.RpcIds
import KernelLoader.Sif.RpcServer
import KernelLoader.Sif.RpcReply
import KernelLoader.Elf.Format
import KernelLoader.Elf.Sections
import KernelLoader.Elf.Walks
import KernelLoader.Elf.Containment
import KernelLoader.Elf.Reads
import KernelLoader.Elf.Install
import KernelLoader.Elf.Verify
import KernelLoader.Elf.Entry
import KernelLoader.Elf.Acceptance
import KernelLoader.Elf.Agreement
import KernelLoader.Boot.Files
import KernelLoader.Boot.Loading
import KernelLoader.Boot.Sbios
import KernelLoader.Boot.RealLoader
import KernelLoader.Boot.Initrd
import KernelLoader.Boot.Resources
import KernelLoader.Boot.Delivery
import KernelLoader.Boot.Libsd
import KernelLoader.Boot.Extract
import KernelLoader.Boot.CallTable
import KernelLoader.Boot.SbiosBounds
import KernelLoader.Boot.RomStream
import KernelLoader.Boot.RteModules
import KernelLoader.Boot.SbiosImage
import KernelLoader.Tge.Commands
import KernelLoader.Tge.Locks
import KernelLoader.Tge.Stages
import KernelLoader.Tge.MemoryCard
import KernelLoader.Tge.Transactions
import KernelLoader.Tge.Pad
import KernelLoader.Tge.Sound
import KernelLoader.Tge.Refused
import KernelLoader.Tge.Contract
import KernelLoader.Tge.RomDir
import KernelLoader.Tge.Smod
import KernelLoader.Tge.McWrite
import KernelLoader.Tge.PadQueries
import KernelLoader.Tge.SoundLife
import KernelLoader.Tge.Mailbox
import KernelLoader.Tge.Format
import KernelLoader.Tge.Snprintf
import KernelLoader.Config.Items
import KernelLoader.Config.Parsing
import KernelLoader.Config.RoundTrip
import KernelLoader.Config.VideoMode
import KernelLoader.Screen.InfoBuffer
import KernelLoader.Screen.Editor
import KernelLoader.Screen.ErrorQueue
import KernelLoader.Screen.TextBlock
import KernelLoader.Screen.TextCursor
import KernelLoader.Screen.FileBrowser
import KernelLoader.Crc.Checksum
import KernelLoader.Crc.Segments
import KernelLoader.Kernel.Intc
import KernelLoader.Kernel.Dmac
import KernelLoader.Kernel.Mmu
import KernelLoader.Kernel.Semaphore
import KernelLoader.Kernel.SemaCount
import KernelLoader.Kernel.Timer
import KernelLoader.Kernel.Interrupt
import KernelLoader.Kernel.Exceptions
import KernelLoader.Kernel.Syscall
import KernelLoader.Asm.Memory
import KernelLoader.Asm.Strings
import KernelLoader.Asm.Cache
import KernelLoader.Ps2fs.Bitmap
import KernelLoader.Ps2fs.Inode
import KernelLoader.Ps2fs.Files
import KernelLoader.Ps2fs.Time
import KernelLoader.Ps2fs.Unicode
