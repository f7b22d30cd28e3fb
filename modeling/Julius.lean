import Julius.Lib.Program
import Julius.Lib.System
import Julius.Lib.Pool
import Julius.Lib.CheckAct
import Julius.Lib.Lowering
import Julius.Lib.Arena
import Julius.Lib.LastWrite
import Julius.Lib.Loop
import Julius.Lib.Numeral
import Julius.Lib.LittleEndian
import Julius.Lib.Sections
import Julius.Lib.Regex
import Julius.Lib.Listing
import Julius.Libc.Types
import Julius.Libc.Syscall
import Julius.Libc.Io
import Julius.Libc.Mach
import Julius.Libc.Mem
import Julius.Libc.MemLoops
import Julius.Libc.Strings
import Julius.Libc.Copies
import Julius.Libc.HeapArena
import Julius.Libc.HeapGeometry
import Julius.Libc.HeapStore
import Julius.Libc.HeapSizes
import Julius.Libc.HeapCalloc
import Julius.Libc.HeapWaste
import Julius.Libc.Digits
import Julius.Libc.Delivery
import Julius.Libc.Trailer
import Julius.Libc.Abi
import Julius.Init.Main
import Julius.Init.ServiceLoop
import Julius.Init.Replies
import Julius.Init.Net
import Julius.Init.NetReplies
import Julius.Init.NetBlocking
import Julius.Init.Rights
import Julius.Init.Boot
import Julius.Init.Unheard
import Julius.Init.Console
import Julius.Init.Texts
import Julius.Init.Instruction
import Julius.Kext.Serial
import Julius.Kext.Lifecycle
import Julius.Kext.Pl011
import Julius.Kext.Callers
import Julius.Kext.Receiving
import Julius.Kext.Stream
import Julius.Kext.Sending
import Julius.Kext.Configure
import Julius.Kext.Registers
import Julius.Kext.Service
import Julius.Tools.PanicParse
import Julius.Tools.PanicFrames
import Julius.Tools.PanicText
import Julius.Tools.PanicRegex
import Julius.Tools.PanicReport
import Julius.Tools.PanicReadback
import Julius.Tools.PanicConsole
import Julius.Tools.BootLog
import Julius.Tools.SerialLog
