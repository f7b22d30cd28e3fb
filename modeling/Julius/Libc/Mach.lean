import Julius.Libc.Syscall

set_option autoImplicit false

/- libc/src/mach.c: the Mach message and port primitives. -/
namespace Julius

open Interact (Program)

/-- `MACH_MSGH_BITS(remote, local)` -/
def machMsghBits (remote loc : BitVec 32) : BitVec 32 := remote ||| (loc <<< 8)

/-- `MACH_MSGH_BITS_REMOTE(bits)` -/
def machMsghBitsRemote (bits : BitVec 32) : BitVec 32 := bits &&& 0xff

def machSendMsg : BitVec 32 := 0x00000001

def machRcvMsg : BitVec 32 := 0x00000002

def machRcvLarge : BitVec 32 := 0x00000004

def machSendTimeout : BitVec 32 := 0x00000010

def machMsgTimeoutNone : BitVec 32 := 0

/-- `sizeof(mach_msg_header_t)`: six fields of four bytes. -/
def sizeofMachMsgHeader : BitVec 32 := 24

/-- `julius_simple_msg_t`: a header with no body. -/
structure JuliusSimpleMsg where
  header : MachMsgHeader
  deriving DecidableEq, Repr

/-- `sizeof(julius_simple_msg_t)`; the structure has room for a header only. -/
def sizeofJuliusSimpleMsg : BitVec 32 := sizeofMachMsgHeader

def juliusMachMsg (msg : MachMsgHeader) (option sendSize rcvSize : BitVec 32) (rcvName : MachPort)
    (timeout : BitVec 32) : Libc (KernReturn × MachMsgHeader) :=
  Program.query (Trap.machMsg msg option sendSize rcvSize rcvName timeout)

def juliusPortAllocate (task : MachPort) (right : BitVec 32) : Libc (KernReturn × MachPort) :=
  Program.query (Trap.portAllocate task right)

def juliusPortInsertRight (task name poly : MachPort) (polyType : BitVec 32) : Libc KernReturn :=
  Program.query (Trap.portInsertRight task name poly polyType)

def juliusTaskSetBootstrapPort (task bootstrapPort : MachPort) : Libc KernReturn :=
  Program.query (Trap.taskSetBootstrapPort task bootstrapPort)

/-- The header `julius_send_simple` fills in. -/
def simpleHeader (remote : MachPort) (msgId : BitVec 32) : MachMsgHeader where
  msghBits := machMsghBits machMsgTypeCopySend 0
  msghSize := sizeofMachMsgHeader
  msghRemotePort := remote
  msghLocalPort := machPortNull
  msghVoucherPort := 0
  msghId := msgId

/-- The trap behind `julius_send_simple`. -/
def sendTrap (remote : MachPort) (msgId : BitVec 32) : Trap :=
  .machMsg (simpleHeader remote msgId) machSendMsg sizeofMachMsgHeader 0 machPortNull
    machMsgTimeoutNone

/-- The trap behind `julius_recv_simple`; the kernel overwrites `out`. -/
def recvTrap (port : MachPort) (out : JuliusSimpleMsg) : Trap :=
  .machMsg out.header machRcvMsg 0 sizeofJuliusSimpleMsg port machMsgTimeoutNone

def juliusSendSimple (remote : MachPort) (msgId : BitVec 32) : Libc KernReturn := do
  let (kr, _) ← juliusMachMsg (simpleHeader remote msgId) machSendMsg sizeofMachMsgHeader 0
    machPortNull machMsgTimeoutNone
  return kr

def juliusRecvSimple (port : MachPort) (out : JuliusSimpleMsg) :
    Libc (KernReturn × JuliusSimpleMsg) := do
  let (kr, header) ← juliusMachMsg out.header machRcvMsg 0 sizeofJuliusSimpleMsg port
    machMsgTimeoutNone
  return (kr, ⟨header⟩)

/-- A send is one trap, whose outcome is all the caller sees. -/
theorem juliusSendSimple_eq (remote : MachPort) (msgId : BitVec 32) :
    juliusSendSimple remote msgId =
      .ask (sendTrap remote msgId) (fun answer => .ret (Prod.fst answer)) := rfl

/-- A receive is one trap, and the buffer is what the kernel left in it. -/
theorem juliusRecvSimple_eq (port : MachPort) (out : JuliusSimpleMsg) :
    juliusRecvSimple port out =
      .ask (recvTrap port out) (fun answer => .ret (Prod.fst answer, ⟨Prod.snd answer⟩)) := rfl

end Julius
