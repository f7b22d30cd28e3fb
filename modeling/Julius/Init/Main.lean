import Julius.Lib.System
import Julius.Libc.Mach
import Julius.Libc.Mem

set_option autoImplicit false

/- init/src/main.c: julius-init, the first user process. -/
namespace Julius

open Interact

def banner : String :=
  "\r\n" ++
  "  ██╗██╗   ██╗██╗     ██╗██╗   ██╗███████╗     ██████╗ ███████╗\r\n" ++
  "  ██║██║   ██║██║     ██║██║   ██║██╔════╝    ██╔═══██╗██╔════╝\r\n" ++
  "  ██║██║   ██║██║     ██║██║   ██║███████╗    ██║   ██║███████╗\r\n" ++
  "  ██║██║   ██║██║     ██║██║   ██║╚════██║    ██║   ██║╚════██║\r\n" ++
  "  ██║╚██████╔╝███████╗██║╚██████╔╝███████║    ╚██████╔╝███████║\r\n" ++
  "  ╚═╝ ╚═════╝ ╚══════╝╚═╝ ╚═════╝ ╚══════╝     ╚═════╝ ╚══════╝\r\n" ++
  "\r\n" ++
  "  JULIUS OS — Custom XNU-based Operating System\r\n" ++
  "  Built from scratch. No Apple user-space.\r\n" ++
  "\r\n"

/-- `JULIUS_MSG_PING`: 'JL' + 1 -/
def juliusMsgPing : BitVec 32 := 0x4A4C0001

/-- What a pass does with a message it has received: every id but the PING is
ignored, and a PING is answered only if it names a reply port. -/
def dispatch (header : MachMsgHeader) : Libc Unit :=
  if header.msghId = juliusMsgPing then do
    let _ ← juliusPuts "init: PING received, sending PONG\r\n"
    if header.msghRemotePort ≠ machPortNull then
      let _ ← juliusSendSimple header.msghRemotePort (juliusMsgPing + 0x8000)
      return
  else do
    let _ ← juliusPuts "init: unknown message, ignoring\r\n"
    return

/-- The body of the loop in `service_loop`, from the return of the receive on. -/
def received (kr : KernReturn) (msg : JuliusSimpleMsg) : Libc (Flow JuliusSimpleMsg) := do
  if kr ≠ kernSuccess then
    let _ ← juliusPuts "init: mach_msg recv error, kr="
    juliusPutHex (kr.setWidth 64)
    let _ ← juliusPuts "\r\n"
    return .again msg
  let _ ← juliusPuts "init: received msg id="
  juliusPutHex (msg.header.msghId.setWidth 64)
  let _ ← juliusPuts " from port="
  juliusPutHex (msg.header.msghRemotePort.setWidth 64)
  let _ ← juliusPuts "\r\n"
  dispatch msg.header
  return .again msg

/-- The body of the loop. The buffer `msg` is shared by all passes, and a receive
that fails may leave anything in it. -/
def servicePass (gBootstrapPort : MachPort) (msg : JuliusSimpleMsg) :
    Libc (Flow JuliusSimpleMsg) := do
  let (kr, msg) ← juliusRecvSimple gBootstrapPort msg
  received kr msg

theorem servicePass_eq (gBootstrapPort : MachPort) (msg : JuliusSimpleMsg) :
    servicePass gBootstrapPort msg = .ask (recvTrap gBootstrapPort msg)
      (fun answer => received (Prod.fst answer) ⟨Prod.snd answer⟩) := rfl

/-- `stack` is what the uninitialised buffer holds. -/
def serviceLoop (gBootstrapPort : MachPort) (stack : JuliusSimpleMsg) :
    Server Trap Trap.Answer Panic JuliusSimpleMsg where
  start := do
    let _ ← juliusPuts "init: entering service loop (waiting for Mach messages)\r\n"
    return stack
  body := servicePass gBootstrapPort

/-- Returns the value it stores in `g_bootstrap_port`. -/
def setupBootstrapPort : Libc MachPort := do
  let self ← juliusMachTaskSelf
  let _ ← juliusPuts "init: allocating bootstrap receive port...\r\n"
  let (kr, portName) ← juliusPortAllocate self machPortRightReceive
  if kr ≠ kernSuccess then
    let _ ← juliusPuts "init: FATAL: port_allocate failed, kr="
    juliusPutHex (kr.setWidth 64)
    let _ ← juliusPuts "\r\n"
    juliusPanic "cannot allocate bootstrap port"
  let _ ← juliusPuts "init: bootstrap receive port = "
  juliusPutHex (portName.setWidth 64)
  let _ ← juliusPuts "\r\n"
  let kr ← juliusPortInsertRight self portName portName machMsgTypeMakeSend
  if kr ≠ kernSuccess then
    let _ ← juliusPuts "init: FATAL: port_insert_right failed, kr="
    juliusPutHex (kr.setWidth 64)
    let _ ← juliusPuts "\r\n"
    juliusPanic "cannot insert send right"
  let kr ← juliusTaskSetBootstrapPort self portName
  if kr ≠ kernSuccess then
    let _ ← juliusPuts "init: WARNING: task_set_bootstrap_port failed, kr="
    juliusPutHex (kr.setWidth 64)
    let _ ← juliusPuts "\r\n"
  let _ ← juliusPuts "init: bootstrap port established\r\n"
  return portName

/-- The globals and the memory of julius-init once it is up. -/
structure InitState where
  heap : Heap
  memory : Memory
  gBootstrapPort : MachPort

/-- The block of `julius_start` that tries out the heap. -/
def mallocSelfTest (heap : Heap) (memory : Memory) : Libc (Heap × Memory) := do
  let (buf, heap) ← juliusMalloc heap 64
  if buf = null then
    juliusPanic "self-test: malloc returned NULL"
  let memory := juliusMemset memory buf (BitVec.ofNat 32 'J'.toNat) 63
  let memory := Function.update memory (buf + 63) 0
  let _ ← juliusPuts "init: malloc self-test OK (64 bytes at "
  juliusPutHex buf
  let _ ← juliusPuts ")\r\n"
  return (heap, memory)

/-- `julius_start` up to the call of `service_loop`. -/
def bootInit (memory : Memory) : Libc InitState := do
  let _ ← juliusPuts banner
  let _ ← juliusPuts "init: PID 1 starting\r\n"
  let heap ← juliusMemInit
  let self ← juliusMachTaskSelf
  let _ ← juliusPuts "init: mach_task_self() = "
  juliusPutHex (self.setWidth 64)
  let _ ← juliusPuts "\r\n"
  let gBootstrapPort ← setupBootstrapPort
  let (heap, memory) ← mallocSelfTest heap memory
  let _ ← juliusPuts "\r\ninit: all systems nominal. JULIUS OS is alive.\r\n\r\n"
  return { heap, memory, gBootstrapPort }

/-- The whole of PID 1. Its loop state carries the globals, which no pass changes. -/
def juliusStart (memory : Memory) (stack : JuliusSimpleMsg) :
    Server Trap Trap.Answer Panic (InitState × JuliusSimpleMsg) where
  start := do
    let init ← bootInit memory
    let msg ← (serviceLoop init.gBootstrapPort stack).start
    return (init, msg)
  body := fun (init, msg) => do
    let flow ← (serviceLoop init.gBootstrapPort stack).body msg
    return flow.map (init, ·)

end Julius
