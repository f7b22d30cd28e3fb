import Julius.Lib.Program
import Julius.Libc.Types

set_option autoImplicit false

/- The kernel interface that julius/syscall.h, mem.c and mach.c reach through
`julius_syscall0..6`. A trap carries the arguments as the wrappers pass them;
what the kernel writes through a pointer argument is part of its answer. -/
namespace Julius

open Interact (Program)

/-- `mach_msg_header_t`. -/
structure MachMsgHeader where
  msghBits : BitVec 32
  msghSize : BitVec 32
  msghRemotePort : MachPort
  msghLocalPort : MachPort
  msghVoucherPort : BitVec 32
  msghId : BitVec 32
  deriving DecidableEq, Repr

inductive Trap
  /-- `TRAP_task_self_trap` -/
  | taskSelf
  /-- `TRAP_mach_vm_allocate`; `addr` is what the address variable holds before the call. -/
  | vmAllocate (task : MachPort) (addr size : Word) (flags : BitVec 32)
  /-- `SYS_write` of the bytes of `text`. -/
  | write (fd : BitVec 32) (text : String)
  /-- `TRAP_mach_msg_trap` -/
  | machMsg (msg : MachMsgHeader) (option sendSize rcvSize : BitVec 32) (rcvName : MachPort)
      (timeout : BitVec 32)
  /-- `TRAP_mach_port_allocate` -/
  | portAllocate (task : MachPort) (right : BitVec 32)
  /-- `SYS_mach_port_insert_right` -/
  | portInsertRight (task name poly : MachPort) (polyType : BitVec 32)
  /-- `TRAP_task_set_bootstrap` -/
  | taskSetBootstrapPort (task bootstrapPort : MachPort)
  deriving DecidableEq, Repr

/-- The return value of a trap, with the variable the kernel writes back. -/
def Trap.Answer : Trap → Type
  | .taskSelf => MachPort
  | .vmAllocate .. => KernReturn × Word
  | .write .. => BitVec 64
  | .machMsg .. => KernReturn × MachMsgHeader
  | .portAllocate .. => KernReturn × MachPort
  | .portInsertRight .. => KernReturn
  | .taskSetBootstrapPort .. => KernReturn

/-- The message `julius_panic` was called with. -/
structure Panic where
  message : String
  deriving DecidableEq, Repr

abbrev Libc := Program Trap Trap.Answer Panic

def juliusMachTaskSelf : Libc MachPort := Program.query Trap.taskSelf

end Julius
