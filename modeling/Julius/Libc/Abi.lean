import Julius.Lib.LittleEndian
import Julius.Lib.Lowering
import Julius.Libc.Strings
import Julius.Libc.Mach

set_option autoImplicit false

/- julius/syscall.h, and the functions of io.c, mem.c and mach.c that end in the
`syscall` instruction, down to registers and memory. -/
namespace Julius

open Interact

/-- The registers of the calling convention; `rcx` and `r11`, which the instruction
clobbers, carry nothing. -/
structure Registers where
  rax : Word
  rdi : Word
  rsi : Word
  rdx : Word
  r10 : Word
  r8 : Word
  r9 : Word
  deriving DecidableEq, Repr

structure Machine where
  registers : Registers
  memory : Memory

/-- Programs whose only query is the `syscall` instruction. The kernel sees registers and
memory, and leaves a value in `rax` and a memory behind. -/
abbrev Asm := StateT Machine (Program Machine (fun _ => Word × Memory) Panic)

/-- `BSD_SYSCALL(n)` -/
def bsdSyscall (n : Word) : Word := 0x2000000 ||| n

/-- `MACH_TRAP(n)` -/
def machTrap (n : Word) : Word := -n

def sysWrite : Word := bsdSyscall 4

def trapTaskSelfTrap : Word := machTrap 28

def trapMachMsgTrap : Word := machTrap 31

def trapMachPortAllocate : Word := machTrap 16

def trapMachVmAllocate : Word := machTrap 10

def sysMachPortInsertRight : Word := bsdSyscall 0x218

def trapTaskSetBootstrap : Word := machTrap 88

namespace Asm

/-- Loads the operands of the instruction. -/
def load (operands : Registers → Registers) : Asm Unit :=
  modify (fun s => { s with registers := operands s.registers })

def syscall : Asm Word := fun s =>
  .ask s (fun (rax, memory) => .ret (rax, ⟨{ s.registers with rax }, memory⟩))

def juliusSyscall0 (nr : Word) : Asm Word := do
  load (fun r => { r with rax := nr })
  syscall

def juliusSyscall2 (nr a1 a2 : Word) : Asm Word := do
  load (fun r => { r with rax := nr, rdi := a1, rsi := a2 })
  syscall

def juliusSyscall3 (nr a1 a2 a3 : Word) : Asm Word := do
  load (fun r => { r with rax := nr, rdi := a1, rsi := a2, rdx := a3 })
  syscall

def juliusSyscall4 (nr a1 a2 a3 a4 : Word) : Asm Word := do
  load (fun r => { r with rax := nr, rdi := a1, rsi := a2, rdx := a3, r10 := a4 })
  syscall

def juliusSyscall6 (nr a1 a2 a3 a4 a5 a6 : Word) : Asm Word := do
  load (fun r => { r with rax := nr, rdi := a1, rsi := a2, rdx := a3, r10 := a4, r8 := a5, r9 := a6 })
  syscall

def juliusMachTaskSelf : Asm MachPort := do
  let ret ← juliusSyscall0 trapTaskSelfTrap
  return ret.setWidth 32

def juliusWrite (fd : BitVec 32) (buf count : Word) : Asm Word :=
  juliusSyscall3 sysWrite (fd.signExtend 64) buf count

/-- `while (s[n]) n++;` -/
def strLenTurn (m : Memory) (s n : Word) : Loop.Turn Word Word :=
  if m (s + n) ≠ 0 then .again (n + 1) else .done n

def strLen (m : Memory) (s : Word) (turns : Nat) : Option Word :=
  Loop.run (strLenTurn m s) turns 0

/-- There is no result when the string is not over after so many turns. -/
def juliusPutsFd (turns : Nat) (fd : BitVec 32) (s : Word) : Asm (Option Word) := do
  if s = null then
    return some 0
  match strLen (← get).memory s turns with
  | none => return none
  | some len => return some (← juliusWrite fd s len)

def juliusVmAllocate (task : MachPort) (addr size : Word) (flags : BitVec 32) : Asm KernReturn := do
  let ret ← juliusSyscall4 trapMachVmAllocate (task.setWidth 64) addr size (flags.signExtend 64)
  return ret.setWidth 32

def juliusMachMsg (msg : Word) (option sendSize rcvSize : BitVec 32) (rcvName : MachPort)
    (timeout : BitVec 32) : Asm KernReturn := do
  let ret ← juliusSyscall6 trapMachMsgTrap msg (option.setWidth 64) (sendSize.setWidth 64)
    (rcvSize.setWidth 64) (rcvName.setWidth 64) (timeout.setWidth 64)
  return ret.setWidth 32

def juliusPortAllocate (task : MachPort) (right : BitVec 32) (name : Word) : Asm KernReturn := do
  let ret ← juliusSyscall3 trapMachPortAllocate (task.setWidth 64) (right.setWidth 64) name
  return ret.setWidth 32

def juliusPortInsertRight (task name poly : MachPort) (polyType : BitVec 32) : Asm KernReturn := do
  let ret ← juliusSyscall4 sysMachPortInsertRight (task.setWidth 64) (name.setWidth 64)
    (poly.setWidth 64) (polyType.setWidth 64)
  return ret.setWidth 32

def juliusTaskSetBootstrapPort (task bootstrapPort : MachPort) : Asm KernReturn := do
  let ret ← juliusSyscall2 trapTaskSetBootstrap (task.setWidth 64) (bootstrapPort.setWidth 64)
  return ret.setWidth 32

end Asm

/-- The bytes stored from `address` on. -/
def Memory.store (m : Memory) (address : Word) (bytes : List Byte) : Memory := fun a =>
  bytes.getD (a - address).toNat (m a)

def Memory.load (m : Memory) (address : Word) (n : Nat) : List Byte :=
  m.contents ⟨address.toNat, n⟩

theorem Memory.load_store (m : Memory) (address : Word) (bytes : List Byte)
    (fits : bytes.length ≤ 2 ^ 64) : (m.store address bytes).load address bytes.length = bytes := by
  apply List.ext_getElem?
  intro i
  rw [load, contents_getElem?]
  by_cases inside : i < bytes.length
  · have offset : (address + BitVec.ofNat 64 i - address).toNat = i := by
      rw [BitVec.add_comm, BitVec.add_sub_cancel, BitVec.toNat_ofNat,
        Nat.mod_eq_of_lt (Nat.lt_of_lt_of_le inside fits)]
    rw [if_pos inside, peek_add, store, offset, List.getD_eq_getElem?_getD,
      List.getElem?_eq_getElem inside, Option.getD_some]
  · rw [if_neg inside, List.getElem?_eq_none (Nat.le_of_not_lt inside)]

/-- The fields of `mach_msg_header_t`, as they follow one another in memory. -/
def MachMsgHeader.fields (header : MachMsgHeader) : List (BitVec 32) :=
  [header.msghBits, header.msghSize, header.msghRemotePort, header.msghLocalPort,
    header.msghVoucherPort, header.msghId]

def MachMsgHeader.bytes (header : MachMsgHeader) : List Byte := LittleEndian.pack 4 header.fields

def MachMsgHeader.ofBytes (bytes : List Byte) : MachMsgHeader where
  msghBits := LittleEndian.field 32 4 bytes 0
  msghSize := LittleEndian.field 32 4 bytes 1
  msghRemotePort := LittleEndian.field 32 4 bytes 2
  msghLocalPort := LittleEndian.field 32 4 bytes 3
  msghVoucherPort := LittleEndian.field 32 4 bytes 4
  msghId := LittleEndian.field 32 4 bytes 5

@[simp] theorem MachMsgHeader.length_bytes (header : MachMsgHeader) :
    header.bytes.length = sizeofMachMsgHeader.toNat := LittleEndian.length_pack 4 header.fields

theorem MachMsgHeader.ofBytes_bytes (header : MachMsgHeader) : ofBytes header.bytes = header := by
  unfold ofBytes bytes
  have six : header.fields.length = 6 := rfl
  have back := LittleEndian.field_pack (w := 32) (n := 4) rfl header.fields
  rw [back 0 (by omega), back 1 (by omega), back 2 (by omega), back 3 (by omega),
    back 4 (by omega), back 5 (by omega)]
  rfl

/-- The bytes of a text, without a NUL behind them. -/
def textBytes (text : String) : List Byte := text.toByteArray.data.toList.map UInt8.toBitVec

def textOf (bytes : List Byte) : Option String :=
  let array := ByteArray.mk (bytes.map UInt8.ofBitVec).toArray
  if valid : array.IsValidUTF8 then some (String.ofByteArray array valid) else none

theorem textOf_textBytes (text : String) : textOf (textBytes text) = some text := by
  have array : ByteArray.mk ((textBytes text).map UInt8.ofBitVec).toArray = text.toByteArray := by
    rw [textBytes, List.map_map]
    have same : UInt8.ofBitVec ∘ UInt8.toBitVec = id := rfl
    rw [same, List.map_id]
  unfold textOf
  simp only [array]
  rw [dif_pos text.isValidUTF8]

theorem length_textBytes (text : String) : (textBytes text).length = text.utf8ByteSize := by
  rw [textBytes, List.length_map, Array.length_toList]
  rfl

/-- UTF-8 has an ASCII code among its bytes for the character of that code only. -/
theorem utf8EncodeChar_ascii {code : Nat} (ascii : code < 128) {c : Char} (other : c.toNat ≠ code) :
    ∀ byte ∈ String.utf8EncodeChar c, byte.toNat ≠ code := by
  have value : c.val.toNat ≠ code := other
  unfold String.utf8EncodeChar
  dsimp only
  split_ifs <;>
    · simp only [List.forall_mem_cons, List.not_mem_nil, false_implies, implies_true, and_true,
        UInt8.toNat_ofNat']
      omega

theorem textBytes_flatMap (text : String) : textBytes text =
    text.toList.flatMap (fun c => (String.utf8EncodeChar c).map UInt8.toBitVec) := by
  have encoded : text.toByteArray.data.toList = text.toList.flatMap String.utf8EncodeChar := by
    rw [← String.utf8Encode_toList, List.utf8Encode, List.toList_data_toByteArray]
  rw [textBytes, encoded, List.map_flatMap]

theorem textBytes_nonzero {text : String} (nonzero : '\x00' ∉ text.toList) :
    ∀ byte ∈ textBytes text, byte ≠ 0 := by
  intro byte member zero
  rw [textBytes_flatMap] at member
  obtain ⟨c, spelled, part⟩ := List.mem_flatMap.mp member
  obtain ⟨unit, inside, rfl⟩ := List.mem_map.mp part
  have other : c.toNat ≠ 0 := by
    intro same
    have nul : c = '\x00' := Char.toNat_inj.mp same
    exact nonzero (nul ▸ spelled)
  exact utf8EncodeChar_ascii (by decide) other unit inside (congrArg BitVec.toNat zero)

theorem Memory.bits_store {w : Nat} (n : Nat) (m : Memory) (address : Word) (width : w = 8 * n)
    (small : n ≤ 2 ^ 64) (v : BitVec w) :
    LittleEndian.toBits w ((m.store address (LittleEndian.ofBits n v)).load address n) = v := by
  have back := m.load_store address (LittleEndian.ofBits n v)
    (by rw [LittleEndian.length_ofBits]; exact small)
  rw [LittleEndian.length_ofBits] at back
  rw [back, LittleEndian.toBits_ofBits width]

theorem Memory.header_store (m : Memory) (address : Word) (header : MachMsgHeader) :
    .ofBytes ((m.store address header.bytes).load address sizeofMachMsgHeader.toNat) = header := by
  rw [← header.length_bytes, m.load_store address _ (by rw [header.length_bytes]; decide),
    header.ofBytes_bytes]

/-- A text stored with its NUL is there without it too. -/
theorem Memory.text_store (m : Memory) (address : Word) (bytes : List Byte)
    (fits : bytes.length < 2 ^ 64) :
    (m.store address (bytes ++ [0])).load address bytes.length = bytes := by
  have back := m.load_store address (bytes ++ [0]) (by rw [List.length_append]; exact fits)
  have slice := Memory.contents_slice (m.store address (bytes ++ [0]))
    ⟨address.toNat, (bytes ++ [0]).length⟩ 0 bytes.length (by simp)
  have front : (m.store address (bytes ++ [0])).contents ⟨address.toNat, (bytes ++ [0]).length⟩ =
      bytes ++ [0] := back
  rw [front, List.drop_zero, List.take_left] at slice
  exact slice.symm

namespace Asm

variable {m : Memory} {s : Word} {bytes : List Byte}

/-- The count of the bytes before the NUL, one turn a byte. -/
theorem strLen_spelled (nonzero : ∀ byte ∈ bytes, byte ≠ 0)
    (spelled : m.load s (bytes.length + 1) = bytes ++ [0]) :
    strLen m s (bytes.length + 1) = some (BitVec.ofNat 64 bytes.length) := by
  have holds : ∀ j ≤ bytes.length, (bytes ++ [0])[j]? = some (m (s + BitVec.ofNat 64 j)) := by
    intro j inside
    rw [← spelled, Memory.load, Memory.contents_getElem?, if_pos (Nat.lt_succ_of_le inside),
      Memory.peek_add]
  have along : ∀ j < bytes.length,
      strLenTurn m s (BitVec.ofNat 64 j) = .again (BitVec.ofNat 64 (j + 1)) := by
    intro j inside
    have byte := holds j (Nat.le_of_lt inside)
    rw [List.getElem?_append_left inside] at byte
    unfold strLenTurn
    rw [if_pos (nonzero _ (List.mem_of_getElem? byte)), BitVec.ofNat_add]
    rfl
  have last : strLenTurn m s (BitVec.ofNat 64 bytes.length) =
      .done (BitVec.ofNat 64 bytes.length) := by
    have nul := holds _ (Nat.le_refl _)
    rw [List.getElem?_append_right (Nat.le_refl _), Nat.sub_self] at nul
    unfold strLenTurn
    exact if_neg (fun more => more (Option.some.inj nul).symm)
  exact (Loop.run_along along 1).trans (Loop.run_done last 0)

def poke (address : Word) (bytes : List Byte) : Asm Unit :=
  modify (fun s => { s with memory := s.memory.store address bytes })

def peek (address : Word) (n : Nat) : Asm (List Byte) :=
  return (← get).memory.load address n

/-- A trap as its caller makes it. What the call is given a pointer to lies at `slot`: a
local variable with what it holds before the call, a message, or a text with its NUL. -/
def call (slot : Trap → Word) (trap : Trap) : Asm trap.Answer :=
  match trap with
  | .taskSelf => juliusMachTaskSelf
  | .vmAllocate task addr size flags => do
      let address := slot (.vmAllocate task addr size flags)
      poke address (LittleEndian.ofBits 8 addr)
      let kr ← juliusVmAllocate task address size flags
      return (kr, LittleEndian.toBits 64 (← peek address 8))
  | .write fd text => do
      let s := slot (.write fd text)
      poke s (textBytes text ++ [0])
      let written ← juliusPutsFd (text.utf8ByteSize + 1) fd s
      return written.getD 0
  | .machMsg msg option sendSize rcvSize rcvName timeout => do
      let address := slot (.machMsg msg option sendSize rcvSize rcvName timeout)
      poke address msg.bytes
      let kr ← juliusMachMsg address option sendSize rcvSize rcvName timeout
      return (kr, .ofBytes (← peek address sizeofMachMsgHeader.toNat))
  | .portAllocate task right => do
      let address := slot (.portAllocate task right)
      let kr ← juliusPortAllocate task right address
      return (kr, LittleEndian.toBits 32 (← peek address 4))
  | .portInsertRight task name poly polyType => juliusPortInsertRight task name poly polyType
  | .taskSetBootstrapPort task bootstrapPort => juliusTaskSetBootstrapPort task bootstrapPort

end Asm

/-- The texts that a C string can hold. -/
def Trap.Fits : Trap → Prop
  | .write _ text => '\x00' ∉ text.toList ∧ text.utf8ByteSize < 2 ^ 64
  | _ => True

/-- The call that registers and memory stand for, by the numbers and the argument registers
of docs/syscall-abi.md. An argument of 32 bits is the low half of its register. -/
def Machine.trap? (s : Machine) : Option Trap :=
  let r := s.registers
  if r.rax = trapTaskSelfTrap then some .taskSelf
  else if r.rax = trapMachVmAllocate then
    some (.vmAllocate (r.rdi.setWidth 32) (LittleEndian.toBits 64 (s.memory.load r.rsi 8)) r.rdx
      (r.r10.setWidth 32))
  else if r.rax = sysWrite then
    (textOf (s.memory.load r.rsi r.rdx.toNat)).map (.write (r.rdi.setWidth 32))
  else if r.rax = trapMachMsgTrap then
    some (.machMsg (.ofBytes (s.memory.load r.rdi sizeofMachMsgHeader.toNat)) (r.rsi.setWidth 32)
      (r.rdx.setWidth 32) (r.r10.setWidth 32) (r.r8.setWidth 32) (r.r9.setWidth 32))
  else if r.rax = trapMachPortAllocate then
    some (.portAllocate (r.rdi.setWidth 32) (r.rsi.setWidth 32))
  else if r.rax = sysMachPortInsertRight then
    some (.portInsertRight (r.rdi.setWidth 32) (r.rsi.setWidth 32) (r.rdx.setWidth 32)
      (r.r10.setWidth 32))
  else if r.rax = trapTaskSetBootstrap then
    some (.taskSetBootstrapPort (r.rdi.setWidth 32) (r.rsi.setWidth 32))
  else none

def Machine.Means (s : Machine) (trap : Trap) : Prop := s.trap? = some trap

/-- What the kernel leaves in `rax` and in memory for an answer. A result of 32 bits is in
the low half of `rax`, and the variable it writes back is where the caller's pointer points. -/
def Machine.Left (s : Machine) : (trap : Trap) → trap.Answer → Word × Memory → Prop
  | .taskSelf, port, (rax, memory) => rax.setWidth 32 = port ∧ memory = s.memory
  | .vmAllocate .., (kr, addr), (rax, memory) =>
      rax.setWidth 32 = kr ∧ memory = s.memory.store s.registers.rsi (LittleEndian.ofBits 8 addr)
  | .write .., count, (rax, memory) => rax = count ∧ memory = s.memory
  | .machMsg .., (kr, header), (rax, memory) =>
      rax.setWidth 32 = kr ∧ memory = s.memory.store s.registers.rdi header.bytes
  | .portAllocate .., (kr, name), (rax, memory) =>
      rax.setWidth 32 = kr ∧ memory = s.memory.store s.registers.rdx (LittleEndian.ofBits 4 name)
  | .portInsertRight .., kr, (rax, memory) => rax.setWidth 32 = kr ∧ memory = s.memory
  | .taskSetBootstrapPort .., kr, (rax, memory) => rax.setWidth 32 = kr ∧ memory = s.memory

/-- A kernel behind the instruction: it makes out the call, and leaves its answer. -/
def abiKernel {S : Type} (K : World Trap Trap.Answer S) :
    World Machine (fun _ => Word × Memory) S where
  answers s machine result t := ∃ trap answer,
    machine.trap? = some trap ∧ K.answers s trap answer t ∧ machine.Left trap answer result
  drift := K.drift

/-- The library's calls as a layer between the programs and the instruction. -/
def abiLayer (slot : Trap → Word) :
    Layer Trap Trap.Answer Machine (fun _ => Word × Memory) Panic Machine :=
  fun trap s => Asm.call slot trap s

@[simp] theorem low_setWidth (v : BitVec 32) : (v.setWidth 64).setWidth 32 = v := by
  rw [BitVec.setWidth_setWidth_of_le v (by decide), BitVec.setWidth_eq]

@[simp] theorem low_signExtend (v : BitVec 32) : (v.signExtend 64).setWidth 32 = v := by
  ext i inside
  have within : i < 64 := by omega
  rw [BitVec.getElem_setWidth, BitVec.getLsbD_signExtend, if_pos inside, decide_eq_true within,
    Bool.true_and, BitVec.getLsbD_eq_getElem]

section

variable {S : Type} {K : World Trap Trap.Answer S} {slot : Trap → Word} {trap : Trap}
  {s request : Machine} {result : Word × Memory → trap.Answer × Machine}

/-- A call that is one instruction, at which the kernel makes out the trap and can leave any
answer for the caller to find. -/
theorem abiLayer_carries (asks : Asm.call slot trap s = .ask request (fun left => .ret (result left)))
    (decoded : request.trap? = some trap)
    (found : ∀ answer left, request.Left trap answer left → (result left).1 = answer)
    (able : ∀ answer, ∃ left, request.Left trap answer left) :
    (abiLayer slot).Carries K (abiKernel K) Machine.Means trap s request result where
  asks := asks
  meant := decoded
  sound := by
    rintro s left t ⟨other, answer, same, answered, written⟩
    cases Option.some.inj (decoded.symm.trans same)
    rw [found answer left written]
    exact answered
  complete := by
    intro s answer t answered
    obtain ⟨left, written⟩ := able answer
    exact ⟨left, ⟨trap, answer, decoded, answered, written⟩, found answer left written⟩

theorem taskSelf_carries : ∃ request result,
    (abiLayer slot).Carries K (abiKernel K) Machine.Means .taskSelf s request result := by
  refine ⟨_, _, abiLayer_carries rfl rfl ?_ ?_⟩
  · rintro port ⟨rax, memory⟩ ⟨low, -⟩
    exact low
  · intro port
    exact ⟨(port.setWidth 64, _), low_setWidth port, rfl⟩

theorem vmAllocate_carries (task : MachPort) (addr size : Word) (flags : BitVec 32) :
    ∃ request result,
      (abiLayer slot).Carries K (abiKernel K) Machine.Means
        (.vmAllocate task addr size flags) s request result := by
  refine ⟨_, _, abiLayer_carries rfl ?_ ?_ ?_⟩
  · unfold Machine.trap?
    dsimp only
    rw [if_neg (by decide), if_pos rfl, low_setWidth, low_signExtend,
      Memory.bits_store 8 _ _ rfl (by decide)]
  · rintro ⟨kr, chosen⟩ ⟨rax, memory⟩ ⟨low, written⟩
    refine Prod.ext low ?_
    subst written
    exact Memory.bits_store 8 _ _ rfl (by decide) chosen
  · rintro ⟨kr, chosen⟩
    exact ⟨(kr.setWidth 64, _), low_setWidth kr, rfl⟩

theorem machMsg_carries (msg : MachMsgHeader) (option sendSize rcvSize : BitVec 32)
    (rcvName : MachPort) (timeout : BitVec 32) : ∃ request result,
      (abiLayer slot).Carries K (abiKernel K) Machine.Means
        (.machMsg msg option sendSize rcvSize rcvName timeout) s request result := by
  refine ⟨_, _, abiLayer_carries rfl ?_ ?_ ?_⟩
  · unfold Machine.trap?
    dsimp only
    rw [if_neg (by decide), if_neg (by decide), if_neg (by decide), if_pos rfl,
      Memory.header_store]
    simp only [low_setWidth]
  · rintro ⟨kr, header⟩ ⟨rax, memory⟩ ⟨low, written⟩
    refine Prod.ext low ?_
    subst written
    exact Memory.header_store _ _ header
  · rintro ⟨kr, header⟩
    exact ⟨(kr.setWidth 64, _), low_setWidth kr, rfl⟩

theorem portAllocate_carries (task : MachPort) (right : BitVec 32) : ∃ request result,
    (abiLayer slot).Carries K (abiKernel K) Machine.Means (.portAllocate task right) s request
      result := by
  refine ⟨_, _, abiLayer_carries rfl ?_ ?_ ?_⟩
  · unfold Machine.trap?
    dsimp only
    rw [if_neg (by decide), if_neg (by decide), if_neg (by decide), if_neg (by decide),
      if_pos rfl, low_setWidth, low_setWidth]
  · rintro ⟨kr, name⟩ ⟨rax, memory⟩ ⟨low, written⟩
    refine Prod.ext low ?_
    subst written
    exact Memory.bits_store 4 _ _ rfl (by decide) name
  · rintro ⟨kr, name⟩
    exact ⟨(kr.setWidth 64, _), low_setWidth kr, rfl⟩

theorem portInsertRight_carries (task name poly : MachPort) (polyType : BitVec 32) :
    ∃ request result, (abiLayer slot).Carries K (abiKernel K) Machine.Means
      (.portInsertRight task name poly polyType) s request result := by
  refine ⟨_, _, abiLayer_carries rfl ?_ ?_ ?_⟩
  · unfold Machine.trap?
    dsimp only
    rw [if_neg (by decide), if_neg (by decide), if_neg (by decide), if_neg (by decide),
      if_neg (by decide), if_pos rfl]
    simp only [low_setWidth]
  · rintro kr ⟨rax, memory⟩ ⟨low, -⟩
    exact low
  · intro kr
    exact ⟨(kr.setWidth 64, _), low_setWidth kr, rfl⟩

theorem taskSetBootstrapPort_carries (task bootstrapPort : MachPort) : ∃ request result,
    (abiLayer slot).Carries K (abiKernel K) Machine.Means (.taskSetBootstrapPort task bootstrapPort) s
      request result := by
  refine ⟨_, _, abiLayer_carries rfl ?_ ?_ ?_⟩
  · unfold Machine.trap?
    dsimp only
    rw [if_neg (by decide), if_neg (by decide), if_neg (by decide), if_neg (by decide),
      if_neg (by decide), if_neg (by decide), if_pos rfl, low_setWidth, low_setWidth]
  · rintro kr ⟨rax, memory⟩ ⟨low, -⟩
    exact low
  · intro kr
    exact ⟨(kr.setWidth 64, _), low_setWidth kr, rfl⟩

/-- `julius_puts_fd` on a string that ends is one write of its bytes. -/
theorem juliusPutsFd_spelled (fd : BitVec 32) {p : Word} {bytes : List Byte} (there : p ≠ null)
    (nonzero : ∀ byte ∈ bytes, byte ≠ 0)
    (spelled : s.memory.load p (bytes.length + 1) = bytes ++ [0]) :
    Asm.juliusPutsFd (bytes.length + 1) fd p s =
      (do return some (← Asm.juliusWrite fd p (BitVec.ofNat 64 bytes.length)) :
        Asm (Option Word)) s := by
  have counted := Asm.strLen_spelled nonzero spelled
  unfold Asm.juliusPutsFd
  rw [if_neg there]
  simp only [bind, StateT.bind, get, getThe, MonadStateOf.get, StateT.get, pure, Program.bind,
    counted]

theorem write_carries (fd : BitVec 32) (text : String) (there : ∀ trap, slot trap ≠ null)
    (fits : (Trap.write fd text).Fits) : ∃ request result,
    (abiLayer slot).Carries K (abiKernel K) Machine.Means (.write fd text) s request result := by
  have length := length_textBytes text
  have small : (textBytes text).length < 2 ^ 64 := length ▸ fits.2
  -- The string lies where it was put, and `str_len` comes to its NUL.
  have asks : Asm.call slot (.write fd text) s =
      (do
        Asm.poke (slot (.write fd text)) (textBytes text ++ [0])
        Asm.juliusWrite fd (slot (.write fd text)) (BitVec.ofNat 64 (textBytes text).length) :
          Asm Word) s := by
    have spelled := s.memory.load_store (slot (.write fd text)) (textBytes text ++ [0])
      (by rw [List.length_append]; exact small)
    rw [List.length_append] at spelled
    have run := @juliusPutsFd_spelled ⟨s.registers, s.memory.store _ _⟩ fd _ _ (there _)
      (textBytes_nonzero fits.1) spelled
    simp only [Asm.call, ← length]
    exact congrArg (Program.bind · _) run
  refine ⟨_, _, abiLayer_carries asks ?_ ?_ ?_⟩
  · unfold Machine.trap?
    dsimp only
    rw [if_neg (by decide), if_neg (by decide), if_pos rfl, BitVec.toNat_ofNat,
      Nat.mod_eq_of_lt small, Memory.text_store _ _ _ small, textOf_textBytes, low_signExtend]
    rfl
  · rintro count ⟨rax, memory⟩ ⟨low, -⟩
    exact low
  · intro count
    exact ⟨(count, _), rfl, rfl⟩

/-- Every call of the library is one instruction, which the kernel understands. -/
theorem abiLayer_faithful (there : ∀ trap, slot trap ≠ null) :
    (abiLayer slot).Faithful K (abiKernel K) Machine.Means Trap.Fits where
  drift := rfl
  carries := by
    intro trap s fits
    cases trap with
    | taskSelf => exact taskSelf_carries
    | vmAllocate task addr size flags => exact vmAllocate_carries task addr size flags
    | write fd text => exact write_carries fd text there fits
    | machMsg msg option sendSize rcvSize rcvName timeout =>
        exact machMsg_carries msg option sendSize rcvSize rcvName timeout
    | portAllocate task right => exact portAllocate_carries task right
    | portInsertRight task name poly polyType =>
        exact portInsertRight_carries task name poly polyType
    | taskSetBootstrapPort task bootstrapPort =>
        exact taskSetBootstrapPort_carries task bootstrapPort

end

end Julius
