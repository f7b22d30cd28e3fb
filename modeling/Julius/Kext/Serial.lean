import Julius.Lib.Program
import Julius.Libc.Types

set_option autoImplicit false

/- kexts/JuliusSerial: the I/O Kit driver of the PL011 UART. -/
namespace Julius

open Interact (Program)

/-- A `uint32_t`. -/
abbrev Reg := BitVec 32

def pl011DR : Reg := 0x000
def pl011FR : Reg := 0x018
def pl011IBRD : Reg := 0x024
def pl011FBRD : Reg := 0x028
def pl011LCRH : Reg := 0x02C
def pl011CR : Reg := 0x030
def pl011IMSC : Reg := 0x038
def pl011ICR : Reg := 0x044

/-- TX FIFO full -/
def pl011FrTXFF : Reg := 1 <<< 5

/-- RX FIFO empty -/
def pl011FrRXFE : Reg := 1 <<< 4

/-- UART busy -/
def pl011FrBUSY : Reg := 1 <<< 3

def pl011LcrhWLEN8 : Reg := 3 <<< 5
def pl011LcrhFEN : Reg := 1 <<< 4

def pl011CrRXE : Reg := 1 <<< 9
def pl011CrTXE : Reg := 1 <<< 8
def pl011CrUARTEN : Reg := 1 <<< 0

/-- An `unsigned long`. -/
def juliusUartClockHz : Word := 24000000

def juliusUartBaud : Reg := 115200

def kDefaultUARTBase : Word := 0x09000000

def kUARTRegionSize : Word := 0x1000

/-- What the driver asks of the device and of I/O Kit. `regs` is the register base it
dereferences, and an `IOMemoryMap` goes by a number. -/
inductive Io
  | read (regs : Word) (offset : Reg)
  | write (regs : Word) (offset value : Reg)
  /-- `IODelay`, in microseconds -/
  | delay (us : Nat)
  /-- `IOLog`, with the integers it formats -/
  | log (format : String) (values : List Nat)
  | superStart
  | superStop
  | superMessage (type : BitVec 32)
  /-- `OSDynamicCast(OSData, provider->getProperty(name))` -/
  | getProperty (name : String)
  /-- `IOMemoryDescriptor::withPhysicalAddress` -/
  | withPhysicalAddress (address size : Word)
  /-- `map` of the descriptor -/
  | map
  /-- `release` of the descriptor -/
  | releaseDescriptor
  | getVirtualAddress (map : Nat)
  /-- `release` of a mapping -/
  | releaseMap (map : Nat)
  | registerService
  deriving DecidableEq, Repr

/-- A pointer that may be null is an `Option`; the bytes of a property are its data. -/
def Io.Answer : Io → Type
  | .read .. => Reg
  | .superStart => Bool
  | .superMessage _ => BitVec 32
  | .getProperty _ => Option (List Byte)
  | .withPhysicalAddress .. => Bool
  | .map => Option Nat
  | .getVirtualAddress _ => Word
  | _ => Unit

/-- Where a driver call does not come back: `hw_init` divides by zero, or keeps on
receiving for as long as the model follows it. -/
inductive Fault
  | divideByZero
  | receiving
  deriving DecidableEq, Repr

abbrev Kext := Program Io Io.Answer Fault

def ioDelay (us : Nat) : Kext Unit := Program.query (Io.delay us)

def ioLog (format : String) (values : List Nat) : Kext Unit := Program.query (Io.log format values)

/-- The fields of the driver object; `regs` is `_regs`, null where it is zero. -/
structure JuliusSerialDriver where
  mmioMap : Option Nat
  regs : Word
  physBase : Word
  deriving DecidableEq, Repr

/-- A register read through `_regs`. -/
def regRead (regs : Word) (offset : Reg) : Kext Reg := Program.query (Io.read regs offset)

def regWrite (regs : Word) (offset value : Reg) : Kext Unit :=
  Program.query (Io.write regs offset value)

def txReady (regs : Word) : Kext Bool := do
  let fr ← regRead regs pl011FR
  return fr &&& pl011FrTXFF = 0

def rxReady (regs : Word) : Kext Bool := do
  let fr ← regRead regs pl011FR
  return fr &&& pl011FrRXFE = 0

def uartBusy (regs : Word) : Kext Bool := do
  let fr ← regRead regs pl011FR
  return fr &&& pl011FrBUSY ≠ 0

/-- `while (waiting && timeout-- > 0) IODelay(1);` and the value of `timeout` after it. -/
def waitWhile (waiting : Kext Bool) : Nat → Kext Int
  | 0 => do
      if ← waiting then return -1
      return 0
  | timeout + 1 => do
      if ← waiting then
        ioDelay 1
        waitWhile waiting timeout
      else return (timeout + 1 : Nat)

/-- `while (!(reg_read(PL011_FR) & PL011_FR_RXFE)) (void)reg_read(PL011_DR);` with
at most `limit` bytes followed. -/
def drainRx (regs : Word) : Nat → Kext Unit
  | 0 => .halt .receiving
  | limit + 1 => do
      if ← rxReady regs then
        let _ ← regRead regs pl011DR
        drainRx regs limit
      else return

/-- `16 * baud`, in 32 bits as the source computes it. -/
def baud16 (baud : Reg) : Word := (16 * baud).setWidth 64

/-- The divisors `hw_init` computes in 64 bits and stores in 32. -/
def baudDivisors (baud : Reg) : Reg × Reg :=
  ((juliusUartClockHz / baud16 baud).setWidth 32,
    (((juliusUartClockHz % baud16 baud) * 64 + (baud / 2).setWidth 64) /
      baud.setWidth 64).setWidth 32)

def hwInit (limit : Nat) (regs : Word) (baud : Reg) : Kext Unit := do
  regWrite regs pl011CR 0
  let _ ← waitWhile (uartBusy regs) 100000
  drainRx regs limit
  if baud16 baud = 0 then
    .halt .divideByZero
  let (ibrd, fbrd) := baudDivisors baud
  regWrite regs pl011IBRD ibrd
  regWrite regs pl011FBRD fbrd
  regWrite regs pl011LCRH (pl011LcrhWLEN8 ||| pl011LcrhFEN)
  regWrite regs pl011IMSC 0
  regWrite regs pl011ICR 0x7FF
  regWrite regs pl011CR (pl011CrTXE ||| pl011CrRXE ||| pl011CrUARTEN)
  ioLog "JuliusSerial: PL011 configured: %u baud, IBRD=%u FBRD=%u\n"
    [baud.toNat, ibrd.toNat, fbrd.toNat]

def putChar (regs : Word) (c : Byte) : Kext Unit := do
  if regs = 0 then return
  let timeout ← waitWhile (return !(← txReady regs)) 100000
  if timeout ≤ 0 then
    ioLog "JuliusSerial: TX timeout!\n" []
    return
  regWrite regs pl011DR (c.setWidth 32)

/-- The byte read, or nothing where the source returns `false`. -/
def getChar (regs : Word) : Kext (Option Byte) := do
  if regs = 0 then return none
  if !(← rxReady regs) then return none
  let dr ← regRead regs pl011DR
  return some ((dr &&& 0xFF).setWidth 8)

/-- `s` is the string up to its NUL. -/
def putString (regs : Word) : List Byte → Kext Unit
  | [] => return
  | c :: s => do
      if c = BitVec.ofNat 8 '\n'.toNat then putChar regs (BitVec.ofNat 8 '\r'.toNat)
      putChar regs c
      putString regs s

def setBaud (limit : Nat) (regs : Word) (baud : Reg) : Kext Unit := do
  ioLog "JuliusSerial: changing baud to %u\n" [baud.toNat]
  hwInit limit regs baud

/-- The bytes of a string literal. -/
def cBytes (text : String) : List Byte := text.toList.map (fun c => BitVec.ofNat 8 c.toNat)

/-- The first eight bytes of a property as a little-endian integer. -/
def readU64 (data : List Byte) : Word :=
  (data.take 8).foldr (fun byte high => byte.setWidth 64 ||| (high <<< 8)) 0

namespace JuliusSerialDriver

/-- The object as it is constructed. -/
def fresh : JuliusSerialDriver := ⟨none, 0, 0⟩

/-- The base address: the device tree's, or the default. -/
def readPhysBase : Kext Word := do
  match ← (Program.query (Io.getProperty "reg") : Kext (Option (List Byte))) with
  | some data =>
      if 8 ≤ data.length then
        ioLog "JuliusSerial: using device-tree base 0x%llx\n" [(readU64 data).toNat]
        return readU64 data
      ioLog "JuliusSerial: no 'reg' property, using default 0x%llx\n" [kDefaultUARTBase.toNat]
      return kDefaultUARTBase
  | none =>
      ioLog "JuliusSerial: no 'reg' property, using default 0x%llx\n" [kDefaultUARTBase.toNat]
      return kDefaultUARTBase

/-- From the mapping on, `start` cannot fail. -/
def startMapped (limit : Nat) (physBase : Word) (mmioMap : Nat) :
    Kext (Bool × JuliusSerialDriver) := do
  let regs ← (Program.query (Io.getVirtualAddress mmioMap) : Kext Word)
  ioLog "JuliusSerial: MMIO mapped at virt 0x%llx\n" [regs.toNat]
  hwInit limit regs juliusUartBaud
  putString regs
    (cBytes "\r\n[JuliusSerial] UART driver started. JULIUS OS serial console ready.\r\n")
  Program.query Io.registerService
  ioLog "JuliusSerial: registered as com.julius-os.driver.serial\n" []
  return (true, { mmioMap := some mmioMap, regs, physBase })

def start (limit : Nat) (d : JuliusSerialDriver) : Kext (Bool × JuliusSerialDriver) := do
  if !(← (Program.query Io.superStart : Kext Bool)) then
    ioLog "JuliusSerial: super::start() failed\n" []
    return (false, d)
  ioLog "JuliusSerial: starting\n" []
  let physBase ← readPhysBase
  let desc ← (Program.query (Io.withPhysicalAddress physBase kUARTRegionSize) : Kext Bool)
  if !desc then
    ioLog "JuliusSerial: cannot create memory descriptor\n" []
    return (false, { d with physBase })
  let mmioMap ← (Program.query Io.map : Kext (Option Nat))
  Program.query Io.releaseDescriptor
  match mmioMap with
  | none =>
      ioLog "JuliusSerial: cannot map UART MMIO at 0x%llx\n" [physBase.toNat]
      return (false, { d with mmioMap := none, physBase })
  | some mmioMap => startMapped limit physBase mmioMap

def stop (d : JuliusSerialDriver) : Kext JuliusSerialDriver := do
  ioLog "JuliusSerial: stopping\n" []
  putString d.regs (cBytes "\r\n[JuliusSerial] UART driver stopping.\r\n")
  if d.regs ≠ 0 then regWrite d.regs pl011CR 0
  let d ← (match d.mmioMap with
    | some mmioMap => do
        Program.query (Io.releaseMap mmioMap)
        return { d with mmioMap := none, regs := 0 }
    | none => return d : Kext JuliusSerialDriver)
  Program.query Io.superStop
  return d

def message (type : BitVec 32) : Kext (BitVec 32) := do
  ioLog "JuliusSerial: message type=0x%x\n" [type.toNat]
  Program.query (Io.superMessage type)

end JuliusSerialDriver

/-- A query of the register block at `regs` that leaves the FIFOs enabled, or one that is
no register access at all and leaves I/O Kit alone. -/
def Io.OnRegs (regs : Word) : Io → Prop
  | .read base _ => base = regs
  | .write base offset value =>
      base = regs ∧ (offset = pl011LCRH → value &&& pl011LcrhFEN ≠ 0)
  | .delay _ => True
  | .log _ _ => True
  | _ => False

/-- The queries of `hw_init`: it sends nothing. -/
def Io.Silent (regs : Word) : Io → Prop
  | .read base _ => base = regs
  | .write base offset value =>
      base = regs ∧ offset ≠ pl011DR ∧ (offset = pl011LCRH → value &&& pl011LcrhFEN ≠ 0)
  | .delay _ => True
  | .log _ _ => True
  | _ => False

theorem Io.Silent.onRegs {regs : Word} (q : Io) (silent : q.Silent regs) : q.OnRegs regs := by
  cases q with
  | write base offset value => exact ⟨silent.1, silent.2.2⟩
  | _ => exact silent

section

variable {regs : Word} {allowed : Io → Prop} {stops : Fault → Prop}

theorem waitWhile_asks {waiting : Kext Bool} (asks : waiting.Asks allowed stops)
    (delays : allowed (.delay 1)) (timeout : Nat) :
    (waitWhile waiting timeout).Asks allowed stops := by
  induction timeout with
  | zero =>
      apply asks.bind
      intro busy
      cases busy <;> trivial
  | succ timeout ih =>
      apply asks.bind
      intro busy
      cases busy with
      | false => trivial
      | true => exact ⟨delays, fun _ => ih⟩

/-- The questions to the flag register are one read each. -/
theorem rxReady_asks (reads : allowed (.read regs pl011FR)) : (rxReady regs).Asks allowed stops :=
  ⟨reads, fun _ => trivial⟩

theorem uartBusy_asks (reads : allowed (.read regs pl011FR)) :
    (uartBusy regs).Asks allowed stops := ⟨reads, fun _ => trivial⟩

theorem drainRx_asks (limit : Nat) :
    (drainRx regs limit).Asks (Io.Silent regs) (fun _ => True) := by
  induction limit with
  | zero => trivial
  | succ limit ih =>
      have reads : Io.Silent regs (.read regs pl011FR) := rfl
      apply (rxReady_asks reads).bind
      intro ready
      cases ready with
      | false => trivial
      | true => exact ⟨rfl, fun _ => ih⟩

theorem hwInit_silent (limit : Nat) (baud : Reg) :
    (hwInit limit regs baud).Asks (Io.Silent regs) (fun _ => True) := by
  have write : ∀ offset : Reg, offset ≠ pl011DR → offset ≠ pl011LCRH → ∀ value,
      Io.Silent regs (.write regs offset value) :=
    fun offset dr lcrh value => ⟨rfl, dr, fun same => absurd same lcrh⟩
  refine ⟨write pl011CR (by decide) (by decide) 0, fun _ => ?_⟩
  have reads : Io.Silent regs (.read regs pl011FR) := rfl
  apply (waitWhile_asks (uartBusy_asks reads) trivial 100000).bind
  intro _
  apply (drainRx_asks limit).bind
  intro _
  by_cases zero : baud16 baud = 0
  · simp only [zero, ↓reduceIte]
    trivial
  · simp only [zero, ↓reduceIte]
    have lcrh : Io.Silent regs (.write regs pl011LCRH (pl011LcrhWLEN8 ||| pl011LcrhFEN)) :=
      ⟨rfl, by decide, fun _ => by decide⟩
    exact ⟨write pl011IBRD (by decide) (by decide) _, fun _ =>
      ⟨write pl011FBRD (by decide) (by decide) _, fun _ => ⟨lcrh, fun _ =>
        ⟨write pl011IMSC (by decide) (by decide) _, fun _ =>
          ⟨write pl011ICR (by decide) (by decide) _, fun _ =>
            ⟨write pl011CR (by decide) (by decide) _, fun _ => ⟨trivial, fun _ => trivial⟩⟩⟩⟩⟩⟩⟩

theorem hwInit_asks (limit : Nat) (baud : Reg) :
    (hwInit limit regs baud).Asks (Io.OnRegs regs) (fun _ => True) :=
  (hwInit_silent limit baud).mono Io.Silent.onRegs (fun _ stop => stop)

theorem putChar_asks (c : Byte) : (putChar regs c).Asks (Io.OnRegs regs) (fun _ => False) := by
  unfold putChar
  by_cases unmapped : regs = 0
  · rw [if_pos unmapped]
    trivial
  · rw [if_neg unmapped]
    have waiting : Program.Asks (Io.OnRegs regs) (fun _ => False)
        (do return !(← txReady regs) : Kext Bool) := ⟨rfl, fun _ => trivial⟩
    apply (waitWhile_asks waiting trivial 100000).bind
    intro timeout
    by_cases expired : timeout ≤ 0
    · rw [if_pos expired]
      exact ⟨trivial, fun _ => trivial⟩
    · rw [if_neg expired]
      exact ⟨⟨rfl, fun lcrh => absurd lcrh (by decide)⟩, fun _ => trivial⟩

theorem putString_asks (s : List Byte) :
    (putString regs s).Asks (Io.OnRegs regs) (fun _ => False) := by
  induction s with
  | nil => trivial
  | cons c s ih =>
      unfold putString
      by_cases newline : c = BitVec.ofNat 8 '\n'.toNat
      · rw [if_pos newline]
        apply (putChar_asks _).bind
        intro _
        apply (putChar_asks _).bind
        exact fun _ => ih
      · rw [if_neg newline]
        apply (putChar_asks _).bind
        exact fun _ => ih

theorem getChar_asks : (getChar regs).Asks (Io.OnRegs regs) (fun _ => False) := by
  unfold getChar
  by_cases unmapped : regs = 0
  · rw [if_pos unmapped]
    trivial
  · rw [if_neg unmapped]
    have reads : Io.OnRegs regs (.read regs pl011FR) := rfl
    apply (rxReady_asks reads).bind
    intro ready
    cases ready with
    | false => trivial
    | true => exact ⟨rfl, fun _ => trivial⟩

/-- Without a mapping there is nothing to write to. -/
theorem putString_unmapped (s : List Byte) : putString 0 s = .ret () := by
  induction s with
  | nil => rfl
  | cons c s ih =>
      unfold putString
      rw [ih]
      split <;> rfl

end

/-- A wait of `timeout + 1` polls of FR at least: the next one, and the rest. -/
theorem waitWhile_poll {regs : Word} (flag : Reg → Bool) (timeout : Nat) :
    waitWhile (do return flag (← regRead regs pl011FR)) (timeout + 1) =
      .ask (.read regs pl011FR) (fun fr => if flag fr then
        .ask (.delay 1) (fun _ => waitWhile (do return flag (← regRead regs pl011FR)) timeout)
        else .ret ((timeout + 1 : Nat) : Int)) := rfl

theorem waitWhile_lastPoll {regs : Word} (flag : Reg → Bool) :
    waitWhile (do return flag (← regRead regs pl011FR)) 0 =
      .ask (.read regs pl011FR) (fun fr => if flag fr then .ret (-1) else .ret 0) := rfl

/-- The flag that `put_char` waits on. -/
def txFull (fr : Reg) : Bool := !(decide (fr &&& pl011FrTXFF = 0))

theorem txFull_false {fr : Reg} : txFull fr = false ↔ fr &&& pl011FrTXFF = 0 := by
  simp [txFull]

theorem txReady_eq (regs : Word) :
    (do return !(← txReady regs) : Kext Bool) = (do return txFull (← regRead regs pl011FR)) := rfl

/-- The flag that `hw_init` waits on. -/
def txBusy (fr : Reg) : Bool := decide (fr &&& pl011FrBUSY ≠ 0)

theorem uartBusy_eq (regs : Word) :
    uartBusy regs = (do return txBusy (← regRead regs pl011FR) : Kext Bool) := rfl

def regWrites (regs : Word) : List (Reg × Reg) → Kext Unit
  | [] => return
  | (offset, value) :: rest => do
      regWrite regs offset value
      regWrites regs rest

/-- The writes of `hw_init` after the drain, in their order. -/
def hwInitWrites (baud : Reg) : List (Reg × Reg) :=
  [(pl011IBRD, (baudDivisors baud).1), (pl011FBRD, (baudDivisors baud).2),
    (pl011LCRH, pl011LcrhWLEN8 ||| pl011LcrhFEN), (pl011IMSC, 0), (pl011ICR, 0x7FF),
    (pl011CR, pl011CrTXE ||| pl011CrRXE ||| pl011CrUARTEN)]

theorem hwInit_eq (limit : Nat) (regs : Word) {baud : Reg} (nonzero : baud16 baud ≠ 0) :
    hwInit limit regs baud = .ask (.write regs pl011CR 0) (fun _ =>
      (waitWhile (uartBusy regs) 100000).bind (fun _ =>
        (drainRx regs limit).bind (fun _ =>
          (regWrites regs (hwInitWrites baud)).bind (fun _ =>
            ioLog "JuliusSerial: PL011 configured: %u baud, IBRD=%u FBRD=%u\n"
              [baud.toNat, (baudDivisors baud).1.toNat, (baudDivisors baud).2.toNat])))) := by
  unfold hwInit
  simp only [nonzero, ↓reduceIte]
  rfl

theorem drainRx_poll (limit : Nat) (regs : Word) :
    drainRx regs (limit + 1) = .ask (.read regs pl011FR) (fun (fr : Reg) =>
      if decide (fr &&& pl011FrRXFE = 0) then
        .ask (.read regs pl011DR) (fun _ => drainRx regs limit)
      else .ret ()) := rfl

end Julius
