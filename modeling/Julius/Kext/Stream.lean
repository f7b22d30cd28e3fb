import Julius.Kext.Serial

set_option autoImplicit false

/- The driver in front of a device that answers register reads with an arbitrary
infinite sequence of values. -/
namespace Julius

open Interact (Program)

/-- How many register reads were made, and all that was asked, in order. -/
structure Trace where
  position : Nat
  events : List Io

/-- The register writes among some events: offset and value. -/
def writesOf (events : List Io) : List (Reg × Reg) :=
  events.filterMap (fun event => match event with
    | .write _ offset value => some (offset, value)
    | _ => none)

/-- The offsets of the register reads among some events. -/
def readsOf (events : List Io) : List Reg :=
  events.filterMap (fun event => match event with
    | .read _ offset => some offset
    | _ => none)

namespace Trace

def start : Trace := ⟨0, []⟩

/-- The trace some reads later, with the events of these reads and what came between them. -/
def push (t : Trace) (reads : Nat) (events : List Io) : Trace :=
  ⟨t.position + reads, t.events ++ events⟩

@[simp] theorem push_position (t : Trace) (reads : Nat) (events : List Io) :
    (t.push reads events).position = t.position + reads := rfl

@[simp] theorem push_events (t : Trace) (reads : Nat) (events : List Io) :
    (t.push reads events).events = t.events ++ events := rfl

@[simp] theorem push_push (t : Trace) (a b : Nat) (first second : List Io) :
    (t.push a first).push b second = t.push (a + b) (first ++ second) := by
  simp only [push, Nat.add_assoc, List.append_assoc]

theorem push_zero (t : Trace) : t.push 0 [] = t := by
  simp only [push, Nat.add_zero, List.append_nil]

end Trace

@[simp] theorem writesOf_append (first second : List Io) :
    writesOf (first ++ second) = writesOf first ++ writesOf second := List.filterMap_append

@[simp] theorem readsOf_append (first second : List Io) :
    readsOf (first ++ second) = readsOf first ++ readsOf second := List.filterMap_append

/-- The device: its `k`-th register read returns `reads k`, whatever was written
before. I/O Kit itself has nothing to offer here. -/
def device (reads : Nat → Reg) (t : Trace) : (q : Io) → q.Answer × Trace
  | .read regs offset => (reads t.position, t.push 1 [.read regs offset])
  | .write regs offset value => ((), t.push 0 [.write regs offset value])
  | .delay us => ((), t.push 0 [.delay us])
  | .log format values => ((), t.push 0 [.log format values])
  | .superStart => (false, t)
  | .superStop => ((), t)
  | .superMessage _ => ((0 : BitVec 32), t)
  | .getProperty _ => (none, t)
  | .withPhysicalAddress .. => (false, t)
  | .map => (none, t)
  | .releaseDescriptor => ((), t)
  | .getVirtualAddress _ => ((0 : Word), t)
  | .releaseMap _ => ((), t)
  | .registerService => ((), t)

/-- What a part of the driver does in front of the device. -/
abbrev runDevice {α : Type} (reads : Nat → Reg) (program : Kext α) (t : Trace) :
    Except Fault α × Trace := program.runWith (device reads) t

/-- How many times a wait with that timeout polls, from the given read on. -/
def waitPolls (flag : Reg → Bool) (reads : Nat → Reg) (position : Nat) : Nat → Nat
  | 0 => 1
  | timeout + 1 =>
      if flag (reads position) then waitPolls flag reads (position + 1) timeout + 1 else 1

section

variable (flag : Reg → Bool) (reads : Nat → Reg)

theorem waitPolls_pos (position timeout : Nat) : 0 < waitPolls flag reads position timeout := by
  cases timeout with
  | zero => exact Nat.one_pos
  | succ timeout =>
      unfold waitPolls
      split <;> omega

theorem waitPolls_le (position timeout : Nat) :
    waitPolls flag reads position timeout ≤ timeout + 1 := by
  induction timeout generalizing position with
  | zero => exact Nat.le_refl _
  | succ timeout ih =>
      have bound := ih (position + 1)
      unfold waitPolls
      split <;> omega

/-- Every poll but the last shows the flag set. -/
theorem waitPolls_waiting {position timeout k : Nat}
    (before : k + 1 < waitPolls flag reads position timeout) :
    flag (reads (position + k)) = true := by
  induction timeout generalizing position k with
  | zero =>
      have single : waitPolls flag reads position 0 = 1 := rfl
      omega
  | succ timeout ih =>
      by_cases set : flag (reads position) = true
      · rw [waitPolls, if_pos set] at before
        cases k with
        | zero => exact set
        | succ k =>
            rw [show position + (k + 1) = position + 1 + k by omega]
            exact ih (by omega)
      · rw [waitPolls, if_neg set] at before
        omega

/-- A wait that ends early ends with a poll that shows the flag clear. -/
theorem waitPolls_early {position timeout : Nat}
    (early : waitPolls flag reads position timeout ≤ timeout) :
    flag (reads (position + (waitPolls flag reads position timeout - 1))) = false := by
  induction timeout generalizing position with
  | zero =>
      have single : waitPolls flag reads position 0 = 1 := rfl
      omega
  | succ timeout ih =>
      by_cases set : flag (reads position) = true
      · have positive := waitPolls_pos flag reads (position + 1) timeout
        rw [waitPolls, if_pos set] at early ⊢
        rw [show position + (waitPolls flag reads (position + 1) timeout + 1 - 1) =
          position + 1 + (waitPolls flag reads (position + 1) timeout - 1) by omega]
        exact ih (by omega)
      · rw [waitPolls, if_neg set]
        simpa using set

/-- A wait makes all of its polls exactly if the flag stays set up to the last but one. -/
theorem waitPolls_eq_iff (position timeout : Nat) :
    waitPolls flag reads position timeout = timeout + 1 ↔
      ∀ k < timeout, flag (reads (position + k)) = true := by
  constructor
  · intro all k before
    exact @waitPolls_waiting flag reads position timeout k (by omega)
  · intro waiting
    by_contra early
    have bound := waitPolls_le flag reads position timeout
    have positive := waitPolls_pos flag reads position timeout
    have clear := @waitPolls_early flag reads position timeout (by omega)
    rw [waiting _ (by omega)] at clear
    cases clear

end

/-- The events of that many polls of FR: a delay after each but the last. -/
def waitEvents (regs : Word) : Nat → List Io
  | 0 => []
  | 1 => [.read regs pl011FR]
  | polls + 2 => .read regs pl011FR :: .delay 1 :: waitEvents regs (polls + 1)

theorem waitEvents_succ (regs : Word) {polls : Nat} (more : 0 < polls) :
    waitEvents regs (polls + 1) = .read regs pl011FR :: .delay 1 :: waitEvents regs polls := by
  obtain ⟨rest, rfl⟩ := Nat.exists_eq_succ_of_ne_zero (Nat.pos_iff_ne_zero.mp more)
  rfl

theorem waitEvents_mem {regs : Word} {polls : Nat} {event : Io}
    (member : event ∈ waitEvents regs polls) : event = .read regs pl011FR ∨ event = .delay 1 := by
  induction polls with
  | zero => cases member
  | succ polls ih =>
      by_cases more : 0 < polls
      · rw [waitEvents_succ regs more] at member
        rcases List.mem_cons.mp member with rfl | member
        · exact Or.inl rfl
        · rcases List.mem_cons.mp member with rfl | member
          · exact Or.inr rfl
          · exact ih member
      · obtain rfl : polls = 0 := by omega
        exact Or.inl (List.mem_singleton.mp member)

theorem writesOf_waitEvents (regs : Word) (polls : Nat) : writesOf (waitEvents regs polls) = [] := by
  apply List.filterMap_eq_nil_iff.mpr
  intro event member
  rcases waitEvents_mem member with rfl | rfl <;> rfl

theorem readsOf_waitEvents (regs : Word) (polls : Nat) :
    readsOf (waitEvents regs polls) = List.replicate polls pl011FR := by
  induction polls with
  | zero => rfl
  | succ polls ih =>
      by_cases more : 0 < polls
      · rw [waitEvents_succ regs more, List.replicate_succ, ← ih]
        rfl
      · obtain rfl : polls = 0 := by omega
        rfl

section

variable {α : Type} {reads : Nat → Reg} {regs : Word}

theorem run_read (offset : Reg) (next : Reg → Kext α) (t : Trace) :
    runDevice reads (.ask (.read regs offset) next) t =
      runDevice reads (next (reads t.position)) (t.push 1 [.read regs offset]) := rfl

theorem run_write (offset value : Reg) (next : Unit → Kext α) (t : Trace) :
    runDevice reads (.ask (.write regs offset value) next) t =
      runDevice reads (next ()) (t.push 0 [.write regs offset value]) := rfl

theorem run_delay (us : Nat) (next : Unit → Kext α) (t : Trace) :
    runDevice reads (.ask (.delay us) next) t = runDevice reads (next ()) (t.push 0 [.delay us]) := rfl

theorem run_log (format : String) (values : List Nat) (next : Unit → Kext α) (t : Trace) :
    runDevice reads (.ask (.log format values) next) t =
      runDevice reads (next ()) (t.push 0 [.log format values]) := rfl

/-- A first part that returns hands over to the rest. -/
theorem run_bind {β : Type} {first : Kext α} {next : α → Kext β} {value : α} {s t : Trace}
    (returned : runDevice reads first s = (.ok value, t)) :
    runDevice reads (first.bind next) s = runDevice reads (next value) t := by
  unfold runDevice at *
  rw [Program.runWith_bind, returned]

/-- A wait for a flag to clear: its polls, and a count above zero unless it made all of them. -/
theorem run_waitWhile (flag : Reg → Bool) (timeout : Nat) (t : Trace) : ∃ left : Int,
    runDevice reads (waitWhile (do return flag (← regRead regs pl011FR)) timeout) t =
      (.ok left, t.push (waitPolls flag reads t.position timeout)
        (waitEvents regs (waitPolls flag reads t.position timeout))) ∧
    (left ≤ 0 ↔ waitPolls flag reads t.position timeout = timeout + 1) := by
  induction timeout generalizing t with
  | zero =>
      rw [waitWhile_lastPoll]
      cases set : flag (reads t.position) with
      | true =>
          refine ⟨-1, (run_read _ _ t).trans ?_, by simp [waitPolls]⟩
          rw [if_pos set]
          rfl
      | false =>
          refine ⟨0, (run_read _ _ t).trans ?_, by simp [waitPolls]⟩
          rw [if_neg (by rw [set]; decide)]
          rfl
  | succ timeout ih =>
      rw [waitWhile_poll]
      cases set : flag (reads t.position) with
      | true =>
          obtain ⟨left, returned, expired⟩ :=
            ih ((t.push 1 [.read regs pl011FR]).push 0 [.delay 1])
          have polls := waitPolls_pos flag reads (t.position + 1) timeout
          simp only [Trace.push_push, Trace.push_position, Nat.add_zero] at returned expired
          refine ⟨left, (run_read _ _ t).trans ?_, ?_⟩
          · rw [if_pos set]
            refine (run_delay _ _ _).trans ?_
            rw [Trace.push_push, returned, waitPolls, if_pos set, waitEvents_succ regs polls,
              Nat.add_comm 1]
            rfl
          · rw [waitPolls, if_pos set, expired]
            omega
      | false =>
          have clear : ¬ flag (reads t.position) = true := by rw [set]; decide
          refine ⟨(timeout + 1 : Nat), (run_read _ _ t).trans ?_, ?_⟩
          · rw [if_neg clear, waitPolls, if_neg clear]
            rfl
          · rw [waitPolls, if_neg clear]
            omega

/-- A call of `put_char` waits for room, and sends the byte unless the wait made all its polls. -/
theorem run_putChar (mapped : regs ≠ 0) (c : Byte) (t : Trace) :
    runDevice reads (putChar regs c) t =
      (.ok (), t.push (waitPolls txFull reads t.position 100000)
        (waitEvents regs (waitPolls txFull reads t.position 100000) ++
          [if waitPolls txFull reads t.position 100000 = 100001 then
            .log "JuliusSerial: TX timeout!\n" [] else .write regs pl011DR (c.setWidth 32)])) := by
  obtain ⟨left, returned, expired⟩ := @run_waitWhile reads regs txFull 100000 t
  unfold putChar
  rw [if_neg mapped, txReady_eq, Program.bind_eq, run_bind returned]
  by_cases gaveUp : waitPolls txFull reads t.position 100000 = 100001
  · rw [if_pos (expired.mpr gaveUp), if_pos gaveUp, ← Nat.add_zero (waitPolls _ _ _ _),
      ← Trace.push_push]
    rfl
  · rw [if_neg (fun late => gaveUp (expired.mp late)), if_neg gaveUp,
      ← Nat.add_zero (waitPolls _ _ _ _), ← Trace.push_push]
    rfl

end

def rxEmpty (fr : Reg) : Bool := decide (fr &&& pl011FrRXFE ≠ 0)

/-- The bytes received until the FIFO shows empty, if it does after less than `limit`. -/
def drainBytes (reads : Nat → Reg) (position : Nat) : Nat → Option Nat
  | 0 => none
  | limit + 1 =>
      if rxEmpty (reads position) then some 0
      else (drainBytes reads (position + 2) limit).map (· + 1)

def drainEvents (regs : Word) : Nat → List Io
  | 0 => []
  | bytes + 1 => .read regs pl011FR :: .read regs pl011DR :: drainEvents regs bytes

theorem writesOf_drainEvents (regs : Word) (bytes : Nat) :
    writesOf (drainEvents regs bytes) = [] := by
  induction bytes with
  | zero => rfl
  | succ bytes ih => exact ih

/-- What the driver finds depends on every second read only: the others take a byte. -/
theorem drainBytes_isSome (reads : Nat → Reg) (position limit : Nat) :
    (drainBytes reads position limit).isSome ↔
      ∃ j < limit, rxEmpty (reads (position + 2 * j)) = true := by
  induction limit generalizing position with
  | zero => simp [drainBytes]
  | succ limit ih =>
      by_cases empty : rxEmpty (reads position) = true
      · rw [drainBytes, if_pos empty]
        exact ⟨fun _ => ⟨0, Nat.succ_pos _, empty⟩, fun _ => rfl⟩
      · rw [drainBytes, if_neg empty, Option.isSome_map, ih]
        constructor
        · rintro ⟨j, before, shown⟩
          exact ⟨j + 1, by omega, by rw [← shown]; congr 2; omega⟩
        · rintro ⟨j, before, shown⟩
          cases j with
          | zero => exact absurd shown empty
          | succ j => exact ⟨j, by omega, by rw [← shown]; congr 2; omega⟩

/-- More patience does not change what has been found. -/
theorem drainBytes_mono {reads : Nat → Reg} {position limit bytes : Nat}
    (found : drainBytes reads position limit = some bytes) {more : Nat} (longer : limit ≤ more) :
    drainBytes reads position more = some bytes := by
  induction limit generalizing position bytes more with
  | zero => cases found
  | succ limit ih =>
      obtain ⟨more, rfl⟩ := Nat.exists_eq_succ_of_ne_zero (show more ≠ 0 by omega)
      by_cases empty : rxEmpty (reads position) = true
      · rw [drainBytes, if_pos empty] at found ⊢
        exact found
      · rw [drainBytes, if_neg empty] at found ⊢
        obtain ⟨rest, later, rfl⟩ := Option.map_eq_some_iff.mp found
        rw [ih later (by omega)]
        rfl

section

variable {reads : Nat → Reg} {regs : Word}

theorem run_drainRx (limit : Nat) (t : Trace) :
    runDevice reads (drainRx regs limit) t =
      match drainBytes reads t.position limit with
      | some bytes =>
          (.ok (), t.push (2 * bytes + 1) (drainEvents regs bytes ++ [.read regs pl011FR]))
      | none => (.error .receiving, t.push (2 * limit) (drainEvents regs limit)) := by
  induction limit generalizing t with
  | zero =>
      rw [drainBytes, Nat.mul_zero, drainEvents, Trace.push_zero]
      rfl
  | succ limit ih =>
      rw [drainRx_poll, drainBytes]
      refine (run_read _ _ t).trans ?_
      by_cases empty : rxEmpty (reads t.position) = true
      · have full : ¬ decide (reads t.position &&& pl011FrRXFE = 0) = true := by
          simpa [rxEmpty] using empty
        rw [if_pos empty, if_neg full]
        rfl
      · have full : decide (reads t.position &&& pl011FrRXFE = 0) = true := by
          simpa [rxEmpty] using empty
        rw [if_neg empty, if_pos full]
        refine (run_read _ _ _).trans ?_
        rw [Trace.push_push, ih]
        simp only [Trace.push_position]
        cases drainBytes reads (t.position + 2) limit with
        | none =>
            simp only [Trace.push_push, Option.map_none]
            rw [show 1 + 1 + 2 * limit = 2 * (limit + 1) by omega]
            rfl
        | some bytes =>
            simp only [Trace.push_push, Option.map_some]
            rw [show 1 + 1 + (2 * bytes + 1) = 2 * (bytes + 1) + 1 by omega]
            rfl

theorem run_regWrites (writes : List (Reg × Reg)) (t : Trace) :
    runDevice reads (regWrites regs writes) t =
      (.ok (), t.push 0 (writes.map (fun write => .write regs write.1 write.2))) := by
  induction writes generalizing t with
  | nil => exact congrArg (Prod.mk _) (Trace.push_zero t).symm
  | cons write rest ih =>
      refine (run_write _ _ _ t).trans ((ih _).trans ?_)
      rw [Trace.push_push]
      rfl

theorem writesOf_writes (writes : List (Reg × Reg)) :
    writesOf (writes.map (fun write => .write regs write.1 write.2)) = writes := by
  induction writes with
  | nil => rfl
  | cons write rest ih => exact congrArg (write :: ·) ih

/-- What `hw_init` does once the receive FIFO shows empty. -/
def hwInitTail (regs : Word) (baud : Reg) : Kext Unit :=
  if baud16 baud = 0 then .halt .divideByZero
  else (regWrites regs (hwInitWrites baud)).bind (fun _ =>
    ioLog "JuliusSerial: PL011 configured: %u baud, IBRD=%u FBRD=%u\n"
      [baud.toNat, (baudDivisors baud).1.toNat, (baudDivisors baud).2.toNat])

theorem hwInit_head (limit : Nat) (baud : Reg) :
    hwInit limit regs baud = .ask (.write regs pl011CR 0) (fun _ =>
      (waitWhile (uartBusy regs) 100000).bind (fun _ =>
        (drainRx regs limit).bind (fun _ => hwInitTail regs baud))) := by
  unfold hwInitTail
  by_cases zero : baud16 baud = 0
  · unfold hwInit
    simp only [zero, ↓reduceIte]
    rfl
  · simp only [zero, ↓reduceIte]
    exact hwInit_eq limit regs zero

/-- The events of `hw_init` up to its computing the divisors. -/
def hwInitEvents (regs : Word) (polls : Nat) (drained : List Io) : List Io :=
  .write regs pl011CR 0 :: (waitEvents regs polls ++ drained)

/-- Where `hw_init` stands when it begins to drain the receive FIFO. -/
def drainFrom (reads : Nat → Reg) (position : Nat) : Nat :=
  position + waitPolls txBusy reads position 100000

theorem run_hwInit (limit : Nat) (baud : Reg) (t : Trace) :
    runDevice reads (hwInit limit regs baud) t =
      match drainBytes reads (drainFrom reads t.position) limit with
      | some bytes => runDevice reads (hwInitTail regs baud)
          (t.push (waitPolls txBusy reads t.position 100000 + (2 * bytes + 1))
            (hwInitEvents regs (waitPolls txBusy reads t.position 100000)
              (drainEvents regs bytes ++ [.read regs pl011FR])))
      | none => (.error .receiving,
          t.push (waitPolls txBusy reads t.position 100000 + 2 * limit)
            (hwInitEvents regs (waitPolls txBusy reads t.position 100000)
              (drainEvents regs limit))) := by
  rw [hwInit_head, uartBusy_eq]
  refine (run_write _ _ _ t).trans ?_
  obtain ⟨left, returned, _⟩ := @run_waitWhile reads regs txBusy 100000
    (t.push 0 [.write regs pl011CR 0])
  simp only [Trace.push_position, Trace.push_push, Nat.add_zero, Nat.zero_add] at returned
  rw [run_bind returned, runDevice, Program.runWith_bind]
  have drained := @run_drainRx reads regs limit
    (t.push (waitPolls txBusy reads t.position 100000)
      ([.write regs pl011CR 0] ++ waitEvents regs (waitPolls txBusy reads t.position 100000)))
  unfold runDevice at drained
  rw [drained]
  simp only [Trace.push_position, Trace.push_push]
  unfold drainFrom
  cases drainBytes reads (t.position + waitPolls txBusy reads t.position 100000) limit with
  | none => rfl
  | some bytes => rfl

/-- The tail makes its writes and returns, unless it divides by zero. -/
theorem run_hwInitTail (baud : Reg) (t : Trace) :
    runDevice reads (hwInitTail regs baud) t =
      if baud16 baud = 0 then (.error .divideByZero, t)
      else (.ok (), t.push 0
        ((hwInitWrites baud).map (fun write => .write regs write.1 write.2) ++
          [.log "JuliusSerial: PL011 configured: %u baud, IBRD=%u FBRD=%u\n"
            [baud.toNat, (baudDivisors baud).1.toNat, (baudDivisors baud).2.toNat]])) := by
  unfold hwInitTail
  split
  · rfl
  · rw [run_bind (run_regWrites _ t)]
    refine (run_log _ _ _ _).trans ?_
    rw [Trace.push_push]
    rfl

theorem writesOf_hwInitEvents (regs : Word) (polls : Nat) (drained : List Io) :
    writesOf (hwInitEvents regs polls drained) = (pl011CR, 0) :: writesOf drained := by
  have split : hwInitEvents regs polls drained =
      [.write regs pl011CR 0] ++ (waitEvents regs polls ++ drained) := rfl
  rw [split, writesOf_append, writesOf_append, writesOf_waitEvents]
  rfl

end

end Julius
