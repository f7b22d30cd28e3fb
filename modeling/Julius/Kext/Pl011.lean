import Julius.Lib.Pool
import Julius.Kext.Serial

set_option autoImplicit false

/- The transmit side of the PL011 under the driver: which divisor each byte goes out at. -/
namespace Julius

open Interact

/-- IBRD and FBRD. -/
abbrev Divisor := Reg × Reg

/-- A byte that has left the FIFO: the divisor in force when it was written to DR, and
those in force while it was serialised. -/
structure Frame where
  byte : Byte
  written : Divisor
  under : List Divisor
  deriving DecidableEq, Repr

/-- `held` is what IBRD and FBRD were last written, `divisor` what is in force. A byte
waits in the FIFO with the divisor it was written under. -/
structure Pl011 where
  fifo : List (Byte × Divisor)
  shift : Option Frame
  line : List Frame
  held : Divisor
  divisor : Divisor
  cr : Reg
  /-- every byte written to DR -/
  sent : List Byte
  deriving DecidableEq, Repr

namespace Pl011

def enabled : Reg := pl011CrTXE ||| pl011CrRXE ||| pl011CrUARTEN

/-- An idle device that runs at `divisor`. -/
def idle (divisor : Divisor) : Pl011 := ⟨[], none, [], divisor, divisor, enabled, []⟩

def transmits (s : Pl011) : Bool := s.cr &&& pl011CrTXE ≠ 0 && s.cr &&& pl011CrUARTEN ≠ 0

/-- The divisors last written take effect, also for the byte that is being sent. -/
def latch (s : Pl011) : Pl011 :=
  { s with
    divisor := s.held
    shift := s.shift.map (fun frame => { frame with under := frame.under ++ [s.held] }) }

/-- A write to a register. LCRH latches the divisors, and empties the FIFO unless FEN
stays set; a byte for a full FIFO is lost. -/
def store (depth : Nat) (s : Pl011) (offset value : Reg) : Pl011 :=
  if offset = pl011DR then
    { s with
      fifo := if s.fifo.length < depth then s.fifo ++ [(value.setWidth 8, s.divisor)] else s.fifo
      sent := s.sent ++ [value.setWidth 8] }
  else if offset = pl011IBRD then { s with held := (value, s.held.2) }
  else if offset = pl011FBRD then { s with held := (s.held.1, value) }
  else if offset = pl011LCRH then
    { s.latch with fifo := if value &&& pl011LcrhFEN = 0 then [] else s.fifo }
  else if offset = pl011CR then { s with cr := value }
  else s

/-- What the transmitter does by itself: it takes a byte from the FIFO while it is
enabled, and finishes the byte it has whether it is or not. -/
inductive Moves (s : Pl011) : Pl011 → Prop
  | load {byte : Byte} {written : Divisor} {rest : List (Byte × Divisor)}
      (transmits : s.transmits = true) (free : s.shift = none)
      (first : s.fifo = (byte, written) :: rest) :
      Moves s { s with fifo := rest, shift := some ⟨byte, written, [s.divisor]⟩ }
  | finish {frame : Frame} (busy : s.shift = some frame) :
      Moves s { s with shift := none, line := s.line ++ [frame] }

def Idle (s : Pl011) : Prop := s.fifo = [] ∧ s.shift = none

instance (s : Pl011) : Decidable s.Idle := inferInstanceAs (Decidable (_ ∧ _))

/-- What FR shows of the transmitter: a full FIFO, and that it is busy. -/
def Shows (depth : Nat) (s : Pl011) (fr : Reg) : Prop :=
  (fr &&& pl011FrTXFF = 0 ↔ s.fifo.length < depth) ∧ (fr &&& pl011FrBUSY = 0 ↔ s.Idle)

/-- Whether a byte was received, and what any other register reads as, is left open. -/
def answers (depth : Nat) (s : Pl011) : (q : Io) → q.Answer → Pl011 → Prop
  | .read _ offset, value, t => t = s ∧ (offset = pl011FR → s.Shows depth value)
  | .write _ offset value, _, t => t = s.store depth offset value
  | _, _, t => t = s

end Pl011

def pl011 (depth : Nat) : World Io Io.Answer Pl011 where
  answers := Pl011.answers depth
  drift := Pl011.Moves

/-- A call of the serial API. -/
inductive UartCall
  | putChar (c : Byte)
  | putString (s : List Byte)
  | setBaud (baud : Reg)
  deriving DecidableEq, Repr

/-- The calls one after another, on a driver with its registers at `regs`. -/
def uartCalls (limit : Nat) (regs : Word) : List UartCall → Kext Unit
  | [] => return
  | .putChar c :: rest => do
      putChar regs c
      uartCalls limit regs rest
  | .putString s :: rest => do
      putString regs s
      uartCalls limit regs rest
  | .setBaud baud :: rest => do
      setBaud limit regs baud
      uartCalls limit regs rest

/-- Every byte written is on the line, in the shift register or in the FIFO, once and in
the order of the writes. -/
def Pl011.Kept (s : Pl011) : Prop :=
  s.sent = s.line.map Frame.byte ++ s.shift.toList.map Frame.byte ++ s.fifo.map Prod.fst

/-- No byte is lost, and each goes out under the divisor it was written under. -/
structure Pl011.Faithful (s : Pl011) : Prop where
  line : ∀ frame ∈ s.line, ∀ d ∈ frame.under, d = frame.written
  shift : ∀ frame ∈ s.shift, frame.written = s.divisor ∧ ∀ d ∈ frame.under, d = frame.written
  fifo : ∀ entry ∈ s.fifo, entry.2 = s.divisor
  kept : s.Kept

theorem Pl011.Faithful.idle (divisor : Divisor) : (Pl011.idle divisor).Faithful where
  line _ member := by cases member
  shift _ member := by cases member
  fifo _ member := by cases member
  kept := rfl

/-- The divisor in force changes only while there is nothing in the transmitter. -/
def BarrierStep (s t : Pl011) : Prop := t.divisor ≠ s.divisor → s.Idle

section

variable {depth limit : Nat} {regs : Word} {s t : Pl011}

/-- Only a write changes the device. -/
theorem pl011_answered {q : Io} {answer : q.Answer} (answered : (pl011 depth).answers s q answer t) :
    t = s ∨ ∃ base offset value, q = .write base offset value ∧ t = s.store depth offset value := by
  cases q with
  | write base offset value => exact .inr ⟨base, offset, value, rfl, answered⟩
  | read base offset => exact .inl answered.1
  | _ => exact .inl answered

theorem Pl011.Kept.moves (kept : s.Kept) (moved : Pl011.Moves s t) : t.Kept := by
  unfold Pl011.Kept at *
  cases moved with
  | load transmits free first =>
      rw [free, first] at kept
      simpa using kept
  | finish busy =>
      rw [busy] at kept
      simpa using kept

theorem Pl011.Kept.latch (kept : s.Kept) : s.latch.Kept := by
  unfold Pl011.Kept at *
  show s.sent = _
  rw [kept, Pl011.latch]
  cases s.shift <;> rfl

/-- A register write loses no byte if it empties no FIFO and writes none that does not fit. -/
theorem Pl011.Kept.store (kept : s.Kept) {offset value : Reg}
    (room : offset = pl011DR → s.fifo.length < depth)
    (keepsFifo : offset = pl011LCRH → value &&& pl011LcrhFEN ≠ 0) :
    (s.store depth offset value).Kept := by
  unfold Pl011.store
  split_ifs with dr full ibrd fbrd lcrh flushes cr
  · unfold Pl011.Kept at *
    simp [kept]
  · exact absurd (room dr) full
  · exact kept
  · exact kept
  · exact absurd flushes (keepsFifo lcrh)
  · exact kept.latch
  · exact kept
  · exact kept

theorem Pl011.Faithful.moves (faithful : s.Faithful) (moved : Pl011.Moves s t) : t.Faithful := by
  cases moved with
  | @load byte written rest transmits free first =>
      have moved := Pl011.Moves.load transmits free first
      have same : written = s.divisor := faithful.fifo (byte, written) (first ▸ List.mem_cons_self)
      refine ⟨faithful.line, ?_, ?_, faithful.kept.moves moved⟩
      · intro frame member
        cases member
        refine ⟨same, ?_⟩
        intro d member
        exact (List.mem_singleton.mp member).trans same.symm
      · exact fun entry member => faithful.fifo entry (first ▸ List.mem_cons_of_mem _ member)
  | @finish frame busy =>
      have moved := Pl011.Moves.finish busy
      have last := faithful.shift frame busy
      refine ⟨?_, ?_, faithful.fifo, faithful.kept.moves moved⟩
      · intro other member
        rcases List.mem_append.mp member with old | new
        · exact faithful.line other old
        · rw [List.mem_singleton.mp new]
          exact last.2
      · intro other member
        cases member

/-- The divisors are put in force while nothing that runs under others is on its way. -/
theorem Pl011.Faithful.latch (faithful : s.Faithful) (barrier : s.held ≠ s.divisor → s.Idle) :
    s.latch.Faithful := by
  by_cases same : s.held = s.divisor
  · refine ⟨faithful.line, ?_, ?_, faithful.kept.latch⟩
    · intro frame member
      obtain ⟨old, busy, latched⟩ := Option.map_eq_some_iff.mp member
      have before := faithful.shift old busy
      rw [← latched]
      refine ⟨before.1.trans same.symm, ?_⟩
      intro d member
      rcases List.mem_append.mp member with earlier | last
      · exact before.2 d earlier
      · rw [List.mem_singleton.mp last, same]
        exact before.1.symm
    · intro entry member
      exact (faithful.fifo entry member).trans same.symm
  · have idle := barrier same
    refine ⟨faithful.line, ?_, ?_, faithful.kept.latch⟩
    · simp [Pl011.latch, idle.2]
    · simp [Pl011.latch, idle.1]

/-- A register write keeps faith if it changes the divisor over an idle transmitter
only, empties no FIFO and writes no byte that does not fit. -/
theorem Pl011.Faithful.store (faithful : s.Faithful) {offset value : Reg}
    (barrier : BarrierStep s (s.store depth offset value))
    (room : offset = pl011DR → s.fifo.length < depth)
    (keepsFifo : offset = pl011LCRH → value &&& pl011LcrhFEN ≠ 0) :
    (s.store depth offset value).Faithful := by
  have kept := faithful.kept.store room keepsFifo
  unfold Pl011.store at *
  split_ifs at * with dr full ibrd fbrd lcrh flushes cr
  · refine ⟨faithful.line, faithful.shift, ?_, kept⟩
    intro entry member
    rcases List.mem_append.mp member with old | new
    · exact faithful.fifo entry old
    · rw [List.mem_singleton.mp new]
  · exact absurd (room dr) full
  · exact ⟨faithful.line, faithful.shift, faithful.fifo, kept⟩
  · exact ⟨faithful.line, faithful.shift, faithful.fifo, kept⟩
  · exact absurd flushes (keepsFifo lcrh)
  · exact faithful.latch barrier
  · exact ⟨faithful.line, faithful.shift, faithful.fifo, kept⟩
  · exact faithful

theorem Pl011.store_lcrh (depth : Nat) (s : Pl011) (value : Reg) :
    s.store depth pl011LCRH value =
      { s.latch with fifo := if value &&& pl011LcrhFEN = 0 then [] else s.fifo } := rfl

theorem Pl011.store_divisor (depth : Nat) (s : Pl011) {offset : Reg} (value : Reg)
    (other : offset ≠ pl011LCRH) : (s.store depth offset value).divisor = s.divisor := by
  unfold Pl011.store
  rw [if_neg other]
  split_ifs <;> rfl

/-- Conversely, a change of the divisor over a busy transmitter breaks faith. -/
theorem Pl011.Faithful.barrier (faithful : s.Faithful) {offset value : Reg}
    (after : (s.store depth offset value).Faithful) :
    BarrierStep s (s.store depth offset value) := by
  intro changed
  by_cases lcrh : offset = pl011LCRH
  · subst lcrh
    rw [Pl011.store_lcrh] at after changed
    have empty : s.shift = none := by
      cases busy : s.shift with
      | none => rfl
      | some frame =>
          have before := faithful.shift frame busy
          have latched := after.shift { frame with under := frame.under ++ [s.held] }
            (by simp [Pl011.latch, busy])
          exact absurd (latched.1.symm.trans before.1) changed
    have drained : s.fifo = [] := by
      cases waiting : s.fifo with
      | nil => rfl
      | cons entry rest =>
          by_cases flushed : value &&& pl011LcrhFEN = 0
          · -- the bytes of the FIFO are gone
            have kept := after.kept
            have before := faithful.kept
            unfold Pl011.Kept at kept before
            simp [Pl011.latch, empty, flushed] at kept
            simp [empty, waiting, kept] at before
          · have before := faithful.fifo entry (waiting ▸ List.mem_cons_self)
            rw [if_neg flushed] at after
            have latched := after.fifo entry (waiting ▸ List.mem_cons_self)
            exact absurd (latched.symm.trans before) changed
    exact ⟨drained, empty⟩
  · exact absurd (s.store_divisor depth value lcrh) changed

theorem Pl011.Moves.length_le (moved : Pl011.Moves s t) : t.fifo.length ≤ s.fifo.length := by
  cases moved with
  | @load byte written rest transmits free first => simp [first]
  | finish busy => exact Nat.le_refl _

theorem Pl011.Moves.barrier (moved : Pl011.Moves s t) : BarrierStep s t := by
  cases moved <;> exact fun changed => absurd rfl changed

/-- One step of the pool keeps faith just if it is none that changes the divisor over a
busy transmitter, given that a byte is only written where there is room. -/
theorem Pl011.Faithful.barrier_of_step {pool pool' : Pool Io Io.Answer Fault Unit}
    (faithful : s.Faithful) (step : Pool.Step (pl011 depth) (pool, s) (pool', t))
    (after : t.Faithful) : BarrierStep s t := by
  cases step with
  | drift moved => exact moved.barrier
  | ask answered =>
      rcases pl011_answered answered with rfl | ⟨base, offset, value, _, rfl⟩
      · exact fun changed => absurd rfl changed
      · exact faithful.barrier after

/-- The device, as long as its steps respect the barrier. -/
def barredPl011 (depth : Nat) : World Io Io.Answer Pl011 := (pl011 depth).restrict BarrierStep

theorem Pl011.Faithful.drifts (s t : Pl011) (moved : (barredPl011 depth).drift s t)
    (faithful : s.Faithful) : t.Faithful := faithful.moves moved.1

theorem Pl011.Faithful.silent (s : Pl011) (q : Io) (answer : q.Answer) (t : Pl011)
    (silent : q.Silent regs) (answered : (barredPl011 depth).answers s q answer t)
    (faithful : s.Faithful) : t.Faithful := by
  obtain ⟨answered, barrier⟩ := answered
  rcases pl011_answered answered with rfl | ⟨base, offset, value, rfl, rfl⟩
  · exact faithful
  · exact faithful.store barrier (fun dr => absurd dr silent.2.1) silent.2.2

/-- When the wait for room has not given up, there is room, and it stays. -/
theorem wp_waitTx (timeout : Nat) (s : Pl011) (faithful : s.Faithful) :
    (waitWhile (do return txFull (← regRead regs pl011FR)) timeout).wp (barredPl011 depth)
      (fun s _ => s.Faithful)
      (Program.onOk (fun left t => t.Faithful ∧ (0 ≤ left → t.fifo.length < depth))
        (fun (_ : Except Fault Unit) t => t.Faithful)) s := by
  induction timeout generalizing s with
  | zero =>
      rw [waitWhile_lastPoll]
      apply Program.wp_ask_of_stable Pl011.Faithful.drifts faithful (fun _ held => held)
      intro t fr t' held answered
      obtain ⟨⟨rfl, shows⟩, _⟩ := answered
      cases full : txFull fr with
      | true => exact ⟨held, fun late => absurd late (by decide)⟩
      | false => exact ⟨held, fun _ => (shows rfl).1.mp (txFull_false.mp full)⟩
  | succ timeout ih =>
      rw [waitWhile_poll]
      apply Program.wp_ask_of_stable Pl011.Faithful.drifts faithful (fun _ held => held)
      intro t fr t' held answered
      obtain ⟨⟨rfl, shows⟩, _⟩ := answered
      cases full : txFull fr with
      | true =>
          apply Program.wp_ask_of_stable Pl011.Faithful.drifts held (fun _ held => held)
          intro u _ u' held delayed
          cases delayed.1
          exact ih u held
      | false => exact ⟨held, fun _ => (shows rfl).1.mp (txFull_false.mp full)⟩

/-- The calls meet the guard from any faithful state and leave one. -/
abbrev KeepsFaith (depth : Nat) (calls : Kext Unit) : Prop :=
  calls.Preserves (barredPl011 depth) (fun s _ => s.Faithful) Pl011.Faithful

theorem ioLog_keepsFaith (format : String) (values : List Nat) :
    KeepsFaith depth (ioLog format values) := by
  have silent : (ioLog format values).Asks (Io.Silent 0) (fun _ => True) :=
    ⟨trivial, fun _ => trivial⟩
  exact silent.preserves Pl011.Faithful.drifts Pl011.Faithful.silent (fun _ _ _ held => held)

theorem putChar_keepsFaith (regs : Word) (c : Byte) : KeepsFaith depth (putChar regs c) := by
  intro s faithful
  unfold putChar
  by_cases unmapped : regs = 0
  · rw [if_pos unmapped]
    exact faithful
  · rw [if_neg unmapped, txReady_eq]
    apply (Program.wp_bind _ _ _).mpr
    apply Program.wp_mono (wp_waitTx 100000 s faithful) (fun _ _ held => held)
    intro outcome t reached
    cases outcome with
    | error reason => exact reached
    | ok timeout =>
        show Program.wp _ _ _ (if timeout ≤ 0 then _ else _) t
        by_cases expired : timeout ≤ 0
        · rw [if_pos expired]
          exact ioLog_keepsFaith _ _ t reached.1
        · rw [if_neg expired]
          have room : t.fifo.length < depth := reached.2 (by omega)
          apply Program.wp_ask_of_stable (P := fun t => t.Faithful ∧ t.fifo.length < depth)
            (fun t u (moved : (barredPl011 depth).drift t u) held =>
              ⟨held.1.moves moved.1, Nat.lt_of_le_of_lt moved.1.length_le held.2⟩)
            ⟨reached.1, room⟩ (fun _ held => held.1)
          intro u _ u' held written
          obtain ⟨stored, barrier⟩ := written
          cases stored
          exact held.1.store barrier (fun _ => held.2) (fun lcrh => absurd lcrh (by decide))

theorem putString_keepsFaith (regs : Word) (s : List Byte) :
    KeepsFaith depth (putString regs s) := by
  induction s with
  | nil => exact fun _ faithful => faithful
  | cons c s ih =>
      have rest : KeepsFaith depth (do putChar regs c; putString regs s) :=
        (putChar_keepsFaith regs c).bind (fun _ => ih)
      unfold putString
      by_cases newline : c = BitVec.ofNat 8 '\n'.toNat
      · rw [if_pos newline]
        exact (putChar_keepsFaith regs _).bind (fun _ => rest)
      · rw [if_neg newline]
        exact rest

theorem setBaud_keepsFaith (limit : Nat) (regs : Word) (baud : Reg) :
    KeepsFaith depth (setBaud limit regs baud) := by
  apply (ioLog_keepsFaith _ _).bind
  intro _
  exact (hwInit_silent limit baud).preserves Pl011.Faithful.drifts Pl011.Faithful.silent
    (fun _ _ _ held => held)

theorem uartCalls_keepsFaith (limit : Nat) (regs : Word) (calls : List UartCall) :
    KeepsFaith depth (uartCalls limit regs calls) := by
  induction calls with
  | nil => exact fun _ faithful => faithful
  | cons call rest ih =>
      cases call with
      | putChar c => exact (putChar_keepsFaith regs c).bind (fun _ => ih)
      | putString s => exact (putString_keepsFaith regs s).bind (fun _ => ih)
      | setBaud baud => exact (setBaud_keepsFaith limit regs baud).bind (fun _ => ih)

/-- As long as the divisor is not changed over a busy transmitter, calls keep faith. -/
theorem uartCalls_faithful {calls : List UartCall} {config : Pool Io Io.Answer Fault Unit × Pl011}
    (faithful : s.Faithful)
    (reached : Pool.Reachable (pl011 depth) (fun a b => BarrierStep a.2 b.2)
      ([uartCalls limit regs calls], s) config) : config.2.Faithful := by
  have initially : Program.wp (barredPl011 depth) _ _ _ s :=
    uartCalls_keepsFaith limit regs calls s faithful
  exact reached.alone_holds (P := Pl011.Faithful) (fun _ _ admitted => admitted)
    (fun _ s t moved => Pl011.Faithful.drifts s t moved) initially (fun _ _ held => held)
    (fun _ _ held => held)

section

variable {admits : Pool Io Io.Answer Fault Unit × Pl011 → Pool Io Io.Answer Fault Unit × Pl011 → Prop}
  (admitted : ∀ a b, b.2.divisor = a.2.divisor → admits a b)
include admitted

/-- Where FR shows room, a call of `put_char` sends its byte. -/
theorem putChar_sends {c : Byte} {next : Unit → Kext Unit} {fr : Reg} (mapped : regs ≠ 0)
    (shown : s.Shows depth fr) (clear : txFull fr = false) :
    Pool.Reachable (pl011 depth) admits ([(putChar regs c).bind next], s)
      ([next ()], s.store depth pl011DR (c.setWidth 32)) := by
  unfold putChar
  rw [if_neg mapped, txReady_eq, waitWhile_poll]
  have polled : (pl011 depth).answers s (.read regs pl011FR) fr s := ⟨rfl, fun _ => shown⟩
  apply Pool.Reachable.asking polled (admitted _ _ rfl)
  dsimp only
  rw [clear]
  have sent : (pl011 depth).answers s (.write regs pl011DR (c.setWidth 32)) () _ := rfl
  exact Pool.Reachable.asking sent (admitted _ _ rfl) .refl

end

/-- Where the flag stays set, the wait gives up, and nothing has changed. -/
theorem waitWhile_expires (flag : Reg → Bool) {next : Int → Kext Unit} {fr : Reg}
    (shown : s.Shows depth fr) (set : flag fr = true) (timeout : Nat) :
    Pool.Reachable (pl011 depth) (fun _ _ => True)
      ([(waitWhile (do return flag (← regRead regs pl011FR)) timeout).bind next], s)
      ([next (-1)], s) := by
  have polled : (pl011 depth).answers s (.read regs pl011FR) fr s := ⟨rfl, fun _ => shown⟩
  induction timeout with
  | zero =>
      rw [waitWhile_lastPoll]
      apply Pool.Reachable.asking polled trivial
      dsimp only
      rw [if_pos set]
      exact .refl
  | succ timeout ih =>
      rw [waitWhile_poll]
      apply Pool.Reachable.asking polled trivial
      dsimp only
      rw [if_pos set]
      have delayed : (pl011 depth).answers s (.delay 1) () s := rfl
      exact Pool.Reachable.asking delayed trivial ih

def Pl011.storeAll (depth : Nat) (s : Pl011) (writes : List (Reg × Reg)) : Pl011 :=
  writes.foldl (fun s write => s.store depth write.1 write.2) s

/-- A block of register writes, where every one of them is admitted. -/
theorem regWrites_reach
    {admits : Pool Io Io.Answer Fault Unit × Pl011 → Pool Io Io.Answer Fault Unit × Pl011 → Prop}
    {I : Pl011 → Prop} {writes : List (Reg × Reg)} {next : Unit → Kext Unit}
    (keeps : ∀ write ∈ writes, ∀ s, I s → I (s.store depth write.1 write.2) ∧
      ∀ pool pool', admits (pool, s) (pool', s.store depth write.1 write.2)) (start : I s) :
    Pool.Reachable (pl011 depth) admits ([(regWrites regs writes).bind next], s)
      ([next ()], s.storeAll depth writes) := by
  induction writes generalizing s with
  | nil => exact .refl
  | cons write rest ih =>
      have written : (pl011 depth).answers s (.write regs write.1 write.2) ()
        (s.store depth write.1 write.2) := rfl
      obtain ⟨kept, admitted⟩ := keeps write List.mem_cons_self s start
      exact Pool.Reachable.asking written (admitted _ _)
        (ih (fun write member => keeps write (List.mem_cons_of_mem _ member)) kept)

/-- With a byte stuck in the transmitter `hw_init` makes its writes all the same. -/
theorem hwInit_expires {baud fr : Reg} {next : Unit → Kext Unit} (nonzero : baud16 baud ≠ 0)
    (shown : (s.store depth pl011CR 0).Shows depth fr) (busy : txBusy fr = true)
    (empty : fr &&& pl011FrRXFE ≠ 0) :
    Pool.Reachable (pl011 depth) (fun _ _ => True)
      ([(hwInit (limit + 1) regs baud).bind next], s)
      ([next ()], (s.store depth pl011CR 0).storeAll depth (hwInitWrites baud)) := by
  have disabled : (pl011 depth).answers s (.write regs pl011CR 0) () (s.store depth pl011CR 0) := rfl
  have polled : (pl011 depth).answers (s.store depth pl011CR 0) (.read regs pl011FR) fr
    (s.store depth pl011CR 0) := ⟨rfl, fun _ => shown⟩
  have quiet : decide (fr &&& pl011FrRXFE = 0) = false := decide_eq_false empty
  rw [hwInit_eq _ _ nonzero, Program.ask_bind]
  apply Pool.Reachable.asking disabled trivial
  rw [Program.bind_assoc, uartBusy_eq]
  apply Relation.ReflTransGen.trans (waitWhile_expires txBusy shown busy 100000)
  dsimp only
  rw [Program.bind_assoc, drainRx_poll]
  apply Pool.Reachable.asking polled trivial
  dsimp only
  rw [quiet, Program.bind_assoc]
  apply Relation.ReflTransGen.trans (regWrites_reach (I := fun _ => True)
    (fun _ _ _ _ => ⟨trivial, fun _ _ => trivial⟩) trivial)
  have logged : ∀ t format values, (pl011 depth).answers t (.log format values) () t :=
    fun _ _ _ => rfl
  exact Pool.Reachable.asking (logged _ _ _) trivial .refl

/-- Where the transmitter is idle and enabled, a byte can go out before the next call. -/
theorem putChar_serialised {c : Byte} {next : Unit → Kext Unit} {fr : Reg} (mapped : regs ≠ 0)
    (idle : s.Idle) (transmits : s.transmits = true) (room : 0 < depth) (shown : s.Shows depth fr) :
    Pool.Reachable (pl011 depth) (fun a b => BarrierStep a.2 b.2)
      ([(putChar regs c).bind next], s)
      ([next ()], { s with
        line := s.line ++ [⟨c, s.divisor, [s.divisor]⟩]
        sent := s.sent ++ [c] }) := by
  obtain ⟨empty, free⟩ := idle
  let loaded : Pl011 := { s with fifo := [(c, s.divisor)], sent := s.sent ++ [c] }
  let busy : Pl011 := { loaded with fifo := [], shift := some ⟨c, s.divisor, [s.divisor]⟩ }
  let out : Pl011 :=
    { busy with shift := none, line := s.line ++ [⟨c, s.divisor, [s.divisor]⟩] }
  have fits : s.fifo.length < depth := by rwa [empty]
  have byte : (c.setWidth 32).setWidth 8 = c := BitVec.setWidth_setWidth_of_le c (by decide)
  have stored : s.store depth pl011DR (c.setWidth 32) = loaded := by
    rw [Pl011.store, if_pos rfl, if_pos fits, byte, empty, List.nil_append]
  have sends := @putChar_sends depth regs s (fun a b => BarrierStep a.2 b.2)
    (fun _ _ same changed => absurd same changed) c next fr mapped shown
    (txFull_false.mpr (shown.1.mpr fits))
  rw [stored] at sends
  have taken : Pl011.Moves loaded busy := .load transmits free rfl
  have finished : Pl011.Moves busy out := .finish rfl
  have last : out = { s with
      line := s.line ++ [⟨c, s.divisor, [s.divisor]⟩], sent := s.sent ++ [c] } := by
    simp only [out, busy, loaded, empty, free]
  rw [← last]
  exact sends.trans (Pool.Reachable.drifting taken taken.barrier
    (Pool.Reachable.drifting finished finished.barrier .refl))

/-- What is no byte leaves an idle transmitter idle. -/
theorem Pl011.Idle.store (idle : s.Idle) {offset : Reg} (value : Reg) (other : offset ≠ pl011DR) :
    (s.store depth offset value).Idle := by
  obtain ⟨empty, free⟩ := idle
  unfold Pl011.store Pl011.Idle
  rw [if_neg other]
  split_ifs <;> simp [Pl011.latch, empty, free]

/-- Over an idle transmitter `hw_init` changes the divisor as the barrier asks. -/
theorem hwInit_idle {baud fr : Reg} {next : Unit → Kext Unit} (nonzero : baud16 baud ≠ 0)
    (idle : s.Idle) (shown : (s.store depth pl011CR 0).Shows depth fr)
    (empty : fr &&& pl011FrRXFE ≠ 0) :
    Pool.Reachable (pl011 depth) (fun a b => BarrierStep a.2 b.2)
      ([(hwInit (limit + 1) regs baud).bind next], s)
      ([next ()], (s.store depth pl011CR 0).storeAll depth (hwInitWrites baud)) := by
  have off : (s.store depth pl011CR 0).Idle := idle.store 0 (by decide)
  have disabled : (pl011 depth).answers s (.write regs pl011CR 0) () (s.store depth pl011CR 0) := rfl
  have polled : (pl011 depth).answers (s.store depth pl011CR 0) (.read regs pl011FR) fr
    (s.store depth pl011CR 0) := ⟨rfl, fun _ => shown⟩
  have still : txBusy fr = false := decide_eq_false (not_not.mpr (shown.2.mpr off))
  have quiet : decide (fr &&& pl011FrRXFE = 0) = false := decide_eq_false empty
  have same : ∀ t : Pl011, BarrierStep t t := fun _ changed => absurd rfl changed
  rw [hwInit_eq _ _ nonzero, Program.ask_bind]
  apply Pool.Reachable.asking disabled (fun _ => idle)
  rw [Program.bind_assoc, uartBusy_eq, waitWhile_poll]
  apply Pool.Reachable.asking polled (same _)
  dsimp only
  rw [still, Program.bind_assoc, drainRx_poll]
  apply Pool.Reachable.asking polled (same _)
  dsimp only
  rw [quiet, Program.bind_assoc]
  have offsets : pl011DR ∉ [pl011IBRD, pl011FBRD, pl011LCRH, pl011IMSC, pl011ICR, pl011CR] := by
    decide
  have others : ∀ write ∈ hwInitWrites baud, write.1 ≠ pl011DR :=
    fun write member same => offsets (same ▸ List.mem_map_of_mem (f := Prod.fst) member)
  apply Relation.ReflTransGen.trans (regWrites_reach (I := Pl011.Idle)
    (fun write member t idle => ⟨idle.store _ (others write member), fun _ _ _ => idle⟩) off)
  have logged : ∀ t format values, (pl011 depth).answers t (.log format values) () t :=
    fun _ _ _ => rfl
  exact Pool.Reachable.asking (logged _ _ _) (same _) .refl

end

/-- A byte that waits in the FIFO while the baud rate changes goes out at the new rate:
with the transmitter off it does not move, and the wait for it gives up. -/
theorem setBaud_overtakes : ∃ config,
    Pool.Reachable (pl011 16) (fun _ _ => True)
      ([uartCalls 1 kDefaultUARTBase [.putChar 65, .setBaud 9600]],
        .idle (baudDivisors juliusUartBaud)) config ∧
      ∃ frame ∈ config.2.line, ∃ d ∈ frame.under, d ≠ frame.written := by
  let ready : Pl011 := .idle (baudDivisors juliusUartBaud)
  let loaded : Pl011 := ready.store 16 pl011DR 65
  let changed : Pl011 := (loaded.store 16 pl011CR 0).storeAll 16 (hwInitWrites 9600)
  let late : Frame := ⟨65, baudDivisors juliusUartBaud, [baudDivisors 9600]⟩
  have sends : Pool.Reachable (pl011 16) (fun _ _ => True)
      ([uartCalls 1 kDefaultUARTBase [.putChar 65, .setBaud 9600]], ready)
      ([uartCalls 1 kDefaultUARTBase [.setBaud 9600]], loaded) := by
    have shown : ready.Shows 16 0x10 := ⟨by decide, by decide⟩
    exact putChar_sends (fun _ _ _ => trivial) (by decide) shown (by decide)
  have waits : Pool.Reachable (pl011 16) (fun _ _ => True)
      ([uartCalls 1 kDefaultUARTBase [.setBaud 9600]], loaded)
      ([uartCalls 1 kDefaultUARTBase []], changed) := by
    have shown : (loaded.store 16 pl011CR 0).Shows 16 0x18 := ⟨by decide, by decide⟩
    have logged : ∀ format values, (pl011 16).answers loaded (.log format values) () loaded :=
      fun _ _ => rfl
    apply Pool.Reachable.asking (logged _ _) trivial
    exact hwInit_expires (by decide) shown (by decide) (by decide)
  have leaves : Pool.Reachable (pl011 16) (fun _ _ => True)
      ([uartCalls 1 kDefaultUARTBase []], changed)
      ([uartCalls 1 kDefaultUARTBase []], { changed with fifo := [], shift := none, line := [late] }) := by
    have taken : Pl011.Moves changed
      { changed with fifo := [], shift := some late } := .load (by decide) rfl rfl
    have finished : Pl011.Moves { changed with fifo := [], shift := some late }
      { changed with fifo := [], shift := none, line := [late] } := .finish rfl
    exact Pool.Reachable.drifting taken trivial (Pool.Reachable.drifting finished trivial .refl)
  exact ⟨_, (sends.trans waits).trans leaves, late, List.mem_singleton.mpr rfl, baudDivisors 9600,
    List.mem_singleton.mpr rfl, by decide⟩

/-- Every byte goes out under the divisor it was written under, and none is lost, as
long as the divisor is only changed over an idle transmitter; and the first change that
finds it busy puts an end to that. -/
theorem setBaud_barrier (depth limit : Nat) (regs : Word) (calls : List UartCall) (s : Pl011)
    (faithful : s.Faithful) (config : Pool Io Io.Answer Fault Unit × Pl011)
    (reached : Pool.Reachable (pl011 depth) (fun a b => BarrierStep a.2 b.2)
      ([uartCalls limit regs calls], s) config) :
    config.2.Faithful ∧ ∀ next, Pool.Step (pl011 depth) config next →
      (next.2.Faithful ↔ BarrierStep config.2 next.2) := by
  have held : config.2.Faithful := uartCalls_faithful faithful reached
  refine ⟨held, ?_⟩
  intro next step
  constructor
  · exact held.barrier_of_step step
  · intro barrier
    exact uartCalls_faithful faithful (reached.tail ⟨step, barrier⟩)

/-- A byte at 115200 baud, a change to 9600 baud once it is out, and another byte. -/
theorem setBaud_barrier_changed : ∃ config : Pool Io Io.Answer Fault Unit × Pl011,
    Pool.Reachable (pl011 16) (fun a b => BarrierStep a.2 b.2)
      ([uartCalls 1 kDefaultUARTBase [.putChar 65, .setBaud 9600, .putChar 66]],
        .idle (baudDivisors juliusUartBaud)) config ∧
      config.2.line = [⟨65, baudDivisors juliusUartBaud, [baudDivisors juliusUartBaud]⟩,
        ⟨66, baudDivisors 9600, [baudDivisors 9600]⟩] ∧ config.2.Faithful := by
  let ready : Pl011 := .idle (baudDivisors juliusUartBaud)
  let first : Frame := ⟨65, baudDivisors juliusUartBaud, [baudDivisors juliusUartBaud]⟩
  let out : Pl011 := { ready with line := [first], sent := [65] }
  let changed : Pl011 := (out.store 16 pl011CR 0).storeAll 16 (hwInitWrites 9600)
  have mapped : kDefaultUARTBase ≠ 0 := by decide
  have sends : Pool.Reachable (pl011 16) (fun a b => BarrierStep a.2 b.2)
      ([uartCalls 1 kDefaultUARTBase [.putChar 65, .setBaud 9600, .putChar 66]], ready)
      ([uartCalls 1 kDefaultUARTBase [.setBaud 9600, .putChar 66]], out) := by
    have shown : ready.Shows 16 0x10 := ⟨by decide, by decide⟩
    exact putChar_serialised mapped ⟨rfl, rfl⟩ (by decide) (by decide) shown
  have changes : Pool.Reachable (pl011 16) (fun a b => BarrierStep a.2 b.2)
      ([uartCalls 1 kDefaultUARTBase [.setBaud 9600, .putChar 66]], out)
      ([uartCalls 1 kDefaultUARTBase [.putChar 66]], changed) := by
    have shown : (out.store 16 pl011CR 0).Shows 16 0x10 := ⟨by decide, by decide⟩
    have logged : ∀ format values, (pl011 16).answers out (.log format values) () out :=
      fun _ _ => rfl
    apply Pool.Reachable.asking (logged _ _) (fun changed => absurd rfl changed)
    exact hwInit_idle (by decide) ⟨rfl, rfl⟩ shown (by decide)
  have sendsAgain := by
    have shown : changed.Shows 16 0x10 := ⟨by decide, by decide⟩
    exact @putChar_serialised 16 kDefaultUARTBase changed 66
      (fun _ => uartCalls 1 kDefaultUARTBase []) _ mapped ⟨rfl, rfl⟩ (by decide) (by decide) shown
  have reached := (sends.trans changes).trans sendsAgain
  exact ⟨_, reached, rfl, (setBaud_barrier 16 1 kDefaultUARTBase
    [.putChar 65, .setBaud 9600, .putChar 66] ready (.idle _) _ reached).1⟩

end Julius
