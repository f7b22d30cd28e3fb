import Julius.Lib.LastWrite
import Julius.Kext.Receiving

set_option autoImplicit false

/- The registers of the PL011 when `hw_init` runs on behalf of several callers at once. -/
namespace Julius

open Interact

/-- The registers as they were last written. -/
abbrev RegisterFile := Reg → Reg

/-- What a register reads as is up to the device. -/
def registerFile : World Io Io.Answer RegisterFile where
  answers s q _ t := match q with
    | .write _ offset value => t = Function.update s offset value
    | _ => t = s
  drift _ _ := False

/-- The value a query writes to the register `r`. -/
def Io.writesTo (r : Reg) : Io → Option Reg
  | .write _ offset value => if offset = r then some value else none
  | _ => none

/-- The registers that may only be written while the UART is off. -/
def Io.Configures : Io → Prop
  | .write _ offset _ => offset = pl011IBRD ∨ offset = pl011FBRD ∨ offset = pl011LCRH
  | _ => False

/-- A query that leaves the set-up of the UART alone. -/
def Io.Idle : Io → Prop
  | .write _ offset _ => offset = pl011DR
  | _ => True

/-- What `hw_init` leaves in LCRH and CR. -/
def lcrhSet : Reg := pl011LcrhWLEN8 ||| pl011LcrhFEN

def crSet : Reg := pl011CrTXE ||| pl011CrRXE ||| pl011CrUARTEN

def RxCall.Quiet : RxCall → Prop
  | .uart (.setBaud _) => False
  | _ => True

section

variable {limit : Nat} {regs : Word} {s t : RegisterFile} {stops : Fault → Prop}

theorem registerFile_cell (r : Reg) : registerFile.Cell (Io.writesTo r) (fun s => s r) where
  drift _ _ moved := moved.elim
  answers := by
    intro s q answer t answered
    cases q with
    | write base offset value =>
        have stored : t = Function.update s offset value := answered
        subst stored
        show Function.update s offset value r = Option.getD (ite (offset = r) _ _) (s r)
        by_cases same : offset = r
        · rw [if_pos same, same]
          exact Function.update_self _ _ _
        · rw [if_neg same]
          exact Function.update_of_ne (Ne.symm same) _ _
    | _ => exact congrFun answered r

theorem Io.Idle.sending (regs : Word) : AllowsSending regs Io.Idle :=
  ⟨trivial, trivial, fun _ _ => trivial, fun _ => rfl⟩

theorem getChar_reads {allowed : Io → Prop} (reads : ∀ offset, allowed (.read regs offset)) :
    (getChar regs).Asks allowed stops := by
  by_cases unmapped : regs = 0
  · unfold getChar
    rw [if_pos unmapped]
    trivial
  · rw [getChar_poll unmapped]
    refine ⟨reads _, fun fr => ?_⟩
    dsimp only
    split
    · exact ⟨reads _, fun _ => trivial⟩
    · trivial

theorem drainRx_reads {allowed : Io → Prop} (reads : ∀ offset, allowed (.read regs offset))
    (limit : Nat) : (drainRx regs limit).Asks allowed (fun _ => True) := by
  induction limit with
  | zero => trivial
  | succ limit ih =>
      rw [drainRx_poll]
      refine ⟨reads _, fun fr => ?_⟩
      dsimp only
      split
      · exact ⟨reads _, fun _ => ih⟩
      · trivial

theorem getChar_idle : (getChar regs).Asks Io.Idle stops := getChar_reads (fun _ => trivial)

/-- The callers that set no rate. -/
theorem rxCalls_idle {calls : List RxCall} (quiet : ∀ call ∈ calls, call.Quiet) :
    (rxCalls limit regs calls).Asks Io.Idle stops := by
  induction calls with
  | nil => trivial
  | cons call rest ih =>
      have later := ih (fun other member => quiet other (List.mem_cons_of_mem _ member))
      have first := quiet call List.mem_cons_self
      cases call with
      | getChar => exact getChar_idle.bind (fun _ => later.bind (fun _ => trivial))
      | uart call =>
          have sends : call.Sends := by
            cases call with
            | setBaud baud => exact first
            | _ => trivial
          exact ((Io.Idle.sending regs).uartCall limit sends).bind (fun _ => later)

theorem Io.Idle.writesTo {r : Reg} (other : r ≠ pl011DR) (q : Io) (idle : q.Idle) :
    q.writesTo r = none := by
  cases q with
  | write base offset value =>
      have data : offset = pl011DR := idle
      exact if_neg (fun same => other (same.symm.trans data))
  | _ => rfl

/-- `hw_init` from the division on. -/
def hwInitRest (regs : Word) (baud : Reg) : Kext Unit :=
  if baud16 baud = 0 then .halt .divideByZero
  else (regWrites regs (hwInitWrites baud)).bind (fun _ =>
    ioLog "JuliusSerial: PL011 configured: %u baud, IBRD=%u FBRD=%u\n"
      [baud.toNat, (baudDivisors baud).1.toNat, (baudDivisors baud).2.toNat])

theorem hwInit_parts (limit : Nat) (regs : Word) (baud : Reg) :
    hwInit limit regs baud = .ask (.write regs pl011CR 0) (fun _ =>
      (waitWhile (uartBusy regs) 100000).bind (fun _ =>
        (drainRx regs limit).bind (fun _ => hwInitRest regs baud))) := by
  unfold hwInit hwInitRest
  by_cases zero : baud16 baud = 0
  · simp only [zero, ↓reduceIte]
    rfl
  · simp only [zero, ↓reduceIte]
    rfl

/-- A rate that has been set leaves its own last writes behind, unless the division stops it. -/
theorem setBaud_leaves {r : Reg} {good : Reg → Prop} {settled : Prop} {baud : Reg}
    (rest : (regWrites regs (hwInitWrites baud)).Leaves (Io.writesTo r) good False) :
    (setBaud limit regs baud).Leaves (Io.writesTo r) good settled := by
  apply Program.Leaves.of_rest
  intro _
  rw [hwInit_parts]
  intro _
  apply Program.Leaves.of_rest
  intro _
  apply Program.Leaves.of_rest
  intro _
  unfold hwInitRest
  split
  · trivial
  · exact rest.bind (fun _ _ => trivial)

/-- The rates that a caller sets. -/
def bauds (calls : List RxCall) : List Reg :=
  calls.filterMap (fun call => match call with
    | .uart (.setBaud baud) => some baud
    | _ => none)

section

variable {r : Reg} {good : Reg → Prop} (other : r ≠ pl011DR)
include other

theorem rxCalls_leaves {calls : List RxCall}
    (writes : ∀ baud ∈ bauds calls,
      (regWrites regs (hwInitWrites baud)).Leaves (Io.writesTo r) good False) :
    (rxCalls limit regs calls).Leaves (Io.writesTo r) good (bauds calls = []) := by
  induction calls with
  | nil => exact rfl
  | cons call rest ih =>
      have silent := Io.Idle.writesTo other
      cases call with
      | getChar =>
          have asks : (getChar regs).Asks Io.Idle (fun _ => True) := getChar_idle
          exact asks.leaves_bind silent (fun _ => (ih writes).bind (fun _ => trivial))
      | uart call =>
          have sent : call.Sends → bauds (.uart call :: rest) = bauds rest →
              (rxCalls limit regs (.uart call :: rest)).Leaves (Io.writesTo r) good
                (bauds (.uart call :: rest) = []) := by
            intro sends same
            rw [same] at writes ⊢
            have asks : (uartCalls limit regs [call]).Asks Io.Idle (fun _ => True) :=
              (Io.Idle.sending regs).uartCall limit sends
            exact asks.leaves_bind silent (fun _ => ih writes)
          cases call with
          | putChar c => exact sent trivial rfl
          | putString s => exact sent trivial rfl
          | setBaud baud =>
              have later := ih (fun other member => writes other (List.mem_cons_of_mem _ member))
              have set := @setBaud_leaves limit regs r good False baud
                (writes baud List.mem_cons_self)
              have first : (uartCalls limit regs [.setBaud baud]).Leaves (Io.writesTo r) good False :=
                set.bind (fun _ => trivial)
              have both := first.bind (fun _ => later.mono (fun _ => trivial))
              exact both.mono False.elim

/-- When every caller has returned, a register that `hw_init` writes holds what the last of
its runs to write it wrote there. -/
theorem settled_register {callers : List (List RxCall)}
    {config : Pool Io Io.Answer Fault (List Byte) × RegisterFile}
    (writes : ∀ calls ∈ callers, ∀ baud ∈ bauds calls,
      (regWrites regs (hwInitWrites baud)).Leaves (Io.writesTo r) good False)
    (some : ∃ calls ∈ callers, bauds calls ≠ [])
    (reached : Pool.Reachable registerFile (fun _ _ => True)
      (callers.map (rxCalls limit regs), s) config)
    (done : ∀ program ∈ config.1, ∃ bytes, program = .ret bytes) : good (config.2 r) := by
  have start : Pool.Settling (Io.writesTo r) (fun s => s r) good
      (callers.map (rxCalls limit regs), s) := by
    constructor
    · intro program member
      obtain ⟨calls, inside, rfl⟩ := List.mem_map.mp member
      exact (rxCalls_leaves other (writes calls inside)).mono (fun _ => trivial)
    · obtain ⟨calls, inside, sets⟩ := some
      exact Or.inr ⟨_, List.mem_map_of_mem inside,
        (rxCalls_leaves other (writes calls inside)).mono (fun none => sets none)⟩
  exact start.returned (registerFile_cell r) reached done

end

/-- Whether there is one caller or many, each divisor register holds the value of one of the
rates asked for. -/
structure RatesSet (callers : List (List RxCall)) (s : RegisterFile) : Prop where
  cr : s pl011CR = crSet
  lcrh : s pl011LCRH = lcrhSet
  imsc : s pl011IMSC = 0
  ibrd : ∃ calls ∈ callers, ∃ baud ∈ bauds calls, s pl011IBRD = (baudDivisors baud).1
  fbrd : ∃ calls ∈ callers, ∃ baud ∈ bauds calls, s pl011FBRD = (baudDivisors baud).2

theorem ratesSet {callers : List (List RxCall)}
    {config : Pool Io Io.Answer Fault (List Byte) × RegisterFile}
    (some : ∃ calls ∈ callers, bauds calls ≠ [])
    (reached : Pool.Reachable registerFile (fun _ _ => True)
      (callers.map (rxCalls limit regs), s) config)
    (done : ∀ program ∈ config.1, ∃ bytes, program = .ret bytes) :
    RatesSet callers config.2 where
  cr := @settled_register limit regs s pl011CR (· = crSet) (by decide) _ _
    (fun _ _ _ _ _ _ _ _ _ _ => rfl) some reached done
  lcrh := @settled_register limit regs s pl011LCRH (· = lcrhSet) (by decide) _ _
    (fun _ _ _ _ _ _ _ _ _ _ => rfl) some reached done
  imsc := @settled_register limit regs s pl011IMSC (· = 0) (by decide) _ _
    (fun _ _ _ _ _ _ _ _ _ _ => rfl) some reached done
  ibrd := @settled_register limit regs s pl011IBRD
    (fun value => ∃ calls ∈ callers, ∃ baud ∈ bauds calls, value = (baudDivisors baud).1)
    (by decide) _ _
    (fun calls inside baud member _ _ _ _ _ _ => ⟨calls, inside, baud, member, rfl⟩)
    some reached done
  fbrd := @settled_register limit regs s pl011FBRD
    (fun value => ∃ calls ∈ callers, ∃ baud ∈ bauds calls, value = (baudDivisors baud).2)
    (by decide) _ _
    (fun calls inside baud member _ _ _ _ _ _ => ⟨calls, inside, baud, member, rfl⟩)
    some reached done

/-- What a caller that sets one rate still has to do from the first divisor on. -/
def setting (regs : Word) (baud : Reg) (writes : List (Reg × Reg)) : Kext (List Byte) :=
  (regWrites regs writes).bind (fun _ =>
    (ioLog "JuliusSerial: PL011 configured: %u baud, IBRD=%u FBRD=%u\n"
      [baud.toNat, (baudDivisors baud).1.toNat, (baudDivisors baud).2.toNat]).bind (fun _ => .ret []))

def storeAll (s : RegisterFile) (writes : List (Reg × Reg)) : RegisterFile :=
  writes.foldl (fun s write => Function.update s write.1 write.2) s

theorem setting_writes {baud : Reg} (writes rest : List (Reg × Reg)) :
    Pool.Reachable registerFile (fun _ _ => True) ([setting regs baud (writes ++ rest)], s)
      ([setting regs baud rest], storeAll s writes) := by
  induction writes generalizing s with
  | nil => exact .refl
  | cons write more ih =>
      have written : registerFile.answers s (.write regs write.1 write.2) ()
        (Function.update s write.1 write.2) := rfl
      exact Pool.Reachable.asking written trivial ih

theorem setting_returns {baud : Reg} (writes : List (Reg × Reg)) :
    Pool.Reachable registerFile (fun _ _ => True) ([setting regs baud writes], s)
      ([.ret []], storeAll s writes) := by
  have logged : ∀ t format values, registerFile.answers t (.log format values) () t :=
    fun _ _ _ => rfl
  have path := @setting_writes regs s baud writes []
  rw [List.append_nil] at path
  exact path.trans (Pool.Reachable.asking (logged _ _ _) trivial .refl)

/-- A device that is idle lets `hw_init` come to its divisors. -/
theorem setBaud_begins {baud : Reg} (nonzero : baud16 baud ≠ 0) :
    Pool.Reachable registerFile (fun _ _ => True)
      ([rxCalls (limit + 1) regs [.uart (.setBaud baud)]], s)
      ([setting regs baud (hwInitWrites baud)], Function.update s pl011CR 0) := by
  have logged : ∀ format values, registerFile.answers s (.log format values) () s :=
    fun _ _ => rfl
  have disabled : registerFile.answers s (.write regs pl011CR 0) () (Function.update s pl011CR 0) :=
    rfl
  have polled : registerFile.answers (Function.update s pl011CR 0) (.read regs pl011FR) (0x10 : Reg)
    (Function.update s pl011CR 0) := rfl
  have shape : rxCalls (limit + 1) regs [.uart (.setBaud baud)] =
      (ioLog "JuliusSerial: changing baud to %u\n" [baud.toNat]).bind (fun _ =>
        ((hwInit (limit + 1) regs baud).bind (fun _ => .ret ())).bind (fun _ => .ret [])) := rfl
  rw [shape]
  apply Pool.Reachable.asking (logged _ _) trivial
  rw [hwInit_eq _ _ nonzero]
  apply Pool.Reachable.asking disabled trivial
  rw [uartBusy_eq, waitWhile_poll, drainRx_poll]
  apply Pool.Reachable.asking polled trivial
  exact Pool.Reachable.asking polled trivial .refl

/-- Two callers between the same two writes: one divisor is the first one's and the other the
second one's. -/
theorem rates_mix {first second : Reg} (nonzero₁ : baud16 first ≠ 0) (nonzero₂ : baud16 second ≠ 0) :
    ∃ config, Pool.Reachable registerFile (fun _ _ => True)
      ([[.uart (.setBaud first)], [.uart (.setBaud second)]].map (rxCalls (limit + 1) regs), s)
        config ∧
      (∀ program ∈ config.1, ∃ bytes, program = .ret bytes) ∧
      config.2 pl011IBRD = (baudDivisors first).1 ∧
      config.2 pl011FBRD = (baudDivisors second).2 := by
  let off := Function.update (Function.update s pl011CR 0) pl011CR 0
  let half := storeAll off [(pl011IBRD, (baudDivisors second).1)]
  let rest := (hwInitWrites second).tail
  have path₁ := (@setBaud_begins limit regs s first nonzero₁).frame []
    [rxCalls (limit + 1) regs [.uart (.setBaud second)]]
  have path₂ := (@setBaud_begins limit regs (Function.update s pl011CR 0) second nonzero₂).frame
    [setting regs first (hwInitWrites first)] []
  have path₃ := (@setting_writes regs off second [(pl011IBRD, (baudDivisors second).1)] rest).frame
    [setting regs first (hwInitWrites first)] []
  have path₄ := (@setting_returns regs half first (hwInitWrites first)).frame []
    [setting regs second rest]
  have path₅ := (@setting_returns regs (storeAll half (hwInitWrites first)) second rest).frame
    [.ret []] []
  refine ⟨_, (((path₁.trans path₂).trans path₃).trans path₄).trans path₅, ?_, rfl, rfl⟩
  intro program member
  simp only [List.nil_append, List.cons_append, List.mem_cons, List.not_mem_nil, or_false] at member
  rcases member with rfl | rfl
  · exact ⟨[], rfl⟩
  · exact ⟨[], rfl⟩

/-- One caller has come to its divisors when the other switches the UART on. -/
theorem rates_overlap {first second : Reg} (nonzero₁ : baud16 first ≠ 0)
    (nonzero₂ : baud16 second ≠ 0) :
    ∃ config value next front back, Pool.Reachable registerFile (fun _ _ => True)
      ([[.uart (.setBaud first)], [.uart (.setBaud second)]].map (rxCalls (limit + 1) regs), s)
        config ∧
      config.1 = front ++ .ask (.write regs pl011IBRD value) next :: back ∧
      config.2 pl011CR = crSet := by
  have path₁ := (@setBaud_begins limit regs s first nonzero₁).frame []
    [rxCalls (limit + 1) regs [.uart (.setBaud second)]]
  have path₂ := (@setBaud_begins limit regs (Function.update s pl011CR 0) second nonzero₂).frame
    [setting regs first (hwInitWrites first)] []
  have path₃ := (@setting_returns regs (Function.update (Function.update s pl011CR 0) pl011CR 0)
    first (hwInitWrites first)).frame [] [setting regs second (hwInitWrites second)]
  exact ⟨_, _, _, [.ret []], [], (path₁.trans path₂).trans path₃, rfl, rfl⟩

end

section

variable {limit : Nat} {regs : Word} {s : RegisterFile}

/-- The registers as one caller sees them among others that set no rate. -/
def sharedRegisters : World Io Io.Answer RegisterFile := registerFile.amid Io.Idle

def Off (s : RegisterFile) : Prop := s pl011CR = 0

/-- The set-up of the UART is only written while it is off. -/
def Guarded (s : RegisterFile) (q : Io) : Prop := q.Configures → Off s

theorem Off.kept {s t : RegisterFile} {q : Io} {answer : q.Answer} (idle : q.Idle)
    (answered : registerFile.answers s q answer t) (off : Off s) : Off t := by
  have kept := (registerFile_cell pl011CR).answers s q answer t answered
  rw [Io.Idle.writesTo (by decide) q idle, Option.getD_none] at kept
  exact kept.trans off

theorem Off.drifts (s t : RegisterFile) (moved : sharedRegisters.drift s t) (off : Off s) :
    Off t := by
  rcases moved with never | ⟨q, answer, idle, answered⟩
  · exact never.elim
  · exact off.kept idle answered

theorem Io.Idle.guarded (s : RegisterFile) (q : Io) (idle : q.Idle) : Guarded s q := by
  intro configures
  cases q with
  | write base offset value =>
      have data : offset = pl011DR := idle
      have others : ¬(pl011DR = pl011IBRD ∨ pl011DR = pl011FBRD ∨ pl011DR = pl011LCRH) := by decide
      subst data
      exact absurd configures others
  | _ => exact configures.elim

/-- A call that leaves the set-up alone can be skipped while the UART is off. -/
theorem wp_offIdle {α : Type} {first : Kext α} {next : α → Kext Unit}
    (asks : first.Asks Io.Idle (fun _ => True)) (off : Off s)
    (rest : ∀ value t, Off t →
      (next value).wp sharedRegisters Guarded (fun _ _ => True) t) :
    (first.bind next).wp sharedRegisters Guarded (fun _ _ => True) s :=
  asks.wp_bind Off.drifts (fun _ _ _ _ idle answered off => off.kept idle answered)
    (fun s q idle _ => idle.guarded s q) off (fun _ _ _ _ => trivial) rest

/-- A write of the set-up while the UART is off leaves it off. -/
theorem wp_offWrite {offset value : Reg} {next : Unit → Kext Unit} (other : offset ≠ pl011CR)
    (off : Off s) (rest : ∀ t, Off t →
      (next ()).wp sharedRegisters Guarded (fun _ _ => True) t) :
    (Program.ask (.write regs offset value) next).wp sharedRegisters Guarded (fun _ _ => True) s := by
  apply Program.wp_ask_of_stable Off.drifts off (fun _ off _ => off)
  intro t _ t' off written
  have stored : t' = Function.update t offset value := written
  subst stored
  exact rest _ ((Function.update_of_ne (Ne.symm other) _ _).trans off)

/-- `hw_init` turns the UART off, sets it up, and turns it on. -/
theorem hwInit_preserves (baud : Reg) :
    (hwInit limit regs baud).Preserves sharedRegisters Guarded (fun _ => True) := by
  intro s _
  have free : ∀ s t : RegisterFile, sharedRegisters.drift s t → True → True := fun _ _ _ _ => trivial
  rw [hwInit_parts]
  have unguarded : ∀ s value, Guarded s (.write regs pl011CR value) := by
    intro s value configures
    have others : ¬(pl011CR = pl011IBRD ∨ pl011CR = pl011FBRD ∨ pl011CR = pl011LCRH) := by decide
    exact absurd configures others
  apply Program.wp_ask_of_stable free trivial (fun t _ => unguarded t 0)
  intro t _ t' _ written
  have stored : t' = Function.update t pl011CR 0 := written
  have off : Off t' := by
    rw [stored]
    exact Function.update_self _ _ _
  have busy : (uartBusy regs).Asks Io.Idle (fun _ => True) := uartBusy_asks trivial
  apply wp_offIdle (waitWhile_asks busy trivial 100000) off
  intro _ u off
  apply wp_offIdle (drainRx_reads (fun _ => trivial) limit) off
  intro _ v off
  unfold hwInitRest
  split
  · trivial
  · refine wp_offWrite (by decide) off fun v off => ?_
    refine wp_offWrite (by decide) off fun v off => ?_
    refine wp_offWrite (by decide) off fun v off => ?_
    refine wp_offWrite (by decide) off fun v off => ?_
    refine wp_offWrite (by decide) off fun v off => ?_
    apply Program.wp_ask_of_stable free trivial (fun t _ => unguarded t _)
    intro w _ w' _ _
    exact Program.wp_ask_of_stable free trivial (fun _ _ => False.elim) (fun _ _ _ _ _ => trivial)

/-- A caller among others that set no rate writes the set-up only while the UART is off. -/
theorem rxCalls_preserves (calls : List RxCall) :
    (rxCalls limit regs calls).Preserves sharedRegisters Guarded (fun _ => True) := by
  have free : ∀ {α : Type} {program : Kext α}, program.Asks Io.Idle (fun _ => True) →
      program.Preserves sharedRegisters Guarded (fun _ => True) := by
    intro α program asks
    exact asks.preserves (fun _ _ _ _ => trivial) (fun _ _ _ _ _ _ _ => trivial)
      (fun s q idle _ => idle.guarded s q)
  induction calls with
  | nil => exact fun _ _ => trivial
  | cons call rest ih =>
      cases call with
      | getChar => exact (free getChar_idle).bind (fun _ => ih.bind (fun _ _ _ => trivial))
      | uart call =>
          have sent : call.Sends →
              (uartCalls limit regs [call]).Preserves sharedRegisters Guarded (fun _ => True) :=
            fun sends => free ((Io.Idle.sending regs).uartCall limit sends)
          have first :
              (uartCalls limit regs [call]).Preserves sharedRegisters Guarded (fun _ => True) := by
            cases call with
            | putChar c => exact sent trivial
            | putString s => exact sent trivial
            | setBaud baud =>
                have logged : (ioLog "JuliusSerial: changing baud to %u\n" [baud.toNat]).Preserves
                    sharedRegisters Guarded (fun _ => True) := free ⟨trivial, fun _ => trivial⟩
                exact (logged.bind (fun _ => hwInit_preserves baud)).bind (fun _ _ _ => trivial)
          exact first.bind (fun _ => ih)

end

/-- As long as one caller alone sets the rate, whatever the others do meanwhile, the divisors
and the line control are only written while the UART is off. As soon as there are two, a
divisor can come to be written while it is on. -/
theorem hwInit_guarded (limit : Nat) (regs : Word) (s : RegisterFile) :
    (∀ (before after : List (List RxCall)) (calls : List RxCall),
      (∀ other ∈ before ++ after, ∀ call ∈ other, RxCall.Quiet call) →
      ∀ config, Pool.Reachable registerFile (fun _ _ => True)
        ((before ++ calls :: after).map (rxCalls limit regs), s) config →
      ∀ q next, .ask q next ∈ config.1 → q.Configures → config.2 pl011CR = 0) ∧
    ∀ first second : Reg, baud16 first ≠ 0 → baud16 second ≠ 0 →
      ∃ config value next, Pool.Reachable registerFile (fun _ _ => True)
        ([[.uart (.setBaud first)], [.uart (.setBaud second)]].map (rxCalls (limit + 1) regs), s)
          config ∧
        .ask (.write regs pl011IBRD value) next ∈ config.1 ∧ config.2 pl011CR = crSet := by
  constructor
  · intro before after calls quiet config reached q next member configures
    rw [List.map_append, List.map_cons] at reached
    have others : ∀ other ∈ before.map (rxCalls limit regs) ++ after.map (rxCalls limit regs),
        other.Asks Io.Idle (fun _ => True) := by
      intro other member
      rw [← List.map_append] at member
      obtain ⟨calls, inside, rfl⟩ := List.mem_map.mp member
      exact rxCalls_idle (quiet calls inside)
    obtain ⟨front, rest, back, shape, _, holds, idle⟩ :=
      Pool.Reachable.among (fun _ _ _ _ held => held) (rxCalls_preserves calls s trivial) others
        reached
    rw [shape] at member
    simp only [List.mem_append, List.mem_cons] at member idle
    rcases member with ahead | rfl | behind
    · exact (idle _ (Or.inl ahead)).1.guarded config.2 q configures
    · exact (holds config.2 .refl).1 configures
    · exact (idle _ (Or.inr behind)).1.guarded config.2 q configures
  · intro first second nonzero₁ nonzero₂
    obtain ⟨config, value, next, front, back, reached, shape, on⟩ :=
      @rates_overlap limit regs s first second nonzero₁ nonzero₂
    refine ⟨config, value, next, reached, ?_, on⟩
    rw [shape]
    simp

/-- A caller that has come to its divisors while another one has not begun to send. -/
theorem hwInit_guarded_one : ∃ config : Pool Io Io.Answer Fault (List Byte) × RegisterFile,
    Pool.Reachable registerFile (fun _ _ => True)
      ([[.uart (.setBaud 9600)], [.uart (.putChar 65)]].map (rxCalls 1 kDefaultUARTBase),
        fun _ => 0x301) config ∧
      (∃ q next, .ask q next ∈ config.1 ∧ q.Configures) ∧ config.2 pl011CR = 0 := by
  have nonzero : baud16 9600 ≠ 0 := by decide
  have path := (@setBaud_begins 0 kDefaultUARTBase (fun _ => 0x301) 9600 nonzero).frame []
    [rxCalls 1 kDefaultUARTBase [.uart (.putChar 65)]]
  have quiet : ∀ other ∈ ([] : List (List RxCall)) ++ [[.uart (.putChar 65)]],
      ∀ call ∈ other, RxCall.Quiet call := by
    intro other member call inside
    rw [List.nil_append, List.mem_singleton] at member
    subst member
    rw [List.mem_singleton] at inside
    subst inside
    trivial
  have guarded := (hwInit_guarded 1 kDefaultUARTBase (fun _ => 0x301)).1 []
    [[.uart (.putChar 65)]] [.uart (.setBaud 9600)] quiet _ path
  have asks : Io.Configures (.write kDefaultUARTBase pl011IBRD (baudDivisors 9600).1) := Or.inl rfl
  exact ⟨_, path, ⟨_, _, List.mem_cons_self, asks⟩, guarded _ _ List.mem_cons_self asks⟩

/-- However many callers set the rate at once, when all have returned the UART is on and set up,
and each divisor register holds the value of one of the rates; but two rates can leave one half
each. -/
theorem setBaud_settles (limit : Nat) (regs : Word) (s : RegisterFile) :
    (∀ callers : List (List RxCall), (∃ calls ∈ callers, bauds calls ≠ []) →
      ∀ config, Pool.Reachable registerFile (fun _ _ => True)
        (callers.map (rxCalls limit regs), s) config →
      (∀ program ∈ config.1, ∃ bytes, program = .ret bytes) → RatesSet callers config.2) ∧
    ∀ first second : Reg, baud16 first ≠ 0 → baud16 second ≠ 0 →
      ∃ config, Pool.Reachable registerFile (fun _ _ => True)
        ([[.uart (.setBaud first)], [.uart (.setBaud second)]].map (rxCalls (limit + 1) regs), s)
          config ∧
        (∀ program ∈ config.1, ∃ bytes, program = .ret bytes) ∧
        config.2 pl011IBRD = (baudDivisors first).1 ∧
        config.2 pl011FBRD = (baudDivisors second).2 :=
  ⟨fun _ some _ reached done => ratesSet some reached done,
    fun _ _ nonzero₁ nonzero₂ => rates_mix nonzero₁ nonzero₂⟩

/-- Between 9600 and 115200 baud. -/
theorem setBaud_settles_two : ∃ config : Pool Io Io.Answer Fault (List Byte) × RegisterFile,
    Pool.Reachable registerFile (fun _ _ => True)
      ([[.uart (.setBaud 9600)], [.uart (.setBaud 115200)]].map (rxCalls 1 kDefaultUARTBase),
        fun _ => 0) config ∧
      RatesSet [[.uart (.setBaud 9600)], [.uart (.setBaud 115200)]] config.2 ∧
      config.2 pl011IBRD = 156 ∧ config.2 pl011FBRD ≠ (baudDivisors 9600).2 := by
  obtain ⟨config, reached, done, ibrd, fbrd⟩ :=
    (setBaud_settles 0 kDefaultUARTBase (fun _ => 0)).2 9600 115200 (by decide) (by decide)
  have settled := (setBaud_settles 1 kDefaultUARTBase (fun _ => 0)).1 _
    ⟨_, List.mem_cons_self, by decide⟩ config reached done
  refine ⟨config, reached, settled, ?_, ?_⟩
  · rw [ibrd]
    decide
  · rw [fbrd]
    decide

end Julius
