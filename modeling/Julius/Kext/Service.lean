import Julius.Kext.Lifecycle
import Julius.Kext.Registers

set_option autoImplicit false

/- The driver as the rest of the system sees it: out of service, or serving at some rate. -/
namespace Julius

open Interact

/-- What the calls leave behind: the registers as last written, the descriptors and the mappings
that are still retained, and the registers at each registration of the service. -/
structure Board where
  registers : RegisterFile
  descriptors : Int
  mappings : List Nat
  registered : List RegisterFile

/-- A mapping has an address other than null; all that is read is up to the device. -/
def boardAnswers (s : Board) : (q : Io) → q.Answer → Board → Prop
  | .write _ offset value, _, t =>
      t = { s with registers := Function.update s.registers offset value }
  | .withPhysicalAddress .., made, t =>
      t = { s with descriptors := s.descriptors + Bool.toNat made }
  | .releaseDescriptor, _, t => t = { s with descriptors := s.descriptors - 1 }
  | .map, mmioMap, t => t = { s with mappings := Option.toList mmioMap ++ s.mappings }
  | .getVirtualAddress _, va, t => va ≠ (0 : Word) ∧ t = s
  | .releaseMap m, _, t => t = { s with mappings := s.mappings.erase m }
  | .registerService, _, t => t = { s with registered := s.registered ++ [s.registers] }
  | _, _, t => t = s

def board : World Io Io.Answer Board where
  answers := boardAnswers
  drift _ _ := False

theorem board_still : board.Still := fun _ _ moved => moved

/-- What `hw_init` leaves in the registers. -/
structure Configured (baud : Reg) (s : RegisterFile) : Prop where
  cr : s pl011CR = crSet
  lcrh : s pl011LCRH = lcrhSet
  imsc : s pl011IMSC = 0
  ibrd : s pl011IBRD = (baudDivisors baud).1
  fbrd : s pl011FBRD = (baudDivisors baud).2

/-- Characters do not show in the set-up. -/
theorem Configured.of_data {baud : Reg} {s t : RegisterFile} (configured : Configured baud s)
    (same : ∀ r, r ≠ pl011DR → t r = s r) : Configured baud t where
  cr := (same _ (by decide)).trans configured.cr
  lcrh := (same _ (by decide)).trans configured.lcrh
  imsc := (same _ (by decide)).trans configured.imsc
  ibrd := (same _ (by decide)).trans configured.ibrd
  fbrd := (same _ (by decide)).trans configured.fbrd

/-- The driver between two calls; `startable` as I/O Kit sees to it. -/
structure Session where
  driver : JuliusSerialDriver
  board : Board
  startable : Bool

/-- Calls that come back, each with what it returns. Those who know the driver set its
rate while it is in service. -/
def driverCalls : LTS Session (DriverCall × DriverReturn) where
  step s event t := (event.1 = .start → s.startable = true) ∧
    (∀ baud, event.1 = .setBaud baud → s.driver.regs ≠ 0) ∧
    (∃ limit, Exec board (runDriver limit s.driver event.1) s.board
      (.ok (event.2, t.driver)) t.board) ∧
    t.startable = decide (event.1 = .stop ∨ (s.startable = true ∧ event.1 ≠ .start))

/-- A serial line: never in service, at a rate, or switched off. -/
inductive Line
  | unset
  | serving (baud : Reg)
  | disabled
  deriving DecidableEq, Repr

/-- What each call means for the line, by what it returns: `start` brings the line into
service if it returns true and leaves it as it is if not, and a byte is received in
service only. -/
def serialLine : LTS Line (DriverCall × DriverReturn) where
  step u event v := match event with
    | (.start, .started true) => (∀ baud, u ≠ .serving baud) ∧ v = .serving juliusUartBaud
    | (.start, .started false) => (∀ baud, u ≠ .serving baud) ∧ v = u
    | (.stop, .void) => v = match u with
        | .serving _ => .disabled
        | other => other
    | (.setBaud baud, .void) => (∃ old, u = .serving old) ∧ v = .serving baud
    | (.getChar, .received byte) => v = u ∧ (byte ≠ none → ∃ baud, u = .serving baud)
    | (.putChar _, .void) => v = u
    | (.putString _, .void) => v = u
    | _ => False

/-- The driver has no mapping, and nothing of one. -/
def OutOfService (d : JuliusSerialDriver) (s : Board) : Prop :=
  d.mmioMap = none ∧ d.regs = 0 ∧ s.mappings = []

/-- The driver holds its one mapping, and the registers are set up for the rate. -/
structure InService (baud : Reg) (d : JuliusSerialDriver) (s : Board) : Prop where
  mapped : ∃ m, d.mmioMap = some m ∧ s.mappings = [m]
  regs : d.regs ≠ 0
  configured : Configured baud s.registers

/-- The state of the driver is that of the line. -/
def OnLine (s : Session) : Line → Prop
  | .unset => OutOfService s.driver s.board
  | .serving baud => s.startable = false ∧ InService baud s.driver s.board
  | .disabled => OutOfService s.driver s.board ∧ s.board.registers pl011CR = 0

/-- No descriptor is left, and the service was set up whenever it was registered. -/
structure Board.Tidy (s : Board) : Prop where
  descriptors : s.descriptors = 0
  registered : ∀ registers ∈ s.registered, Configured juliusUartBaud registers

structure Follows (s : Session) (u : Line) : Prop where
  tidy : s.board.Tidy
  line : OnLine s u

/-- Reads, delays, log lines and characters. -/
def Io.Serial : Io → Prop
  | .read .. => True
  | .write _ offset _ => offset = pl011DR
  | .delay _ => True
  | .log .. => True
  | _ => False

section

variable {α β : Type} {limit : Nat} {regs : Word} {stops : Fault → Prop} {s : Board}
  {post : Except Fault β → Board → Prop}

theorem Io.Serial.sending (regs : Word) : AllowsSending regs Io.Serial :=
  ⟨trivial, trivial, fun _ _ => trivial, fun _ => rfl⟩

theorem ioLog_serial (format : String) (values : List Nat) :
    (ioLog format values).Asks Io.Serial (fun _ => True) := ⟨trivial, fun _ => trivial⟩

/-- Such queries change no register but DR, and nothing else of the board. -/
theorem wp_serial {first : Kext α} {next : α → Kext β} (asks : first.Asks Io.Serial stops)
    (stopped : ∀ reason t, post (.error reason) t)
    (rest : ∀ value registers, (∀ r, r ≠ pl011DR → registers r = s.registers r) →
      (next value).wp board (fun _ _ => True) post { s with registers }) :
    (first.bind next).wp board (fun _ _ => True) post s := by
  apply asks.wp_bind
    (P := fun t => ∃ registers, (∀ r, r ≠ pl011DR → registers r = s.registers r) ∧
      t = { s with registers })
    (fun s t moved => absurd moved (board_still s t)) _ (fun _ _ _ _ => trivial)
    ⟨s.registers, fun _ _ => rfl, rfl⟩ (fun reason t _ _ => stopped reason t)
  · rintro value _ ⟨registers, same, rfl⟩
    exact rest value registers same
  · rintro _ q answer t serial answered ⟨registers, same, rfl⟩
    cases q with
    | write base offset value =>
        have data : offset = pl011DR := serial
        subst data
        exact ⟨_, fun r other => (Function.update_of_ne other _ _).trans (same r other), answered⟩
    | read base offset => exact ⟨registers, same, answered⟩
    | delay us => exact ⟨registers, same, answered⟩
    | log format values => exact ⟨registers, same, answered⟩
    | _ => exact serial.elim

theorem wp_boardWrite {offset value : Reg} {next : Unit → Kext β}
    (rest : (next ()).wp board (fun _ _ => True) post
      { s with registers := Function.update s.registers offset value }) :
    (Program.ask (.write regs offset value) next).wp board (fun _ _ => True) post s := by
  apply (Program.wp_ask_of_still board_still _ _ _).mpr
  refine ⟨trivial, ?_⟩
  rintro _ _ rfl
  exact rest

/-- When `hw_init` comes back the registers are set up, and nothing else has changed. -/
theorem wp_hwInit (baud : Reg) {next : Unit → Kext β} (stopped : ∀ reason t, post (.error reason) t)
    (rest : ∀ registers, Configured baud registers →
      (next ()).wp board (fun _ _ => True) post { s with registers }) :
    ((hwInit limit regs baud).bind next).wp board (fun _ _ => True) post s := by
  have busy : (uartBusy regs).Asks Io.Serial (fun _ => True) := uartBusy_asks trivial
  rw [hwInit_parts]
  apply wp_boardWrite
  rw [Program.bind_assoc]
  apply wp_serial (waitWhile_asks busy trivial 100000) stopped
  intro _ registers _
  rw [Program.bind_assoc]
  apply wp_serial (drainRx_reads (fun _ => trivial) limit) stopped
  intro _ registers _
  unfold hwInitRest
  split
  · exact stopped _ _
  · rw [Program.bind_assoc]
    refine wp_boardWrite (wp_boardWrite (wp_boardWrite (wp_boardWrite (wp_boardWrite
      (wp_boardWrite ?_)))))
    apply wp_serial (ioLog_serial _ _) stopped
    intro _ after same
    apply rest
    have written : Configured baud (storeAll registers (hwInitWrites baud)) :=
      ⟨rfl, rfl, rfl, rfl, rfl⟩
    exact written.of_data same

/-- A query of I/O Kit that the board takes no note of. -/
def Io.Unnoted : Io → Prop
  | .superStart => True
  | .superStop => True
  | .getProperty _ => True
  | .log .. => True
  | _ => False

theorem wp_unnoted {first : Kext α} {next : α → Kext β}
    (asks : first.Asks Io.Unnoted (fun _ => False))
    (rest : ∀ value, (next value).wp board (fun _ _ => True) post s) :
    (first.bind next).wp board (fun _ _ => True) post s := by
  apply asks.wp_bind (P := fun t => t = s) (fun s t moved => absurd moved (board_still s t)) _
    (fun _ _ _ _ => trivial) rfl (fun _ _ never _ => never.elim)
  · rintro value _ rfl
    exact rest value
  · rintro _ q answer t unnoted answered rfl
    cases q <;> first | exact unnoted.elim | exact answered

theorem query_unnoted {q : Io} (unnoted : q.Unnoted) :
    (Program.query q : Kext q.Answer).Asks Io.Unnoted (fun _ => False) := ⟨unnoted, fun _ => trivial⟩

theorem ioLog_unnoted (format : String) (values : List Nat) :
    (ioLog format values).Asks Io.Unnoted (fun _ => False) := ⟨trivial, fun _ => trivial⟩

theorem readPhysBase_unnoted :
    JuliusSerialDriver.readPhysBase.Asks Io.Unnoted (fun _ => False) := by
  refine ⟨trivial, ?_⟩
  intro data
  cases data with
  | none => exact (ioLog_unnoted _ _).bind (fun _ => trivial)
  | some data =>
      show Program.Asks _ _ (if 8 ≤ data.length then _ else _)
      split
      · exact (ioLog_unnoted _ _).bind (fun _ => trivial)
      · exact (ioLog_unnoted _ _).bind (fun _ => trivial)

/-- What a call that comes back leaves. -/
def Leaving (after : α → Board → Prop) : Except Fault α → Board → Prop :=
  fun outcome t => ∀ value, outcome = .ok value → after value t

/-- Once it has its mapping, `start` brings the driver into service: it is registered set up. -/
theorem wp_startMapped_board (physBase : Word) {m : Nat}
    (only : s.mappings = [m]) (tidy : s.Tidy) :
    (JuliusSerialDriver.startMapped limit physBase m).wp board (fun _ _ => True)
      (Leaving fun result t => t.Tidy ∧ result.1 = true ∧
        InService juliusUartBaud result.2 t) s := by
  have stopped : ∀ (reason : Fault) (t : Board), Leaving (fun result t => t.Tidy ∧
      (result : Bool × _).1 = true ∧ InService juliusUartBaud result.2 t) (.error reason) t :=
    fun _ _ => nofun
  unfold JuliusSerialDriver.startMapped
  simp only [Program.bind_eq, Program.pure_eq]
  apply (Program.wp_ask_of_still board_still _ _ _).mpr
  refine ⟨trivial, ?_⟩
  rintro regs _ ⟨nonnull, rfl⟩
  apply wp_serial (ioLog_serial _ _) stopped
  intro _ registers _
  apply wp_hwInit juliusUartBaud stopped
  intro registers configured
  have greets : ∀ text, (putString regs text).Asks Io.Serial (fun _ => True) :=
    (Io.Serial.sending regs).putString
  apply wp_serial (greets _) stopped
  intro _ written same
  have set := configured.of_data same
  apply (Program.wp_ask_of_still board_still _ _ _).mpr
  refine ⟨trivial, ?_⟩
  rintro _ _ rfl
  apply wp_serial (ioLog_serial _ _) stopped
  intro _ after same
  rintro _ ⟨⟩
  refine ⟨⟨tidy.descriptors, ?_⟩, rfl, ⟨m, rfl, only⟩, nonnull, set.of_data same⟩
  intro registers member
  rcases List.mem_append.mp member with old | new
  · exact tidy.registered registers old
  · exact List.mem_singleton.mp new ▸ set

/-- `start` on a driver out of service brings it into service and returns true, or returns
false and leaves all as it was. -/
theorem wp_start_board {d : JuliusSerialDriver} (unmapped : d.mmioMap = none) (zero : d.regs = 0)
    (empty : s.mappings = []) (tidy : s.Tidy) :
    (d.start limit).wp board (fun _ _ => True)
      (Leaving fun result t => t.Tidy ∧
        ((result.1 = true ∧ InService juliusUartBaud result.2 t) ∨
          (result.1 = false ∧ OutOfService result.2 t ∧ t.registers = s.registers))) s := by
  unfold JuliusSerialDriver.start
  simp only [Program.bind_eq, Program.pure_eq]
  apply wp_unnoted (query_unnoted (q := .superStart) trivial)
  intro (started : Bool)
  cases started with
  | false =>
      apply wp_unnoted (ioLog_unnoted _ _)
      rintro _ _ ⟨⟩
      exact ⟨tidy, Or.inr ⟨rfl, ⟨unmapped, zero, empty⟩, rfl⟩⟩
  | true =>
      apply wp_unnoted (ioLog_unnoted _ _)
      intro _
      apply wp_unnoted readPhysBase_unnoted
      intro physBase
      apply (Program.wp_ask_of_still board_still _ _ _).mpr
      refine ⟨trivial, ?_⟩
      rintro (desc : Bool) _ rfl
      cases desc with
      | false =>
          apply wp_unnoted (ioLog_unnoted _ _)
          rintro _ _ ⟨⟩
          refine ⟨⟨?_, tidy.registered⟩, Or.inr ⟨rfl, ⟨unmapped, zero, empty⟩, rfl⟩⟩
          exact (Int.add_zero _).trans tidy.descriptors
      | true =>
          apply (Program.wp_ask_of_still board_still _ _ _).mpr
          refine ⟨trivial, ?_⟩
          rintro (mmioMap : Option Nat) _ rfl
          apply (Program.wp_ask_of_still board_still _ _ _).mpr
          refine ⟨trivial, ?_⟩
          rintro _ _ rfl
          have released : s.descriptors + Bool.toNat true - 1 = 0 := by
            rw [tidy.descriptors]
            rfl
          cases mmioMap with
          | none =>
              apply wp_unnoted (ioLog_unnoted _ _)
              rintro _ _ ⟨⟩
              exact ⟨⟨released, tidy.registered⟩, Or.inr ⟨rfl, ⟨rfl, zero, empty⟩, rfl⟩⟩
          | some m =>
              have brings := @wp_startMapped_board limit
                { s with descriptors := s.descriptors + Bool.toNat true - 1
                         mappings := [m] ++ s.mappings } physBase m
                (by rw [empty]; rfl) ⟨released, tidy.registered⟩
              apply Program.wp_mono brings (fun _ _ _ => trivial)
              intro outcome t leaves driver returned
              exact ⟨(leaves driver returned).1, Or.inl (leaves driver returned).2⟩

/-- `stop` out of service leaves all as it was. -/
theorem wp_stop_out {d : JuliusSerialDriver} (tidy : s.Tidy) (out : OutOfService d s) :
    d.stop.wp board (fun _ _ => True)
      (Leaving fun driver t => t.Tidy ∧ OutOfService driver t ∧ t.registers = s.registers) s := by
  obtain ⟨unmapped, zero, empty⟩ := out
  unfold JuliusSerialDriver.stop
  simp only [Program.bind_eq, Program.pure_eq]
  apply wp_unnoted (ioLog_unnoted _ _)
  intro _
  rw [zero, putString_unmapped, unmapped]
  apply wp_unnoted (query_unnoted (q := .superStop) trivial)
  rintro _ _ ⟨⟩
  exact ⟨tidy, ⟨unmapped, zero, empty⟩, rfl⟩

/-- `stop` in service gives the mapping back and switches the UART off. -/
theorem wp_stop_serving {d : JuliusSerialDriver} {baud : Reg} (tidy : s.Tidy)
    (serves : InService baud d s) :
    d.stop.wp board (fun _ _ => True)
      (Leaving fun driver t => t.Tidy ∧ OutOfService driver t ∧ t.registers pl011CR = 0) s := by
  obtain ⟨⟨m, mapped, only⟩, nonzero, _⟩ := serves
  have parts : ∀ text, (putString d.regs text).Asks Io.Serial (fun _ => True) :=
    (Io.Serial.sending d.regs).putString
  unfold JuliusSerialDriver.stop
  simp only [Program.bind_eq, Program.pure_eq]
  apply wp_unnoted (ioLog_unnoted _ _)
  intro _
  apply wp_serial (parts _) (fun _ _ => nofun)
  intro _ registers _
  rw [if_pos nonzero, mapped]
  apply wp_boardWrite
  apply (Program.wp_ask_of_still board_still _ _ _).mpr
  refine ⟨trivial, ?_⟩
  rintro _ _ rfl
  apply wp_unnoted (query_unnoted (q := .superStop) trivial)
  rintro _ _ ⟨⟩
  have released : s.mappings.erase m = [] := by rw [only, List.erase_cons_head]
  exact ⟨⟨tidy.descriptors, tidy.registered⟩, ⟨rfl, rfl, released⟩,
    Function.update_self pl011CR 0 registers⟩

/-- A call that sends or receives keeps the object, and the board but for DR. -/
theorem wp_serial_call {d : JuliusSerialDriver} {first : Kext α} (result : α → DriverReturn)
    (asks : first.Asks Io.Serial (fun _ => True)) :
    (first.bind (fun value => (.ret (result value, d) : Kext (DriverReturn × _)))).wp board
      (fun _ _ => True)
      (Leaving fun left t => (∃ value, left.1 = result value) ∧ left.2 = d ∧
        ∃ registers, (∀ r, r ≠ pl011DR → registers r = s.registers r) ∧
          t = { s with registers }) s := by
  apply wp_serial asks (fun _ _ => nofun)
  rintro value registers same _ ⟨⟩
  exact ⟨⟨value, rfl⟩, rfl, registers, same, rfl⟩

end

/-- What a call that sends or receives leaves of a session. -/
theorem OnLine.of_data {s t : Session} {u : Line} (online : OnLine s u)
    (driver : t.driver = s.driver)
    (startable : t.startable = s.startable) {registers : RegisterFile}
    (same : ∀ r, r ≠ pl011DR → registers r = s.board.registers r)
    (board : t.board = { s.board with registers }) : OnLine t u := by
  cases u with
  | unset =>
      rw [OnLine, driver, board]
      exact online
  | serving baud =>
      obtain ⟨notStartable, mapped, regs, configured⟩ := online
      rw [OnLine, startable, driver, board]
      exact ⟨notStartable, mapped, regs, configured.of_data same⟩
  | disabled =>
      rw [OnLine, driver, board]
      exact ⟨online.1, (same _ (by decide)).trans online.2⟩

/-- A line that is not serving has the driver out of service. -/
theorem OnLine.out {s : Session} {u : Line} (online : OnLine s u)
    (idle : ∀ baud, u ≠ .serving baud) :
    OutOfService s.driver s.board := by
  cases u with
  | unset => exact online
  | serving baud => exact absurd rfl (idle baud)
  | disabled => exact online.1

/-- A session out of service, with CR as it was, is on the same line. -/
theorem OnLine.still {s t : Session} {u : Line} (online : OnLine s u)
    (idle : ∀ baud, u ≠ .serving baud) (out : OutOfService t.driver t.board)
    (same : t.board.registers = s.board.registers) : OnLine t u := by
  cases u with
  | unset => exact out
  | serving baud => exact absurd rfl (idle baud)
  | disabled => exact ⟨out, same ▸ online.2⟩

/-- What each call does and returns, the line follows. -/
theorem follows_step (s : Session) (u : Line) (event : DriverCall × DriverReturn) (t : Session)
    (follows : Follows s u) (step : driverCalls.step s event t) :
    ∃ v, serialLine.step u event v ∧ Follows t v := by
  obtain ⟨call, returned⟩ := event
  obtain ⟨mayStart, maySet, ⟨limit, run⟩, startable⟩ := step
  obtain ⟨tidy, online⟩ := follows
  dsimp only at mayStart maySet run startable
  have keeps : ∀ {α : Type} {first : Kext α} (result : α → DriverReturn),
      first.Asks Io.Serial (fun _ => True) →
      Exec board (first.bind (fun value => .ret (result value, s.driver))) s.board
        (.ok (returned, t.driver)) t.board →
      call ≠ .start → call ≠ .stop → (∃ value, returned = result value) ∧ Follows t u := by
    intro α first result asks run notStart notStop
    obtain ⟨gives, driver, registers, same, shape⟩ := (wp_serial_call result asks).exec run _ rfl
    have still : t.startable = s.startable := by simp [startable, notStart, notStop]
    refine ⟨gives, ?_, online.of_data driver still same shape⟩
    rw [shape]
    exact ⟨tidy.descriptors, tidy.registered⟩
  cases call with
  | start =>
      have idle : ∀ baud, u ≠ .serving baud := by
        rintro baud rfl
        have running := online.1
        rw [mayStart rfl] at running
        cases running
      obtain ⟨unmapped, zero, empty⟩ := online.out idle
      obtain ⟨⟨success, driver⟩, started, gives⟩ := Exec.of_handing run
      obtain ⟨rfl, rfl⟩ := Prod.mk.inj gives
      obtain ⟨tidy, ⟨rfl, serves⟩ | ⟨rfl, out, same⟩⟩ :=
        (wp_start_board unmapped zero empty tidy).exec started _ rfl
      · exact ⟨.serving juliusUartBaud, ⟨idle, rfl⟩, tidy, by simp [startable], serves⟩
      · exact ⟨u, ⟨idle, rfl⟩, tidy, online.still idle out same⟩
  | stop =>
      obtain ⟨driver, stopped, gives⟩ := Exec.of_handing run
      obtain ⟨rfl, rfl⟩ := Prod.mk.inj gives
      by_cases serving : ∃ baud, u = .serving baud
      · obtain ⟨baud, rfl⟩ := serving
        obtain ⟨tidy, out, off⟩ := (wp_stop_serving tidy online.2).exec stopped _ rfl
        exact ⟨.disabled, rfl, tidy, out, off⟩
      · have idle : ∀ baud, u ≠ .serving baud := fun baud same => serving ⟨baud, same⟩
        obtain ⟨tidy, out, same⟩ := (wp_stop_out tidy (online.out idle)).exec stopped _ rfl
        refine ⟨u, ?_, tidy, online.still idle out same⟩
        cases u with
        | serving baud => exact absurd rfl (idle baud)
        | _ => rfl
  | putChar c =>
      obtain ⟨⟨_, rfl⟩, follows⟩ :=
        keeps (fun _ => .void) ((Io.Serial.sending _).putChar c) run nofun nofun
      exact ⟨u, rfl, follows⟩
  | getChar =>
      obtain ⟨⟨byte, rfl⟩, follows⟩ :=
        keeps .received (getChar_reads (fun _ => trivial)) run nofun nofun
      refine ⟨u, ⟨rfl, ?_⟩, follows⟩
      intro some
      by_contra idle
      -- out of service there are no registers to read
      obtain ⟨_, zero, _⟩ := online.out (fun baud same => idle ⟨baud, same⟩)
      have nothing : (getChar s.driver.regs).wp board (fun _ _ => True)
          (Leaving fun value _ => value = none) s.board := by
        rw [zero]
        rintro _ ⟨⟩
        rfl
      obtain ⟨answer, got, gives⟩ := Exec.of_handing run
      have same : answer = byte := DriverReturn.received.inj (Prod.mk.inj gives).1
      exact some (same ▸ nothing.exec got _ rfl)
  | putString text =>
      obtain ⟨⟨_, rfl⟩, follows⟩ :=
        keeps (fun _ => .void) ((Io.Serial.sending _).putString text) run nofun nofun
      exact ⟨u, rfl, follows⟩
  | setBaud baud =>
      have serving : ∃ old, u = .serving old := by
        by_contra none
        exact maySet baud rfl (online.out (fun old same => none ⟨old, same⟩)).2.1
      obtain ⟨old, rfl⟩ := serving
      obtain ⟨notStartable, mapped, regs, _⟩ := online
      have sets : (runDriver limit s.driver (.setBaud baud)).wp board (fun _ _ => True)
          (Leaving fun left t => left = (.void, s.driver) ∧
            ∃ registers, Configured baud registers ∧ t = { s.board with registers }) s.board := by
        unfold runDriver setBaud
        simp only [Program.bind_eq, Program.pure_eq]
        rw [Program.bind_assoc]
        apply wp_unnoted (ioLog_unnoted _ _)
        intro _
        apply wp_hwInit baud (fun _ _ => nofun)
        rintro registers configured _ ⟨⟩
        exact ⟨rfl, registers, configured, rfl⟩
      obtain ⟨left, registers, configured, shape⟩ := sets.exec run _ rfl
      obtain ⟨rfl, driver⟩ := Prod.mk.inj left
      refine ⟨.serving baud, ⟨⟨old, rfl⟩, rfl⟩, ?_, ?_, ?_⟩
      · rw [shape]
        exact ⟨tidy.descriptors, tidy.registered⟩
      · simp [startable, notStartable]
      · rw [driver, shape]
        exact ⟨mapped, regs, configured⟩

/-- The driver before its first call, in front of a UART in any state. -/
def Session.fresh (registers : RegisterFile) : Session := ⟨.fresh, ⟨registers, 0, [], []⟩, true⟩

/-- In every sequence of calls the driver is a serial line: it is in service from a `start` that
returns true until `stop`, its registers always set up for the rate it was last set to, and switched
off afterwards. It gives back all descriptors and its mapping, and registers only when set up. -/
theorem driver_follows (registers : RegisterFile)
    (run : List ((DriverCall × DriverReturn) × Session))
    (valid : driverCalls.IsRun (Session.fresh registers) run) :
    ∃ lineRun, serialLine.IsRun .unset lineRun ∧
      List.Forall₂ (fun move line => move.1 = line.1 ∧ Follows move.2 line.2) run lineRun := by
  have start : Follows (Session.fresh registers) .unset := ⟨⟨rfl, nofun⟩, rfl, rfl, rfl⟩
  exact valid.simulate (P := fun _ => True) (fun s u event t _ => follows_step s u event t)
    (fun _ _ => trivial) start

/-- A board that maps, with a device that receives nothing and is never busy. -/
def quietBoard (s : Board) : (q : Io) → q.Answer × Board
  | .read .. => (pl011FrRXFE, s)
  | .write _ offset value => ((), { s with registers := Function.update s.registers offset value })
  | .map => (some 1, { s with mappings := 1 :: s.mappings })
  | .getVirtualAddress _ => ((0x5000 : Word), s)
  | .releaseMap m => ((), { s with mappings := s.mappings.erase m })
  | .superStart => (true, s)
  | .superMessage _ => ((0 : BitVec 32), s)
  | .getProperty _ => (none, s)
  | .withPhysicalAddress .. => (true, { s with descriptors := s.descriptors + Bool.toNat true })
  | .delay _ => ((), s)
  | .log .. => ((), s)
  | .superStop => ((), s)
  | .releaseDescriptor => ((), { s with descriptors := s.descriptors - 1 })
  | .registerService => ((), { s with registered := s.registered ++ [s.registers] })

theorem quietBoard_admitted (s : Board) (q : Io) :
    board.answers s q (quietBoard s q).1 (quietBoard s q).2 := by
  cases q with
  | getVirtualAddress m => exact ⟨(by decide : (0x5000 : Word) ≠ 0), rfl⟩
  | _ => rfl

/-- One call against `quietBoard`, with what it returns. -/
def Session.call (s : Session) (call : DriverCall) : DriverReturn × Session :=
  let (outcome, board) := (runDriver 1 s.driver call).runWith quietBoard s.board
  let (returned, driver) := outcome.toOption.getD (.void, s.driver)
  (returned, ⟨driver, board, call = .stop ∨ (s.startable = true ∧ call ≠ .start)⟩)

theorem Session.call_step (s : Session) (call : DriverCall)
    (mayStart : call = .start → s.startable = true)
    (maySet : ∀ baud, call = .setBaud baud → s.driver.regs ≠ 0)
    (returned : ((runDriver 1 s.driver call).runWith quietBoard s.board).1.toOption.isSome = true) :
    driverCalls.step s (call, (s.call call).1) (s.call call).2 := by
  refine ⟨mayStart, maySet, ⟨1, ?_⟩, rfl⟩
  have ran := Program.exec_runWith quietBoard_admitted (runDriver 1 s.driver call) s.board
  unfold Session.call
  generalize (runDriver 1 s.driver call).runWith quietBoard s.board = result at returned ran
  obtain ⟨outcome, after⟩ := result
  cases outcome with
  | ok driver => exact ran
  | error reason => cases returned

/-- Asked for a byte before it is started, started, set to 9600 baud and stopped. -/
theorem driver_follows_started : ∃ run lineRun,
    run.map Prod.fst = [(.getChar, .received none), (.start, .started true),
      (.setBaud 9600, .void), (.stop, .void)] ∧
      driverCalls.IsRun (Session.fresh fun _ => 0) run ∧ serialLine.IsRun .unset lineRun ∧
      List.Forall₂ (fun move line => move.1 = line.1 ∧ Follows move.2 line.2) run lineRun := by
  let asked := ((Session.fresh fun _ => 0).call .getChar).2
  let started := (asked.call .start).2
  let changed := (started.call (.setBaud 9600)).2
  have valid : driverCalls.IsRun (Session.fresh fun _ => 0)
      [((.getChar, _), asked), ((.start, _), started), ((.setBaud 9600, _), changed),
        ((.stop, _), (changed.call .stop).2)] :=
    ⟨Session.call_step _ _ nofun nofun (by decide +kernel),
      Session.call_step _ _ (fun _ => by decide +kernel) nofun (by decide +kernel),
      Session.call_step _ _ nofun (fun _ _ => by decide +kernel) (by decide +kernel),
      Session.call_step _ _ nofun nofun (by decide +kernel), trivial⟩
  obtain ⟨lineRun, line, follows⟩ := driver_follows (fun _ => 0) _ valid
  exact ⟨_, lineRun, by decide +kernel, valid, line, follows⟩

end Julius
