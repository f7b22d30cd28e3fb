import Julius.Lib.System
import Julius.Kext.Serial

set_option autoImplicit false

/- The driver object through any sequence of calls: its mapping and its register accesses. -/
namespace Julius

open Interact

/-- The mappings that are retained, each with its virtual address, and every register
access so far: the base it went through and the addresses mapped at that time. -/
structure Kit where
  held : List (Nat × Word)
  accesses : List (Word × List Word)

/-- An access through a non-null base that a mapping held at that time provides. -/
def ValidAccess (access : Word × List Word) : Prop := access.1 ≠ 0 ∧ access.1 ∈ access.2

def Kit.access (s : Kit) (base : Word) : Kit :=
  { s with accesses := s.accesses ++ [(base, s.held.map Prod.snd)] }

/-- The virtual address of a mapping. -/
def Kit.address (s : Kit) (m : Nat) : Word :=
  ((s.held.find? (fun mapping => mapping.1 = m)).map Prod.snd).getD 0

/-- A mapping has an address other than null; all else I/O Kit and the device do is open. -/
def kitAnswers (s : Kit) : (q : Io) → q.Answer → Kit → Prop
  | .read base _, _, t => t = s.access base
  | .write base _ _, _, t => t = s.access base
  | .map, mmioMap, t =>
      (mmioMap = none ∧ t = s) ∨
        ∃ m va, mmioMap = some m ∧ va ≠ 0 ∧ t = { s with held := (m, va) :: s.held }
  | .getVirtualAddress m, va, t => va = s.address m ∧ t = s
  | .releaseMap m, _, t => t = { s with held := s.held.filter (fun mapping => mapping.1 ≠ m) }
  | _, _, t => t = s

def ioKit : World Io Io.Answer Kit where
  answers := kitAnswers
  drift _ _ := False

inductive DriverCall
  | start
  | stop
  | putChar (c : Byte)
  | getChar
  | putString (s : List Byte)
  | setBaud (baud : Reg)
  deriving DecidableEq, Repr

/-- What a call gives its caller: the `bool` of `start`, and of `getChar` the byte where it
returns true. -/
inductive DriverReturn
  | void
  | started (success : Bool)
  | received (byte : Option Byte)
  deriving DecidableEq, Repr

/-- A call on the object: what it returns, and the object it leaves. -/
def runDriver (limit : Nat) (d : JuliusSerialDriver) :
    DriverCall → Kext (DriverReturn × JuliusSerialDriver)
  | .start => do
      let (success, d) ← d.start limit
      return (.started success, d)
  | .stop => do
      let d ← d.stop
      return (.void, d)
  | .putChar c => do
      putChar d.regs c
      return (.void, d)
  | .getChar => do
      let byte ← getChar d.regs
      return (.received byte, d)
  | .putString s => do
      putString d.regs s
      return (.void, d)
  | .setBaud baud => do
      setBaud limit d.regs baud
      return (.void, d)

/-- The object between two calls. `startable` while I/O Kit has not called `start`
since the object was made or `stop` was last called; `fault` when a call did not come back. -/
structure DriverSession where
  driver : JuliusSerialDriver
  kit : Kit
  startable : Bool
  fault : Option Fault

namespace DriverSession

def fresh : DriverSession := ⟨.fresh, ⟨[], []⟩, true, none⟩

def after (s : DriverSession) (call : DriverCall) (kit : Kit) :
    Except Fault (DriverReturn × JuliusSerialDriver) → DriverSession
  | .ok (_, driver) =>
      { driver, kit, fault := none,
        startable := call = .stop ∨ (s.startable = true ∧ call ≠ .start) }
  | .error reason => { s with kit, fault := some reason }

end DriverSession

/-- The calls, in any order; the receive drain of `hw_init` is followed for any number of bytes. -/
def driverApi : LTS DriverSession DriverCall where
  step s call t := s.fault = none ∧ (call = .start → s.startable = true) ∧
    ∃ limit outcome kit, Exec ioKit (runDriver limit s.driver call) s.kit outcome kit ∧
      t = s.after call kit outcome

theorem ioKit_still : ioKit.Still := fun _ _ moved => moved

/-- All accesses so far were valid. -/
def Kit.Sound (s : Kit) : Prop := ∀ access ∈ s.accesses, ValidAccess access

theorem Kit.Sound.access {s : Kit} (sound : s.Sound) {base : Word} (nonnull : base ≠ 0)
    (mapped : base ∈ s.held.map Prod.snd) : (s.access base).Sound := by
  intro access member
  rcases List.mem_append.mp member with old | new
  · exact sound access old
  · rw [List.mem_singleton.mp new]
    exact ⟨nonnull, mapped⟩

/-- The kit while `held` are the mappings. -/
def Kit.Holds (held : List (Nat × Word)) (s : Kit) : Prop := s.held = held ∧ s.Sound

/-- The driver object without a mapping. -/
def Unmapped (d : JuliusSerialDriver) (held : List (Nat × Word)) : Prop :=
  d.mmioMap = none ∧ d.regs = 0 ∧ held = []

/-- The driver object with its mapping, which is the only one held. -/
def MappedAt (m : Nat) (d : JuliusSerialDriver) (held : List (Nat × Word)) : Prop :=
  d.mmioMap = some m ∧ d.regs ≠ 0 ∧ held = [(m, d.regs)]

section

variable {α β : Type} {held : List (Nat × Word)} {regs : Word} {stops : Fault → Prop} {s : Kit}
  {post : Except Fault β → Kit → Prop}

/-- Queries that neither access a register nor change a mapping. -/
def Io.Quiet : Io → Prop
  | .read .. => False
  | .write .. => False
  | .map => False
  | .releaseMap _ => False
  | .getVirtualAddress _ => False
  | _ => True

theorem wp_quiet {first : Kext α} {next : α → Kext β}
    (asks : first.Asks Io.Quiet (fun _ => False)) (start : s.Holds held)
    (rest : ∀ value t, t.Holds held → (next value).wp ioKit (fun _ _ => True) post t) :
    (first.bind next).wp ioKit (fun _ _ => True) post s := by
  apply asks.wp_bind (P := Kit.Holds held) (fun s t moved => absurd moved (ioKit_still s t)) _
    (fun _ _ _ _ => trivial) start (fun _ _ never _ => never.elim) rest
  intro s q answer t quiet answered holds
  have same : t = s := by
    cases q <;> first | exact quiet.elim | exact answered
  exact same ▸ holds

/-- Register accesses through the address of a held mapping are valid. -/
theorem wp_onRegs {first : Kext α} {next : α → Kext β}
    (asks : first.Asks (Io.OnRegs regs) stops) (nonnull : regs ≠ 0)
    (mapped : regs ∈ held.map Prod.snd) (start : s.Holds held)
    (stopped : ∀ reason t, t.Holds held → post (.error reason) t)
    (rest : ∀ value t, t.Holds held → (next value).wp ioKit (fun _ _ => True) post t) :
    (first.bind next).wp ioKit (fun _ _ => True) post s := by
  apply asks.wp_bind (P := Kit.Holds held) (fun s t moved => absurd moved (ioKit_still s t)) _
    (fun _ _ _ _ => trivial) start (fun reason t _ holds => stopped reason t holds) rest
  intro s q answer t onRegs answered holds
  cases q with
  | read base offset =>
      rw [show t = s.access base from answered, show base = regs from onRegs]
      exact ⟨holds.1, holds.2.access nonnull (holds.1 ▸ mapped)⟩
  | write base offset value =>
      rw [show t = s.access base from answered, show base = regs from onRegs.1]
      exact ⟨holds.1, holds.2.access nonnull (holds.1 ▸ mapped)⟩
  | delay us => exact (show t = s from answered) ▸ holds
  | log format values => exact (show t = s from answered) ▸ holds
  | _ => exact onRegs.elim

theorem ioLog_quiet (format : String) (values : List Nat) :
    (ioLog format values).Asks Io.Quiet (fun _ => False) := ⟨trivial, fun _ => trivial⟩

theorem query_quiet {q : Io} (quiet : q.Quiet) :
    (Program.query q : Kext q.Answer).Asks Io.Quiet (fun _ => False) := ⟨quiet, fun _ => trivial⟩

theorem readPhysBase_quiet :
    JuliusSerialDriver.readPhysBase.Asks Io.Quiet (fun _ => False) := by
  refine ⟨trivial, ?_⟩
  intro data
  cases data with
  | none => exact (ioLog_quiet _ _).bind (fun _ => trivial)
  | some data =>
      show Program.Asks _ _ (if 8 ≤ data.length then _ else _)
      split
      · exact (ioLog_quiet _ _).bind (fun _ => trivial)
      · exact (ioLog_quiet _ _).bind (fun _ => trivial)

/-- What a call that comes back leaves: an object in step with its mapping. -/
def InStep (d : JuliusSerialDriver) (held : List (Nat × Word)) : Prop :=
  Unmapped d held ∨ ∃ m, MappedAt m d held

theorem InStep.regs_iff {d : JuliusSerialDriver} {held : List (Nat × Word)}
    (inStep : InStep d held) : d.regs ≠ 0 ↔ d.mmioMap ≠ none := by
  rcases inStep with ⟨unmapped, zero, _⟩ | ⟨m, mapped, nonzero, _⟩
  · simp [unmapped, zero]
  · exact ⟨fun _ => by simp [mapped], fun _ => nonzero⟩

/-- Once the registers are mapped, `start` goes on to the end, or keeps receiving. -/
theorem wp_startMapped (limit : Nat) (physBase : Word) {m : Nat} {va : Word} (nonnull : va ≠ 0)
    {s : Kit} (start : s.Holds [(m, va)]) :
    (JuliusSerialDriver.startMapped limit physBase m).wp ioKit (fun _ _ => True)
      (fun outcome t => t.Sound ∧ ∀ result, outcome = .ok result → InStep result.2 t.held) s := by
  unfold JuliusSerialDriver.startMapped
  simp only [Program.bind_eq, Program.pure_eq]
  apply (Program.wp_ask_of_still ioKit_still _ _ _).mpr
  refine ⟨trivial, ?_⟩
  intro regs t answered
  obtain ⟨rfl, rfl⟩ := answered
  have address : t.address m = va := by simp [Kit.address, start.1]
  rw [address]
  have mapped : va ∈ [(m, va)].map Prod.snd := List.mem_singleton.mpr rfl
  apply wp_quiet (ioLog_quiet _ _) start
  intro _ t held
  apply wp_onRegs (hwInit_asks limit _) nonnull mapped held
  · intro reason t held
    exact ⟨held.2, fun _ impossible => by cases impossible⟩
  intro _ t held
  apply wp_onRegs (putString_asks _) nonnull mapped held
  · intro reason t held
    exact ⟨held.2, fun _ impossible => by cases impossible⟩
  intro _ t held
  apply wp_quiet (query_quiet (q := Io.registerService) trivial) held
  intro _ t held
  apply wp_quiet (ioLog_quiet _ _) held
  intro _ t held
  refine ⟨held.2, ?_⟩
  intro result returned
  cases returned
  exact Or.inr ⟨m, rfl, nonnull, held.1⟩

/-- `start` on an object without a mapping. -/
theorem wp_start (limit : Nat) {d : JuliusSerialDriver} {s : Kit} (unmapped : Unmapped d [])
    (start : s.Holds []) :
    (d.start limit).wp ioKit (fun _ _ => True)
      (fun outcome t => t.Sound ∧ ∀ result, outcome = .ok result → InStep result.2 t.held) s := by
  have idle : ∀ (t : Kit) physBase, t.Holds [] → ∀ (result : Bool × JuliusSerialDriver),
      (Except.ok (false, { d with mmioMap := none, physBase }) : Except Fault _) = .ok result →
        InStep result.2 t.held := by
    intro t physBase held result returned
    cases returned
    exact Or.inl ⟨rfl, unmapped.2.1, held.1⟩
  unfold JuliusSerialDriver.start
  simp only [Program.bind_eq, Program.pure_eq]
  apply wp_quiet (query_quiet (q := Io.superStart) trivial) start
  intro (started : Bool) t held
  cases started with
  | false =>
      apply wp_quiet (ioLog_quiet _ _) held
      intro _ t held
      refine ⟨held.2, ?_⟩
      intro result returned
      cases returned
      exact Or.inl (held.1.symm ▸ unmapped)
  | true =>
      apply wp_quiet (ioLog_quiet _ _) held
      intro _ t held
      apply wp_quiet readPhysBase_quiet held
      intro physBase t held
      apply wp_quiet (query_quiet (q := Io.withPhysicalAddress physBase kUARTRegionSize) trivial) held
      intro (desc : Bool) t held
      cases desc with
      | false =>
          apply wp_quiet (ioLog_quiet _ _) held
          intro _ t held
          refine ⟨held.2, ?_⟩
          intro result returned
          cases returned
          exact Or.inl ⟨unmapped.1, unmapped.2.1, held.1⟩
      | true =>
          apply (Program.wp_ask_of_still ioKit_still _ _ _).mpr
          refine ⟨trivial, ?_⟩
          intro mmioMap t answered
          rcases answered with ⟨rfl, rfl⟩ | ⟨m, va, rfl, nonnull, rfl⟩
          · apply wp_quiet (query_quiet (q := Io.releaseDescriptor) trivial) held
            intro _ t held
            apply wp_quiet (ioLog_quiet _ _) held
            intro _ t held
            exact ⟨held.2, idle t physBase held⟩
          · have grown : Kit.Holds [(m, va)] { t with held := (m, va) :: t.held } :=
              ⟨by rw [held.1], held.2⟩
            apply wp_quiet (query_quiet (q := Io.releaseDescriptor) trivial) grown
            intro _ t held
            exact wp_startMapped limit physBase nonnull held

/-- `stop` always comes back, and without a mapping. -/
theorem wp_stop {d : JuliusSerialDriver} {s : Kit} (sound : s.Sound) (inStep : InStep d s.held) :
    d.stop.wp ioKit (fun _ _ => True)
      (fun outcome t => t.Sound ∧ ∀ after, outcome = .ok after → Unmapped after t.held) s := by
  unfold JuliusSerialDriver.stop
  simp only [Program.bind_eq, Program.pure_eq]
  apply wp_quiet (ioLog_quiet _ _) ⟨rfl, sound⟩
  intro _ t held
  rcases inStep with ⟨unmapped, zero, none⟩ | ⟨m, mapped, nonzero, only⟩
  · rw [zero, putString_unmapped, unmapped]
    apply wp_quiet (query_quiet (q := Io.superStop) trivial) held
    intro _ t held
    refine ⟨held.2, ?_⟩
    intro after returned
    cases returned
    exact ⟨unmapped, zero, held.1.trans none⟩
  · rw [only] at held
    have address : d.regs ∈ [(m, d.regs)].map Prod.snd := List.mem_singleton.mpr rfl
    apply wp_onRegs (putString_asks _) nonzero address held
    · intro reason t held
      exact ⟨held.2, fun _ impossible => by cases impossible⟩
    intro _ t held
    rw [if_pos nonzero, mapped]
    have clears : (regWrite d.regs pl011CR 0).Asks (Io.OnRegs d.regs) (fun _ => False) :=
      ⟨⟨rfl, fun lcrh => absurd lcrh (by decide)⟩, fun _ => trivial⟩
    apply wp_onRegs clears nonzero address held
    · intro reason t held
      exact ⟨held.2, fun _ impossible => by cases impossible⟩
    intro _ t held
    apply (Program.wp_ask_of_still ioKit_still _ _ _).mpr
    refine ⟨trivial, ?_⟩
    intro _ t' released
    have emptied : t'.Holds [] := by
      rw [show t' = { t with held := t.held.filter (fun mapping => mapping.1 ≠ m) } from released]
      exact ⟨by simp [held.1], held.2⟩
    apply wp_quiet (query_quiet (q := Io.superStop) trivial) emptied
    intro _ t held
    refine ⟨held.2, ?_⟩
    intro after returned
    cases returned
    exact ⟨rfl, rfl, held.1⟩

/-- A call that works on the registers and keeps the object as it is. -/
theorem wp_onObject {first : Kext α} {result : α → DriverReturn} {d : JuliusSerialDriver}
    (asks : first.Asks (Io.OnRegs d.regs) stops) (sound : s.Sound) (inStep : InStep d s.held)
    (nonnull : d.regs ≠ 0) :
    (first.bind (fun value => (.ret (result value, d) : Kext (DriverReturn × _)))).wp ioKit
      (fun _ _ => True)
      (fun outcome t => t.Holds s.held ∧ ∀ after, outcome = .ok after → after.2 = d) s := by
  have mapped : d.regs ∈ s.held.map Prod.snd := by
    rcases inStep with ⟨_, zero, _⟩ | ⟨m, _, _, only⟩
    · exact absurd zero nonnull
    · rw [only]
      exact List.mem_singleton.mpr rfl
  apply wp_onRegs asks nonnull mapped ⟨rfl, sound⟩
  · intro reason t held
    exact ⟨held, fun _ impossible => by cases impossible⟩
  · intro _ t held
    refine ⟨held, ?_⟩
    intro after returned
    cases returned
    rfl

/-- The calls that keep the object, where a baud change finds the registers mapped. -/
theorem wp_keeping (limit : Nat) {d : JuliusSerialDriver} (call : DriverCall) (sound : s.Sound)
    (inStep : InStep d s.held) (notStart : call ≠ .start) (notStop : call ≠ .stop)
    (mapped : ∀ baud, call = .setBaud baud → d.regs ≠ 0) :
    (runDriver limit d call).wp ioKit (fun _ _ => True)
      (fun outcome t => t.Holds s.held ∧ ∀ after, outcome = .ok after → after.2 = d) s := by
  have untouched : ∀ result, (Program.ret (result, d) : Kext (DriverReturn × _)).wp ioKit
      (fun _ _ => True)
      (fun outcome t => t.Holds s.held ∧ ∀ after, outcome = .ok after → after.2 = d) s := by
    intro result
    refine ⟨⟨rfl, sound⟩, ?_⟩
    intro after returned
    cases returned
    rfl
  unfold runDriver
  simp only [Program.bind_eq, Program.pure_eq]
  by_cases zero : d.regs = 0
  · -- every call but a baud change looks at `_regs` first
    cases call with
    | start => exact absurd rfl notStart
    | stop => exact absurd rfl notStop
    | putChar c =>
        rw [zero]
        exact untouched .void
    | getChar =>
        rw [zero]
        exact untouched (.received none)
    | putString text =>
        rw [zero]
        dsimp only
        rw [putString_unmapped]
        exact untouched .void
    | setBaud baud => exact absurd zero (mapped baud rfl)
  · cases call with
    | start => exact absurd rfl notStart
    | stop => exact absurd rfl notStop
    | putChar c => exact wp_onObject (putChar_asks c) sound inStep zero
    | getChar => exact wp_onObject getChar_asks sound inStep zero
    | putString text =>
        exact wp_onObject (putString_asks text) sound inStep zero
    | setBaud baud =>
        exact wp_onObject ⟨trivial, fun _ => hwInit_asks limit baud⟩ sound inStep zero

/-- A call is its member function, whose result it hands on. -/
theorem wp_returning {first : Kext α} {result : α → DriverReturn × JuliusSerialDriver}
    (after : JuliusSerialDriver → Kit → Prop)
    (reaches : first.wp ioKit (fun _ _ => True) (fun outcome t => t.Sound ∧
      ∀ value, outcome = .ok value → after (result value).2 t) s) :
    (first.bind (fun value => .ret (result value))).wp ioKit (fun _ _ => True)
      (fun outcome t => t.Sound ∧ ∀ left, outcome = .ok left → after left.2 t) s := by
  rw [Program.wp_bind]
  apply Program.wp_mono reaches (fun _ _ _ => trivial)
  intro outcome t reached
  cases outcome with
  | error reason => exact ⟨reached.1, fun _ impossible => by cases impossible⟩
  | ok value =>
      refine ⟨reached.1, ?_⟩
      intro left returned
      cases returned
      exact reached.2 value rfl

/-- Every access stays on record. -/
theorem kit_recorded (access : Word × List Word) (s : Kit) (q : Io) (answer : q.Answer) (t : Kit)
    (answered : ioKit.answers s q answer t) (member : access ∈ s.accesses) :
    access ∈ t.accesses := by
  have same : t = s → access ∈ t.accesses := fun same => same ▸ member
  cases q with
  | read base offset =>
      rw [show t = s.access base from answered]
      exact List.mem_append_left _ member
  | write base offset value =>
      rw [show t = s.access base from answered]
      exact List.mem_append_left _ member
  | map =>
      rcases answered with ⟨_, rfl⟩ | ⟨m, va, _, _, rfl⟩
      · exact member
      · exact member
  | getVirtualAddress m => exact same answered.2
  | releaseMap m =>
      rw [show t = { s with held := s.held.filter (fun mapping => mapping.1 ≠ m) } from answered]
      exact member
  | _ => exact same answered

/-- A baud change without a mapping starts by writing through the null base. -/
theorem wp_setBaud_unmapped (limit : Nat) (baud : Reg) {d : JuliusSerialDriver}
    (zero : d.regs = 0) : (runDriver limit d (.setBaud baud)).wp ioKit (fun _ _ => True)
      (fun _ t => ∃ access ∈ t.accesses, ¬ ValidAccess access) s := by
  unfold runDriver setBaud hwInit
  simp only [Program.bind_eq, Program.pure_eq]
  rw [zero]
  apply (Program.wp_ask_of_still ioKit_still _ _ _).mpr
  refine ⟨trivial, ?_⟩
  intro _ t logged
  apply (Program.wp_ask_of_still ioKit_still _ _ _).mpr
  refine ⟨trivial, ?_⟩
  intro _ t' written
  rw [show t' = t.access 0 from written]
  apply Program.wp_of_preserved (fun s t moved => absurd moved (ioKit_still s t))
  · intro s q answer t answered bad
    obtain ⟨access, member, invalid⟩ := bad
    exact ⟨access, kit_recorded access s q answer t answered member, invalid⟩
  · exact ⟨_, List.mem_append_right _ (List.mem_singleton.mpr rfl), fun valid => valid.1 rfl⟩

end

/-- Between calls: all accesses were valid, the object is in step with its mapping, and
it has none while I/O Kit may start it. -/
structure DriverSession.Kept (s : DriverSession) : Prop where
  sound : s.kit.Sound
  inStep : s.fault = none → InStep s.driver s.kit.held
  idle : s.fault = none → s.startable = true → Unmapped s.driver s.kit.held

theorem fresh_kept : DriverSession.fresh.Kept where
  sound _ member := absurd member List.not_mem_nil
  inStep _ := Or.inl ⟨rfl, rfl, rfl⟩
  idle _ _ := ⟨rfl, rfl, rfl⟩

/-- The condition on a call: a baud change finds the registers mapped. -/
def MappedForBaud (s : DriverSession) (call : DriverCall) : Prop :=
  ∀ baud, call = .setBaud baud → s.driver.regs ≠ 0

/-- After a call that does not come back, only the accesses count. -/
theorem faulted_kept {s : DriverSession} {call : DriverCall} {kit : Kit} {reason : Fault}
    (sound : kit.Sound) : (s.after call kit (.error reason)).Kept ∧
      ((s.after call kit (.error reason)).fault = none → call = .stop →
        (s.after call kit (.error reason)).kit.held = []) := by
  have faulted : (s.after call kit (.error reason)).fault ≠ none := by simp [DriverSession.after]
  exact ⟨⟨sound, fun none => absurd none faulted, fun none => absurd none faulted⟩,
    fun none => absurd none faulted⟩

theorem driverApi_step {s t : DriverSession} {call : DriverCall} (kept : s.Kept)
    (mapped : MappedForBaud s call) (step : driverApi.step s call t) :
    t.Kept ∧ (t.fault = none → call = .stop → t.kit.held = []) := by
  obtain ⟨running, mayStart, limit, outcome, kit, run, rfl⟩ := step
  have inStep := kept.inStep running
  by_cases isStart : call = .start
  · subst isStart
    have unmapped := kept.idle running (mayStart rfl)
    have started : (runDriver limit s.driver .start).wp ioKit (fun _ _ => True)
        (fun outcome t => t.Sound ∧ ∀ left, outcome = .ok left → InStep left.2 t.held) s.kit :=
      wp_returning (fun driver t => InStep driver t.held)
        (wp_start limit ⟨unmapped.1, unmapped.2.1, rfl⟩ ⟨unmapped.2.2, kept.sound⟩)
    have reached := started.exec run
    cases outcome with
    | error reason =>
        exact faulted_kept reached.1
    | ok left =>
        refine ⟨⟨reached.1, fun _ => reached.2 left rfl, ?_⟩, ?_⟩
        · intro _ startable
          simp [DriverSession.after] at startable
        · intro _ impossible
          cases impossible
  · by_cases isStop : call = .stop
    · subst isStop
      have stopped : (runDriver limit s.driver .stop).wp ioKit (fun _ _ => True)
          (fun outcome t => t.Sound ∧ ∀ left, outcome = .ok left → Unmapped left.2 t.held)
          s.kit :=
        wp_returning (fun driver t => Unmapped driver t.held) (wp_stop kept.sound inStep)
      have reached := stopped.exec run
      cases outcome with
      | error reason =>
          exact faulted_kept reached.1
      | ok left =>
          have unmapped := reached.2 left rfl
          exact ⟨⟨reached.1, fun _ => Or.inl unmapped, fun _ _ => unmapped⟩, fun _ _ => unmapped.2.2⟩
    · have reached := (wp_keeping limit call kept.sound inStep isStart isStop mapped).exec run
      obtain ⟨⟨held, sound⟩, same⟩ := reached
      cases outcome with
      | error reason =>
          exact faulted_kept sound
      | ok left =>
          have same := same left rfl
          refine ⟨⟨sound, fun _ => ?_, ?_⟩, fun _ impossible => absurd impossible isStop⟩
          · show InStep left.2 kit.held
            rw [held, same]
            exact inStep
          · intro _ startable
            have before : s.startable = true := by
              simpa [DriverSession.after, isStart, isStop] using startable
            show Unmapped left.2 kit.held
            rw [held, same]
            exact kept.idle running before

/-- An access that was not valid stays on record to the end of the run. -/
theorem invalid_lasts {s : DriverSession} {run : List (DriverCall × DriverSession)}
    (valid : driverApi.IsRun s run) (bad : ∃ access ∈ s.kit.accesses, ¬ ValidAccess access) :
    ∃ access ∈ (LTS.final s run).kit.accesses, ¬ ValidAccess access := by
  apply (valid.invariant (P := fun _ => True)
    (I := fun s => ∃ access ∈ s.kit.accesses, ¬ ValidAccess access) _ (fun _ _ => trivial) bad).2
  intro s call t _ bad step
  obtain ⟨access, member, invalid⟩ := bad
  obtain ⟨_, _, limit, outcome, kit, run, rfl⟩ := step
  have recorded : access ∈ kit.accesses := (Program.wp_of_preserved
    (I := fun kit => access ∈ kit.accesses) (fun s t moved => absurd moved (ioKit_still s t))
    (kit_recorded access) _ s.kit member).exec run
  refine ⟨access, ?_, invalid⟩
  cases outcome <;> exact recorded

/-- The lifecycle claims on a run: every access was valid, and a call that came back
left the object in step with its mapping, and `stop` without one. -/
def LifecycleSafe (s : DriverSession) (run : List (DriverCall × DriverSession)) : Prop :=
  (∀ access ∈ (LTS.final s run).kit.accesses, ValidAccess access) ∧
  ∀ move ∈ run, move.2.fault = none →
    (move.2.driver.regs ≠ 0 ↔ move.2.driver.mmioMap ≠ none) ∧
      (move.1 = .stop → move.2.kit.held = [])

theorem lifecycleSafe_iff {s : DriverSession} (kept : s.Kept)
    (run : List (DriverCall × DriverSession)) (valid : driverApi.IsRun s run) :
    LifecycleSafe s run ↔ LTS.Along MappedForBaud s run := by
  induction run generalizing s with
  | nil =>
      constructor
      · exact fun _ => trivial
      · exact fun _ => ⟨kept.sound, fun _ member => absurd member List.not_mem_nil⟩
  | cons move rest ih =>
      obtain ⟨call, t⟩ := move
      obtain ⟨step, later⟩ := valid
      by_cases mapped : MappedForBaud s call
      · obtain ⟨kept', stopped⟩ := driverApi_step kept mapped step
        have tail := ih kept' later
        constructor
        · intro safe
          exact ⟨mapped, tail.mp ⟨safe.1, fun move member =>
            safe.2 move (List.mem_cons_of_mem _ member)⟩⟩
        · intro along
          have safe := tail.mpr along.2
          refine ⟨safe.1, ?_⟩
          intro move member
          rcases List.mem_cons.mp member with rfl | further
          · exact fun none => ⟨(kept'.inStep none).regs_iff, stopped none⟩
          · exact safe.2 move further
      · constructor
        · intro safe
          unfold MappedForBaud at mapped
          push Not at mapped
          obtain ⟨baud, rfl, zero⟩ := mapped
          obtain ⟨_, _, limit, outcome, kit, run, rfl⟩ := step
          have bad := (wp_setBaud_unmapped limit baud zero).exec run
          have recorded : ∃ access ∈ (s.after (.setBaud baud) kit outcome).kit.accesses,
              ¬ ValidAccess access := by
            cases outcome <;> exact bad
          obtain ⟨access, member, invalid⟩ := invalid_lasts later recorded
          exact absurd (safe.1 access member) invalid
        · exact fun along => absurd along.1 mapped

/-- A kit that maps, with a device that receives nothing and is never busy. -/
def quietKit (s : Kit) : (q : Io) → q.Answer × Kit
  | .read base _ => (pl011FrRXFE, s.access base)
  | .write base _ _ => ((), s.access base)
  | .map => (some 1, { s with held := (1, 0x5000) :: s.held })
  | .getVirtualAddress m => (s.address m, s)
  | .releaseMap m => ((), { s with held := s.held.filter (fun mapping => mapping.1 ≠ m) })
  | .superStart => (true, s)
  | .superMessage _ => ((0 : BitVec 32), s)
  | .getProperty _ => (none, s)
  | .withPhysicalAddress .. => (true, s)
  | .delay _ => ((), s)
  | .log .. => ((), s)
  | .superStop => ((), s)
  | .releaseDescriptor => ((), s)
  | .registerService => ((), s)

theorem quietKit_admitted (s : Kit) (q : Io) :
    ioKit.answers s q (quietKit s q).1 (quietKit s q).2 := by
  cases q with
  | map => exact Or.inr ⟨1, 0x5000, rfl, by decide, rfl⟩
  | getVirtualAddress m => exact ⟨rfl, rfl⟩
  | _ => rfl

/-- One call against `quietKit`. -/
def DriverSession.call (s : DriverSession) (call : DriverCall) : DriverSession :=
  let (outcome, kit) := (runDriver 1 s.driver call).runWith quietKit s.kit
  s.after call kit outcome

theorem DriverSession.call_step (s : DriverSession) (call : DriverCall) (running : s.fault = none)
    (mayStart : call = .start → s.startable = true) : driverApi.step s call (s.call call) :=
  ⟨running, mayStart, 1, _, _, Program.exec_runWith quietKit_admitted _ _, rfl⟩

/-- On a fresh object `setBaud` writes to the control register through a null base. -/
theorem setBaud_before_start : ∃ run, driverApi.IsRun .fresh run ∧
    run.map Prod.fst = [.setBaud 9600] ∧ ¬ LifecycleSafe .fresh run := by
  have valid : driverApi.IsRun .fresh [(.setBaud 9600, DriverSession.fresh.call (.setBaud 9600))] :=
    ⟨DriverSession.call_step _ _ rfl (by decide), trivial⟩
  refine ⟨_, valid, rfl, ?_⟩
  intro safe
  have along := (lifecycleSafe_iff fresh_kept _ valid).mp safe
  exact along.1 9600 rfl rfl

/-- For every sequence of calls, the driver is safe over its whole lifecycle if and only
if every `setBaud` of the sequence is made while the registers are mapped: between
a `start` that returned true and the next `stop`. It alone does not check `_regs`. -/
theorem driver_lifecycle (run : List (DriverCall × DriverSession))
    (valid : driverApi.IsRun .fresh run) :
    LifecycleSafe .fresh run ↔
      LTS.Along (fun s call => ∀ baud, call = .setBaud baud → s.driver.regs ≠ 0) .fresh run :=
  lifecycleSafe_iff fresh_kept run valid

/-- Started, used, set to another rate and stopped: the driver is safe all along. -/
theorem driver_lifecycle_started : ∃ run, driverApi.IsRun .fresh run ∧
    run.map Prod.fst = [.putChar 65, .start, .setBaud 9600, .stop, .putChar 65] ∧
      LifecycleSafe .fresh run := by
  let used := DriverSession.fresh.call (.putChar 65)
  let started := used.call .start
  let changed := started.call (.setBaud 9600)
  let stopped := changed.call .stop
  have valid : driverApi.IsRun .fresh [(.putChar 65, used), (.start, started),
      (.setBaud 9600, changed), (.stop, stopped), (.putChar 65, stopped.call (.putChar 65))] :=
    ⟨DriverSession.call_step _ _ (by decide +kernel) (by decide +kernel),
      DriverSession.call_step _ _ (by decide +kernel) (by decide +kernel),
      DriverSession.call_step _ _ (by decide +kernel) (by decide +kernel),
      DriverSession.call_step _ _ (by decide +kernel) (by decide +kernel),
      DriverSession.call_step _ _ (by decide +kernel) (by decide +kernel), trivial⟩
  have mapped : started.driver.regs ≠ 0 := by decide +kernel
  refine ⟨_, valid, rfl, (driver_lifecycle _ valid).mpr ?_⟩
  have otherwise : ∀ (s : DriverSession) (call : DriverCall), (∀ baud, call ≠ .setBaud baud) →
      ∀ baud, call = .setBaud baud → s.driver.regs ≠ 0 :=
    fun _ _ other baud same => absurd same (other baud)
  exact ⟨otherwise _ _ (by simp), otherwise _ _ (by simp), fun _ _ => mapped,
    otherwise _ _ (by simp), otherwise _ _ (by simp), trivial⟩

end Julius
