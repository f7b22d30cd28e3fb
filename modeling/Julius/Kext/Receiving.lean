import Julius.Kext.Callers

set_option autoImplicit false

/- The receive side of the PL011: who reads the bytes that arrive, and what becomes of them. -/
namespace Julius

open Interact

/-- What FR says of the receive FIFO: a byte is there. -/
def rxWaiting (fr : Reg) : Bool := decide (fr &&& pl011FrRXFE = 0)

/-- The receive FIFO, with a record of what went into it and came out of it. -/
structure Receiver where
  fifo : List Byte
  /-- every byte the FIFO has taken in -/
  accepted : List Byte
  /-- every byte read out of it -/
  taken : List Byte
  /-- reads of DR that found it empty -/
  blind : Nat
  deriving DecidableEq, Repr

namespace Receiver

def empty : Receiver := ⟨[], [], [], 0⟩

/-- A byte arrives. One that finds the FIFO full is lost before it is taken in. -/
inductive Arrives (depth : Nat) (s : Receiver) : Receiver → Prop
  | accept (byte : Byte) (room : s.fifo.length < depth) :
      Arrives depth s { s with fifo := s.fifo ++ [byte], accepted := s.accepted ++ [byte] }

/-- A read of DR takes the first byte, with error flags above it; there is no saying what it
reads when there is none. -/
inductive Reads (s : Receiver) : Reg → Receiver → Prop
  | byte {value : Reg} {rest : List Byte} (first : s.fifo = (value &&& 0xFF).setWidth 8 :: rest) :
      Reads s value { s with fifo := rest, taken := s.taken ++ [(value &&& 0xFF).setWidth 8] }
  | blind {value : Reg} (none : s.fifo = []) : Reads s value { s with blind := s.blind + 1 }

/-- A write that turned the FIFOs off would have no answer; the driver makes none. -/
def answers (s : Receiver) : (q : Io) → q.Answer → Receiver → Prop
  | .read _ offset, value, t =>
      if offset = pl011DR then s.Reads value t
      else t = s ∧ (offset = pl011FR → (rxWaiting value = true ↔ s.fifo ≠ []))
  | .write _ offset value, _, t => t = s ∧ (offset = pl011LCRH → value &&& pl011LcrhFEN ≠ 0)
  | _, _, t => t = s

end Receiver

def receiver (depth : Nat) : World Io Io.Answer Receiver where
  answers := Receiver.answers
  drift := Receiver.Arrives depth

/-- A call of the serial API, reads included. -/
inductive RxCall
  | getChar
  | uart (call : UartCall)
  deriving DecidableEq, Repr

/-- The calls one after another, with the characters that `get_char` returned. -/
def rxCalls (limit : Nat) (regs : Word) : List RxCall → Kext (List Byte)
  | [] => return []
  | .getChar :: rest => do
      let c ← getChar regs
      let more ← rxCalls limit regs rest
      return c.toList ++ more
  | .uart call :: rest => do
      uartCalls limit regs [call]
      rxCalls limit regs rest

/-- A read of DR -/
def Io.takes : Io → Bool
  | .read _ offset => offset = pl011DR
  | _ => false

/-- A query that takes no byte. -/
def Io.Spares (q : Io) : Prop := q.takes = false

/-- A read of FR that shows a byte in the FIFO. -/
def Io.shows : (q : Io) → q.Answer → Prop
  | .read _ offset, fr => offset = pl011FR ∧ rxWaiting fr = true
  | _, _ => False

def UartCall.Sends : UartCall → Prop
  | .setBaud _ => False
  | _ => True

def RxCall.Sends : RxCall → Prop
  | .getChar => False
  | .uart call => call.Sends

/-- Every byte taken in is still there or was taken out, once and in order, and no read was blind. -/
structure Receiver.Exact (s : Receiver) : Prop where
  sighted : s.blind = 0
  kept : s.accepted = s.taken ++ s.fifo

theorem Receiver.Exact.empty : Receiver.empty.Exact := ⟨rfl, rfl⟩

section

variable {depth limit : Nat} {regs : Word} {s t : Receiver}

/-- What a call that sends may ask. -/
structure AllowsSending (regs : Word) (allowed : Io → Prop) : Prop where
  polls : allowed (.read regs pl011FR)
  delays : allowed (.delay 1)
  logs : ∀ format values, allowed (.log format values)
  sends : ∀ value, allowed (.write regs pl011DR value)

section

variable {allowed : Io → Prop} {stops : Fault → Prop} (sending : AllowsSending regs allowed)
include sending

theorem AllowsSending.putChar (c : Byte) : (putChar regs c).Asks allowed stops := by
  unfold Julius.putChar
  by_cases unmapped : regs = 0
  · rw [if_pos unmapped]
    trivial
  · rw [if_neg unmapped]
    have waiting : (do return !(← txReady regs) : Kext Bool).Asks allowed stops :=
      ⟨sending.polls, fun _ => trivial⟩
    apply (waitWhile_asks waiting sending.delays 100000).bind
    intro timeout
    by_cases expired : timeout ≤ 0
    · rw [if_pos expired]
      exact ⟨sending.logs _ _, fun _ => trivial⟩
    · rw [if_neg expired]
      exact ⟨sending.sends _, fun _ => trivial⟩

theorem AllowsSending.putString (s : List Byte) : (putString regs s).Asks allowed stops := by
  induction s with
  | nil => trivial
  | cons c s ih =>
      have rest :
          (do Julius.putChar regs c; Julius.putString regs s : Kext Unit).Asks allowed stops :=
        (sending.putChar c).bind (fun _ => ih)
      unfold Julius.putString
      by_cases newline : c = BitVec.ofNat 8 '\n'.toNat
      · rw [if_pos newline]
        exact (sending.putChar _).bind (fun _ => rest)
      · rw [if_neg newline]
        exact rest

theorem AllowsSending.uartCall (limit : Nat) {call : UartCall} (sends : call.Sends) :
    (uartCalls limit regs [call]).Asks allowed stops := by
  cases call with
  | putChar c => exact (sending.putChar c).bind (fun _ => trivial)
  | putString s => exact (sending.putString s).bind (fun _ => trivial)
  | setBaud baud => exact sends.elim

end

theorem Io.Spares.sending (regs : Word) : AllowsSending regs Io.Spares :=
  ⟨rfl, rfl, fun _ _ => rfl, fun _ => rfl⟩

/-- A caller that only sends leaves the received bytes alone. -/
theorem rxCalls_spares {stops : Fault → Prop} {calls : List RxCall}
    (sends : ∀ call ∈ calls, call.Sends) : (rxCalls limit regs calls).Asks Io.Spares stops := by
  induction calls with
  | nil => trivial
  | cons call rest ih =>
      have later := ih (fun other member => sends other (List.mem_cons_of_mem _ member))
      have first := sends call List.mem_cons_self
      cases call with
      | getChar => exact first.elim
      | uart call => exact ((Io.Spares.sending regs).uartCall limit first).bind (fun _ => later)

/-- A query that takes no byte changes nothing. -/
theorem receiver_spared {q : Io} {answer : q.Answer} (spares : q.Spares)
    (answered : (receiver depth).answers s q answer t) : t = s := by
  cases q with
  | read base offset =>
      have other : offset ≠ pl011DR := of_decide_eq_false spares
      have shape : (if offset = pl011DR then s.Reads answer t else
        t = s ∧ (offset = pl011FR → (rxWaiting answer = true ↔ s.fifo ≠ []))) := answered
      rw [if_neg other] at shape
      exact shape.1
  | write base offset value => exact answered.1
  | _ => exact answered

/-- What the reader has got so far. -/
structure Receiver.Got (got : List Byte) (s : Receiver) : Prop where
  exact : s.Exact
  taken : s.taken = got

theorem Receiver.Exact.arrives (exact : s.Exact) (arrives : Receiver.Arrives depth s t) :
    t.Exact := by
  cases arrives with
  | accept byte room =>
      refine ⟨exact.sighted, ?_⟩
      show s.accepted ++ [byte] = s.taken ++ (s.fifo ++ [byte])
      rw [exact.kept, List.append_assoc]

/-- After calls that returned those bytes; none of them stops. -/
def Receiver.Returned (got : List Byte) : Except Fault (List Byte) → Receiver → Prop
  | .ok bytes, s => s.Got (got ++ bytes)
  | .error _, _ => False

/-- The receiver as one reader sees it among callers that only send. -/
def sharedReceiver (depth : Nat) : World Io Io.Answer Receiver := (receiver depth).amid Io.Spares

theorem Receiver.Got.drifts {got : List Byte} (s t : Receiver)
    (moved : (sharedReceiver depth).drift s t) (held : s.Got got) : t.Got got := by
  rcases moved with arrives | ⟨q, answer, spares, answered⟩
  · refine ⟨held.exact.arrives arrives, ?_⟩
    cases arrives with
    | accept byte room => exact held.taken
  · rw [receiver_spared spares answered]
    exact held

/-- A byte once there stays there for the reader. -/
theorem sharedReceiver_waits (s t : Receiver) (moved : (sharedReceiver depth).drift s t)
    (waits : s.fifo ≠ []) : t.fifo ≠ [] := by
  rcases moved with arrives | ⟨q, answer, spares, answered⟩
  · cases arrives with
    | accept byte room => exact List.append_ne_nil_of_left_ne_nil waits _
  · rw [receiver_spared spares answered]
    exact waits

theorem getChar_poll (mapped : regs ≠ 0) :
    getChar regs = .ask (.read regs pl011FR) (fun (fr : Reg) =>
      if rxWaiting fr then
        .ask (.read regs pl011DR) (fun (dr : Reg) => .ret (some ((dr &&& 0xFF).setWidth 8)))
      else .ret none) := by
  unfold getChar
  rw [if_neg mapped]
  refine congrArg (Program.ask (Io.read regs pl011FR)) (funext fun (fr : Reg) => ?_)
  show (if !(rxWaiting fr) then _ else _) = _
  cases rxWaiting fr <;> rfl

/-- The reader gets the first byte there is, and none only where it saw none. -/
theorem wp_getChar {got : List Byte} (held : s.Got got) :
    (getChar regs).wp (sharedReceiver depth) (fun s _ => s.Exact)
      (fun outcome t => match outcome with
        | .ok c => t.Got (got ++ c.toList)
        | .error _ => False) s := by
  by_cases unmapped : regs = 0
  · unfold getChar
    rw [if_pos unmapped]
    simpa using held
  · rw [getChar_poll unmapped]
    apply Program.wp_ask_of_stable Receiver.Got.drifts held (fun _ held => held.exact)
    intro t fr t' held answered
    obtain ⟨rfl, shown⟩ : t' = t ∧ (rxWaiting fr = true ↔ t.fifo ≠ []) :=
      ⟨answered.1, answered.2 rfl⟩
    cases seen : rxWaiting fr with
    | false =>
        show t'.Got (got ++ [])
        rw [List.append_nil]
        exact held
    | true =>
        apply Program.wp_ask_of_stable (P := fun t => t.Got got ∧ t.fifo ≠ [])
          (fun s t moved held => ⟨held.1.drifts s t moved, sharedReceiver_waits s t moved held.2⟩)
          ⟨held, shown.mp seen⟩ (fun _ held => held.1.exact)
        intro u dr u' held answered
        have taken : u.Reads dr u' := answered
        cases taken with
        | byte first =>
            refine ⟨⟨held.1.exact.sighted, ?_⟩, ?_⟩
            · show u.accepted = (u.taken ++ [_]) ++ _
              rw [held.1.exact.kept, first, List.append_assoc, List.singleton_append]
            · exact congrArg (· ++ [_]) held.1.taken
        | blind none => exact absurd none held.2

/-- A list of calls that ends has returned what was taken meanwhile. -/
theorem wp_rxCalls {calls : List RxCall} (sends : ∀ call, .uart call ∈ calls → call.Sends)
    {got : List Byte} (held : s.Got got) :
    (rxCalls limit regs calls).wp (sharedReceiver depth) (fun s _ => s.Exact)
      (Receiver.Returned got) s := by
  induction calls generalizing s got with
  | nil =>
      show s.Got (got ++ [])
      rw [List.append_nil]
      exact held
  | cons call rest ih =>
      have later := fun call member => sends call (List.mem_cons_of_mem _ member)
      cases call with
      | getChar =>
          apply (Program.wp_bind _ _ _).mpr
          apply Program.wp_mono (wp_getChar held) (fun _ _ exact => exact)
          intro outcome t reached
          cases outcome with
          | error reason => exact reached
          | ok c =>
              apply (Program.wp_bind _ _ _).mpr
              apply Program.wp_mono (ih later reached) (fun _ _ exact => exact)
              intro outcome u reached
              cases outcome with
              | error reason => exact reached
              | ok more =>
                  show u.Got (got ++ (c.toList ++ more))
                  rw [← List.append_assoc]
                  exact reached
      | uart call =>
          have spares : (uartCalls limit regs [call]).Asks Io.Spares (fun _ => False) :=
            (Io.Spares.sending regs).uartCall limit (sends call List.mem_cons_self)
          apply spares.wp_bind Receiver.Got.drifts _ (fun _ _ _ held => held.exact) held
            (fun _ _ never _ => never.elim) (fun _ t held => ih later held)
          intro s q answer t allowed answered held
          rw [@receiver_spared depth _ _ _ _ allowed answered]
          exact held

theorem Receiver.Returned.stable {got : List Byte} (outcome : Except Fault (List Byte))
    (s t : Receiver) (moved : (sharedReceiver depth).drift s t)
    (held : Receiver.Returned got outcome s) : Receiver.Returned got outcome t := by
  cases outcome with
  | ok bytes => exact Receiver.Got.drifts s t moved held
  | error reason => exact held

end

/-- One caller may read while any number of others send: whatever the order of their steps,
it gets the bytes the FIFO took in, each once and in their order, and never one that was
not there. -/
theorem getChar_exact (depth limit : Nat) (regs : Word) (before after : List (List RxCall))
    (calls : List RxCall) (s : Receiver) (exact : s.Exact)
    (sends : ∀ call, .uart call ∈ calls → call.Sends)
    (others : ∀ other ∈ before ++ after, ∀ call ∈ other, RxCall.Sends call)
    (config : Pool Io Io.Answer Fault (List Byte) × Receiver)
    (reached : Pool.Reachable (receiver depth) (fun _ _ => True)
      ((before ++ calls :: after).map (rxCalls limit regs), s) config) :
    config.2.Exact ∧ ∃ rest, config.1[before.length]? = some rest ∧
      ∀ bytes, rest = .ret bytes → config.2.taken = s.taken ++ bytes := by
  rw [List.map_append, List.map_cons] at reached
  have spare : ∀ other ∈ before.map (rxCalls limit regs) ++ after.map (rxCalls limit regs),
      other.Asks Io.Spares (fun _ => True) := by
    intro other member
    rw [← List.map_append] at member
    obtain ⟨calls, inside, rfl⟩ := List.mem_map.mp member
    exact rxCalls_spares (others calls inside)
  have start : s.Got s.taken := ⟨exact, rfl⟩
  obtain ⟨front, rest, back, shape, length, holds, _⟩ :=
    Pool.Reachable.among Receiver.Returned.stable (wp_rxCalls sends start) spare reached
  rw [List.length_map] at length
  have here : config.1[before.length]? = some rest := by
    rw [shape, ← length, List.getElem?_append_right (Nat.le_refl _), Nat.sub_self]
    rfl
  cases rest with
  | ret bytes =>
      have got : config.2.Got (s.taken ++ bytes) := holds
      refine ⟨got.exact, _, here, ?_⟩
      intro other same
      cases same
      exact got.taken
  | halt reason => exact holds.elim
  | ask q next => exact ⟨(holds config.2 .refl).1, _, here, nofun⟩

/-- One byte arrives, and the reader gets it while the sender has not begun. -/
theorem getChar_exact_one : ∃ config : Pool Io Io.Answer Fault (List Byte) × Receiver,
    Pool.Reachable (receiver 16) (fun _ _ => True)
      ([[.getChar], [.uart (.putChar 65)]].map (rxCalls 1 kDefaultUARTBase), .empty) config ∧
      config.2.Exact ∧ ∃ rest, config.1[0]? = some rest ∧
        ∀ bytes, rest = .ret bytes → config.2.taken = bytes := by
  let sender := rxCalls 1 kDefaultUARTBase [.uart (.putChar 65)]
  let holding : Receiver := ⟨[66], [66], [], 0⟩
  have arrives : Receiver.Arrives 16 .empty holding := .accept 66 (by decide)
  have shown : (receiver 16).answers holding (.read kDefaultUARTBase pl011FR) (0 : Reg) holding :=
    ⟨rfl, fun _ => by decide⟩
  have read : (receiver 16).answers holding (.read kDefaultUARTBase pl011DR) (66 : Reg)
    ⟨[], [66], [66], 0⟩ := @Receiver.Reads.byte holding 66 [] rfl
  have path : Pool.Reachable (receiver 16) (fun _ _ => True)
      ([rxCalls 1 kDefaultUARTBase [.getChar], sender], .empty)
      ([.ret [66], sender], ⟨[], [66], [66], 0⟩) := by
    refine .head ⟨.drift arrives, trivial⟩ ?_
    refine .head ⟨@Pool.Step.ask _ _ _ _ _ _ [] [sender] _ _ _ _ _ shown, trivial⟩ ?_
    exact .head ⟨@Pool.Step.ask _ _ _ _ _ _ [] [sender] _ _ _ _ _ read, trivial⟩ .refl
  have senders : ∀ other ∈ ([] : List (List RxCall)) ++ [[.uart (.putChar 65)]],
      ∀ call ∈ other, RxCall.Sends call := by
    intro other member call inside
    rw [List.nil_append, List.mem_singleton] at member
    subst member
    rw [List.mem_singleton] at inside
    subst inside
    trivial
  exact ⟨_, path, getChar_exact 16 1 kDefaultUARTBase [] [[.uart (.putChar 65)]] [.getChar] .empty
    .empty nofun senders _ path⟩

section

variable {depth limit : Nat} {regs : Word} {s t : Receiver}

theorem drainRx_checks (limit : Nat) : (drainRx regs limit).Checks Io.takes Io.shows False := by
  induction limit with
  | zero => trivial
  | succ limit ih =>
      rw [drainRx_poll]
      refine ⟨(fun act => by cases act), ?_⟩
      intro fr
      show Program.Checks _ _ _ (if rxWaiting fr then _ else _)
      cases seen : rxWaiting fr with
      | true => exact ⟨fun _ => ⟨rfl, seen⟩, fun _ => ih.weaken⟩
      | false => trivial

theorem hwInit_checks (baud : Reg) :
    (hwInit limit regs baud).Checks Io.takes Io.shows False := by
  have spares : ∀ {α : Type} {program : Kext α}, program.Asks Io.Spares (fun _ => True) →
      program.Checks Io.takes Io.shows False := fun asks => asks.checks (fun _ spares => spares)
  refine ⟨(fun act => by cases act), fun _ => Program.Checks.weaken ?_⟩
  have busy : (uartBusy regs).Asks Io.Spares (fun _ => True) := uartBusy_asks rfl
  apply (spares (waitWhile_asks busy rfl 100000)).bind
  intro _
  apply (drainRx_checks limit).bind
  intro _
  by_cases zero : baud16 baud = 0
  · simp only [zero, ↓reduceIte]
    trivial
  · simp only [zero, ↓reduceIte]
    apply spares
    exact ⟨rfl, fun _ => ⟨rfl, fun _ => ⟨rfl, fun _ => ⟨rfl, fun _ => ⟨rfl, fun _ =>
      ⟨rfl, fun _ => ⟨rfl, fun _ => trivial⟩⟩⟩⟩⟩⟩⟩

theorem getChar_checks : (getChar regs).Checks Io.takes Io.shows False := by
  by_cases unmapped : regs = 0
  · unfold getChar
    rw [if_pos unmapped]
    trivial
  · rw [getChar_poll unmapped]
    refine ⟨(fun act => by cases act), ?_⟩
    intro fr
    dsimp only
    cases seen : rxWaiting fr with
    | true => exact ⟨fun _ => ⟨rfl, seen⟩, fun _ => trivial⟩
    | false => trivial

/-- Between a look at FR that shows a byte and the read of DR a call does nothing else. -/
theorem rxCalls_checks (calls : List RxCall) :
    (rxCalls limit regs calls).Checks Io.takes Io.shows False := by
  induction calls with
  | nil => trivial
  | cons call rest ih =>
      cases call with
      | getChar => exact getChar_checks.bind (fun _ => ih.bind (fun _ => trivial))
      | uart call =>
          have first : (uartCalls limit regs [call]).Checks Io.takes Io.shows False := by
            have sent : call.Sends →
                (uartCalls limit regs [call]).Checks Io.takes Io.shows False := by
              intro sends
              have spares : (uartCalls limit regs [call]).Asks Io.Spares (fun _ => True) :=
                (Io.Spares.sending regs).uartCall limit sends
              exact spares.checks (fun _ spares => spares)
            cases call with
            | putChar c => exact sent trivial
            | putString s => exact sent trivial
            | setBaud baud =>
                exact ⟨(fun act => by cases act), fun _ =>
                  (hwInit_checks baud).weaken.bind (fun _ => trivial)⟩
          exact first.bind (fun _ => ih)

/-- The bytes that wait are what the readers compete for. -/
def Receiver.waiting (s : Receiver) : Nat := s.fifo.length

theorem Receiver.Reads.waiting {value : Reg} (reads : s.Reads value t) :
    t.waiting = s.waiting - 1 := by
  unfold Receiver.waiting
  cases reads with
  | byte first => rw [first]; rfl
  | blind none => rw [none]; rfl

/-- A read of DR, or nothing changes. -/
theorem receiver_answered {q : Io} {answer : q.Answer}
    (answered : (receiver depth).answers s q answer t) :
    (q.takes = false ∧ t = s) ∨ q.takes = true ∧ ∃ value, s.Reads value t := by
  cases takes : q.takes with
  | false => exact Or.inl ⟨rfl, receiver_spared takes answered⟩
  | true =>
      refine Or.inr ⟨rfl, ?_⟩
      cases q with
      | read base offset =>
          have dr : offset = pl011DR := of_decide_eq_true takes
          subst dr
          exact ⟨answer, answered⟩
      | _ => cases takes

theorem receiver_resource (depth : Nat) :
    Pool.Resource (receiver depth) Io.takes Io.shows Receiver.waiting where
  drift := by
    rintro s t ⟨byte, room⟩
    unfold Receiver.waiting
    rw [List.length_append]
    exact Nat.le_add_right _ _
  act := by
    intro s q answer t answered takes
    rcases receiver_answered answered with ⟨_, rfl⟩ | ⟨_, value, reads⟩
    · exact Nat.le_succ _
    · have left := reads.waiting
      omega
  other := by
    intro s q answer t answered spares
    exact Nat.le_of_eq (congrArg Receiver.waiting (receiver_spared spares answered).symm)
  clear := by
    intro s q answer t answered shows
    cases q with
    | read base offset =>
        obtain ⟨fr, seen⟩ := shows
        subst fr
        have there : s.fifo ≠ [] := (answered.2 rfl).mp seen
        exact ⟨rfl, List.length_pos_iff.mpr there⟩
    | _ => exact shows.elim

/-- No read is blind while every caller about to read has a byte waiting for it. -/
theorem exact_step {a b : Pool Io Io.Answer Fault (List Byte) × Receiver} (exact : a.2.Exact)
    (room : Pool.pending Io.takes a.1 ≤ a.2.waiting) (step : Pool.Step (receiver depth) a b) :
    b.2.Exact := by
  cases step with
  | drift moved => exact exact.arrives moved
  | @ask before after q next s t answer answered =>
      rcases receiver_answered answered with ⟨_, rfl⟩ | ⟨takes, value, reads⟩
      · exact exact
      · have pending : 0 < Pool.pending Io.takes (before ++ .ask q next :: after) :=
          List.countP_pos_iff.mpr ⟨.ask q next, by simp, takes⟩
        cases reads with
        | byte first =>
            refine ⟨exact.sighted, ?_⟩
            show s.accepted = (s.taken ++ [_]) ++ _
            rw [exact.kept, first, List.append_assoc, List.singleton_append]
        | blind none =>
            unfold Receiver.waiting at room
            rw [none] at room
            exact absurd (Nat.lt_of_lt_of_le pending room) (Nat.not_lt_zero _)

end

section

variable {depth limit : Nat} {regs : Word} {s : Receiver} {callers : List (List RxCall)}
  {config : Pool Io Io.Answer Fault (List Byte) × Receiver}

theorem readers_checks (callers : List (List RxCall)) :
    Pool.Checks Io.takes Io.shows (callers.map (rxCalls limit regs)) := by
  intro program member
  obtain ⟨calls, _, rfl⟩ := List.mem_map.mp member
  exact ⟨False, rxCalls_checks calls⟩

theorem readers_pending (callers : List (List RxCall)) :
    Pool.pending Io.takes (callers.map (rxCalls limit regs)) = 0 := by
  apply List.countP_eq_zero.mpr
  intro program member act
  obtain ⟨calls, _, rfl⟩ := List.mem_map.mp member
  exact (rxCalls_checks calls).of_aboutTo act

theorem readers_exact (exact : s.Exact)
    (reached : Pool.Reachable (receiver depth) (Pool.Heeds Io.takes Receiver.waiting)
      (callers.map (rxCalls limit regs), s) config) : config.2.Exact := by
  have start : Pool.pending Io.takes (callers.map (rxCalls limit regs)) ≤ s.waiting := by
    rw [readers_pending]
    exact Nat.zero_le _
  induction reached with
  | refl => exact exact
  | tail before move ih =>
      have room := (receiver_resource depth).pending_run (readers_checks callers) start before
      exact exact_step ih room move.1

/-- A register that holds a byte and no error flags. -/
theorem dr_byte (byte : Byte) : (byte.setWidth 32 &&& 0xFF : Reg).setWidth 8 = byte := by
  revert byte
  decide

/-- A read of DR always finds an answer. -/
theorem receiver_gives (depth : Nat) (s : Receiver) (q : Io) (takes : q.takes = true) :
    ∃ answer t, (receiver depth).answers s q answer t ∧ t.waiting = s.waiting - 1 := by
  cases q with
  | read base offset =>
      have dr : offset = pl011DR := of_decide_eq_true takes
      subst dr
      have found : ∃ value t, s.Reads value t := by
        cases shape : s.fifo with
        | nil => exact ⟨0, _, .blind shape⟩
        | cons byte rest =>
            rw [← dr_byte byte] at shape
            exact ⟨byte.setWidth 32, _, .byte shape⟩
      obtain ⟨value, t, reads⟩ := found
      exact ⟨value, t, reads, reads.waiting⟩
  | _ => cases takes

end

/-- Where all callers may read, `get_char` and the drain of `set_baud` alike, they share the
bytes without a blind read as long as none finds one there while as many others are already
about to read; a caller on its own always does. Once more of them are about to read than
bytes wait, one can read what is not there. -/
theorem getChar_shared (depth limit : Nat) (regs : Word) (callers : List (List RxCall))
    (s : Receiver) (exact : s.Exact) :
    (∀ config, Pool.Reachable (receiver depth) (Pool.Heeds Io.takes Receiver.waiting)
      (callers.map (rxCalls limit regs), s) config → config.2.Exact) ∧
    (callers.length = 1 → ∀ config, Pool.Reachable (receiver depth) (fun _ _ => True)
      (callers.map (rxCalls limit regs), s) config →
        Pool.Reachable (receiver depth) (Pool.Heeds Io.takes Receiver.waiting)
          (callers.map (rxCalls limit regs), s) config) ∧
    (∀ config, Pool.Reachable (receiver depth) (fun _ _ => True)
      (callers.map (rxCalls limit regs), s) config →
        config.2.waiting < Pool.pending Io.takes config.1 →
          ∃ later, Pool.Reachable (receiver depth) (fun _ _ => True) config later ∧
            0 < later.2.blind) := by
  have resource := receiver_resource depth
  refine ⟨?_, ?_, ?_⟩
  · intro config reached
    exact readers_exact exact reached
  · intro single config reached
    apply resource.run_alone (readers_checks callers) _ reached
    rw [List.length_map]
    exact single
  · intro config reached excess
    obtain ⟨⟨pool, t⟩, path, act, none⟩ :=
      resource.overrun (receiver_gives depth) ((readers_checks callers).run reached) excess
    obtain ⟨program, member, reading⟩ := List.countP_pos_iff.mp act
    obtain ⟨before, after, rfl⟩ := List.append_of_mem member
    cases program with
    | ret value => cases reading
    | halt reason => cases reading
    | ask q next =>
        cases q with
        | read base offset =>
            have dr : offset = pl011DR := of_decide_eq_true reading
            subst dr
            have nothing : t.fifo = [] := List.length_eq_zero_iff.mp none
            have answered : (receiver depth).answers t (.read base pl011DR) (0 : Reg)
              { t with blind := t.blind + 1 } := Receiver.Reads.blind nothing
            exact ⟨_, path.tail ⟨.ask answered, trivial⟩, Nat.succ_pos _⟩
        | _ => cases reading

/-- Two readers see the one byte that waits, and both go on to read it. -/
theorem getChar_shared_two : ∃ config : Pool Io Io.Answer Fault (List Byte) × Receiver,
    Pool.Reachable (receiver 16) (fun _ _ => True)
      ([[.getChar], [.getChar]].map (rxCalls 1 kDefaultUARTBase), ⟨[66], [66], [], 0⟩) config ∧
      config.2.waiting < Pool.pending Io.takes config.1 ∧
      ∃ later, Pool.Reachable (receiver 16) (fun _ _ => True) config later ∧ 0 < later.2.blind := by
  let holding : Receiver := ⟨[66], [66], [], 0⟩
  let reading : Kext (List Byte) := .ask (.read kDefaultUARTBase pl011DR)
    (fun (dr : Reg) => .ret ((some ((dr &&& 0xFF).setWidth 8)).toList ++ []))
  have shown : (receiver 16).answers holding (.read kDefaultUARTBase pl011FR) (0 : Reg) holding :=
    ⟨rfl, fun _ => by decide⟩
  let readers : List (List RxCall) := [[.getChar], [.getChar]]
  have path : Pool.Reachable (receiver 16) (fun _ _ => True)
      (readers.map (rxCalls 1 kDefaultUARTBase), holding)
      (readers.map (fun _ => reading), holding) := by
    have each : ∀ calls ∈ readers, ∃ q next answer,
        rxCalls 1 kDefaultUARTBase calls = .ask q next ∧ reading = next answer ∧
          (receiver 16).answers holding q answer holding := by
      intro calls member
      have same : calls = [.getChar] := by simpa [readers] using member
      subst same
      exact ⟨.read kDefaultUARTBase pl011FR, _, (0 : Reg), rfl, rfl, shown⟩
    exact Pool.Reachable.each readers each []
  have shared := getChar_shared 16 1 kDefaultUARTBase readers holding ⟨rfl, rfl⟩
  exact ⟨_, path, by decide, shared.2.2 _ path (by decide)⟩

end Julius
