import Julius.Lib.CheckAct
import Julius.Kext.Pl011

set_option autoImplicit false

/- Several callers of the serial API at once: who finds room in the FIFO, and who uses it. -/
namespace Julius

open Interact

/-- A write to DR. -/
def Io.sends : Io → Bool
  | .write _ offset _ => offset = pl011DR
  | _ => false

/-- A read of FR that shows room in the FIFO. -/
def Io.clears : (q : Io) → q.Answer → Prop
  | .read _ offset, fr => offset = pl011FR ∧ txFull fr = false
  | _, _ => False

/-- The room in the FIFO. -/
def Pl011.free (depth : Nat) (s : Pl011) : Nat := depth - s.fifo.length

/-- A caller is about to write to DR, and the FIFO is full. -/
def Drops (depth : Nat) (config : Pool Io Io.Answer Fault Unit × Pl011) : Prop :=
  0 < Pool.pending Io.sends config.1 ∧ depth ≤ config.2.fifo.length

section

variable {depth limit : Nat} {regs : Word} {s t : Pl011}

theorem waitTx_checks (timeout : Nat) {next : Int → Kext Unit} {cleared : Prop}
    (late : ∀ left ≤ 0, (next left).Checks Io.sends Io.clears False)
    (timely : ∀ left, (next left).Checks Io.sends Io.clears True) :
    ((waitWhile (do return txFull (← regRead regs pl011FR)) timeout).bind next).Checks
      Io.sends Io.clears cleared := by
  induction timeout generalizing cleared with
  | zero =>
      rw [waitWhile_lastPoll]
      refine ⟨(fun act => by cases act), ?_⟩
      intro fr
      cases full : txFull fr with
      | true =>
          dsimp only
          rw [full, if_pos rfl]
          exact (late (-1) (by decide)).weaken
      | false =>
          dsimp only
          rw [full]
          exact (late 0 (Int.le_refl 0)).weaken
  | succ timeout ih =>
      rw [waitWhile_poll]
      refine ⟨(fun act => by cases act), ?_⟩
      intro fr
      cases full : txFull fr with
      | true =>
          dsimp only
          rw [full, if_pos rfl]
          exact ⟨(fun act => by cases act), fun _ => ih⟩
      | false =>
          dsimp only
          rw [full]
          have shown : Io.clears (.read regs pl011FR) fr = True :=
            eq_true ⟨rfl, full⟩
          rw [shown]
          exact timely _

theorem putChar_checks (c : Byte) : (putChar regs c).Checks Io.sends Io.clears False := by
  unfold putChar
  by_cases unmapped : regs = 0
  · rw [if_pos unmapped]
    trivial
  · rw [if_neg unmapped, txReady_eq]
    apply waitTx_checks
    · intro left expired
      rw [if_pos expired]
      exact ⟨(fun act => by cases act), fun _ => trivial⟩
    · intro left
      split
      · exact ⟨(fun act => by cases act), fun _ => trivial⟩
      · exact ⟨fun _ => trivial, fun _ => trivial⟩

theorem putString_checks (s : List Byte) :
    (putString regs s).Checks Io.sends Io.clears False := by
  induction s with
  | nil => trivial
  | cons c s ih =>
      have rest : (do putChar regs c; putString regs s : Kext Unit).Checks Io.sends Io.clears False :=
        (putChar_checks c).bind (fun _ => ih)
      unfold putString
      by_cases newline : c = BitVec.ofNat 8 '\n'.toNat
      · rw [if_pos newline]
        exact (putChar_checks _).bind (fun _ => rest)
      · rw [if_neg newline]
        exact rest

theorem Io.Silent.idle (q : Io) (silent : q.Silent regs) : q.sends = false := by
  cases q with
  | write base offset value => exact decide_eq_false silent.2.1
  | _ => rfl

/-- Between a look at FR that shows room and the write to DR a call does nothing else. -/
theorem uartCalls_checks (calls : List UartCall) :
    (uartCalls limit regs calls).Checks Io.sends Io.clears False := by
  induction calls with
  | nil => trivial
  | cons call rest ih =>
      cases call with
      | putChar c => exact (putChar_checks c).bind (fun _ => ih)
      | putString s => exact (putString_checks s).bind (fun _ => ih)
      | setBaud baud =>
          have asks : (setBaud limit regs baud).Asks (Io.Silent regs) (fun _ => True) :=
            ⟨trivial, fun _ => hwInit_silent limit baud⟩
          exact (asks.checks Io.Silent.idle).bind (fun _ => ih)

theorem uartCalls_asks (calls : List UartCall) :
    (uartCalls limit regs calls).Asks (Io.OnRegs regs) (fun _ => True) := by
  induction calls with
  | nil => trivial
  | cons call rest ih =>
      cases call with
      | putChar c =>
          have asks : (putChar regs c).Asks (Io.OnRegs regs) (fun _ => True) :=
            (putChar_asks c).mono (fun _ asked => asked) (fun _ => False.elim)
          exact asks.bind (fun _ => ih)
      | putString s =>
          have asks : (putString regs s).Asks (Io.OnRegs regs) (fun _ => True) :=
            (putString_asks s).mono (fun _ asked => asked) (fun _ => False.elim)
          exact asks.bind (fun _ => ih)
      | setBaud baud => exact ⟨trivial, fun _ => (hwInit_asks limit baud).bind (fun _ => ih)⟩

theorem store_dr_length (depth : Nat) (s : Pl011) (value : Reg) :
    (s.store depth pl011DR value).free depth = s.free depth - 1 := by
  show depth - (if s.fifo.length < depth then _ else _ : List (Byte × Divisor)).length = _
  unfold Pl011.free
  split
  · rw [List.length_append, List.length_singleton]
    omega
  · omega

theorem store_length_le (depth : Nat) (s : Pl011) {offset : Reg} (value : Reg)
    (other : offset ≠ pl011DR) : (s.store depth offset value).fifo.length ≤ s.fifo.length := by
  unfold Pl011.store
  rw [if_neg other]
  split_ifs with ibrd fbrd lcrh flushes cr
  · exact Nat.le_refl _
  · exact Nat.le_refl _
  · exact Nat.zero_le _
  · exact Nat.le_refl _
  · exact Nat.le_refl _
  · exact Nat.le_refl _

/-- The room in the FIFO is what the callers compete for. -/
theorem pl011_resource (depth : Nat) :
    Pool.Resource (pl011 depth) Io.sends Io.clears (Pl011.free depth) where
  drift := by
    intro s t moved
    have shorter := Pl011.Moves.length_le moved
    unfold Pl011.free
    omega
  act := by
    intro s q answer t answered sends
    rcases pl011_answered answered with rfl | ⟨base, offset, value, rfl, rfl⟩
    · exact Nat.le_succ _
    · have dr : offset = pl011DR := of_decide_eq_true sends
      have taken := store_dr_length depth s value
      rw [dr]
      omega
  other := by
    intro s q answer t answered quiet
    rcases pl011_answered answered with rfl | ⟨base, offset, value, rfl, rfl⟩
    · exact Nat.le_refl _
    · have other : offset ≠ pl011DR := of_decide_eq_false quiet
      have shorter := store_length_le depth s value other
      unfold Pl011.free
      omega
  clear := by
    intro s q answer t answered clears
    cases q with
    | read base offset =>
        have room := ((answered.2 clears.1).1).mp (txFull_false.mp clears.2)
        unfold Pl011.free
        exact ⟨rfl, by omega⟩
    | _ => exact clears.elim

/-- No byte is lost while every caller about to write has room. -/
theorem kept_step {a b : Pool Io Io.Answer Fault Unit × Pl011} (kept : a.2.Kept)
    (asks : ∀ program ∈ a.1, program.Asks (Io.OnRegs regs) (fun _ => True))
    (room : Pool.pending Io.sends a.1 ≤ a.2.free depth) (step : Pool.Step (pl011 depth) a b) :
    b.2.Kept := by
  cases step with
  | drift moved => exact kept.moves moved
  | @ask before after q next s t answer answered =>
      have asked : q.OnRegs regs := (asks (.ask q next) (by simp)).1
      rcases pl011_answered answered with rfl | ⟨base, offset, value, rfl, rfl⟩
      · exact kept
      · apply kept.store _ asked.2
        intro dr
        have pending : 0 < Pool.pending Io.sends
            (before ++ .ask (.write base offset value) next :: after) :=
          List.countP_pos_iff.mpr ⟨.ask (.write base offset value) next, by simp, decide_eq_true dr⟩
        unfold Pl011.free at room
        dsimp only at *
        omega

theorem callers_checks (callers : List (List UartCall)) :
    Pool.Checks Io.sends Io.clears (callers.map (uartCalls limit regs)) := by
  intro program member
  obtain ⟨calls, _, rfl⟩ := List.mem_map.mp member
  exact ⟨False, uartCalls_checks calls⟩

theorem callers_pending (callers : List (List UartCall)) :
    Pool.pending Io.sends (callers.map (uartCalls limit regs)) = 0 := by
  apply List.countP_eq_zero.mpr
  intro program member act
  obtain ⟨calls, _, rfl⟩ := List.mem_map.mp member
  exact (uartCalls_checks calls).of_aboutTo act

theorem callers_asks (callers : List (List UartCall)) :
    ∀ program ∈ callers.map (uartCalls limit regs),
      program.Asks (Io.OnRegs regs) (fun _ => True) := by
  intro program member
  obtain ⟨calls, _, rfl⟩ := List.mem_map.mp member
  exact uartCalls_asks calls

variable {callers : List (List UartCall)} {config : Pool Io Io.Answer Fault Unit × Pl011}

theorem callers_kept (kept : s.Kept)
    (reached : Pool.Reachable (pl011 depth) (Pool.Heeds Io.sends (Pl011.free depth))
      (callers.map (uartCalls limit regs), s) config) :
    Pool.pending Io.sends config.1 ≤ config.2.free depth ∧ config.2.Kept := by
  have resource := pl011_resource depth
  have start : Pool.pending Io.sends (callers.map (uartCalls limit regs)) ≤ s.free depth := by
    rw [callers_pending]
    exact Nat.zero_le _
  have held : (∀ program ∈ config.1, program.Asks (Io.OnRegs regs) (fun _ => True)) ∧
      config.2.Kept := by
    induction reached with
    | refl => exact ⟨callers_asks callers, kept⟩
    | tail before move ih =>
        have room := resource.pending_run (callers_checks callers) start before
        exact ⟨move.1.forall (fun _ _ answer asks => asks.2 answer) ih.1,
          kept_step ih.2 ih.1 room move.1⟩
  exact ⟨resource.pending_run (callers_checks callers) start reached, held.2⟩

theorem store_full (full : depth ≤ s.fifo.length) (value : Reg) :
    s.store depth pl011DR value = { s with sent := s.sent ++ [value.setWidth 8] } := by
  show ({ s with
    fifo := if s.fifo.length < depth then _ else s.fifo
    sent := s.sent ++ [value.setWidth 8] } : Pl011) = _
  rw [if_neg (Nat.not_lt.mpr full)]

/-- A write to DR always finds an answer. -/
theorem pl011_takes (depth : Nat) (s : Pl011) (q : Io) (sends : q.sends = true) :
    ∃ answer t, (pl011 depth).answers s q answer t ∧ t.free depth = s.free depth - 1 := by
  cases q with
  | write base offset value =>
      have dr : offset = pl011DR := of_decide_eq_true sends
      subst dr
      exact ⟨(), _, rfl, store_dr_length depth s value⟩
  | _ => cases sends

/-- A byte written to a full FIFO is lost. -/
theorem Drops.loses (drops : Drops depth config) :
    ∃ later, Pool.Reachable (pl011 depth) (fun _ _ => True) config later ∧ ¬ later.2.Kept := by
  by_cases kept : config.2.Kept
  · obtain ⟨pool, s⟩ := config
    obtain ⟨program, member, act⟩ := List.countP_pos_iff.mp drops.1
    obtain ⟨before, after, rfl⟩ := List.append_of_mem member
    cases program with
    | ret value => cases act
    | halt reason => cases act
    | ask q next =>
        cases q with
        | write base offset value =>
            have dr : offset = pl011DR := of_decide_eq_true act
            subst dr
            have step : Pool.Step (pl011 depth) (before ++ .ask (.write base pl011DR value) next :: after, s)
                (before ++ next () :: after, s.store depth pl011DR value) := .ask rfl
            refine ⟨_, Relation.ReflTransGen.single ⟨step, trivial⟩, ?_⟩
            intro still
            rw [store_full drops.2] at still
            have longer : s.sent ++ [value.setWidth 8] = s.sent := still.trans kept.symm
            simp at longer
        | _ => cases act
  · exact ⟨config, .refl, kept⟩

end

/-- The callers share the FIFO without loss as long as none finds room there while as
many others are already about to use it; a caller on its own always does. Once more
of them are about to write than there is room for, a byte can be lost. -/
theorem putChar_shared (depth limit : Nat) (regs : Word) (callers : List (List UartCall))
    (s : Pl011) (kept : s.Kept) :
    (∀ config, Pool.Reachable (pl011 depth) (Pool.Heeds Io.sends (Pl011.free depth))
      (callers.map (uartCalls limit regs), s) config → ¬ Drops depth config ∧ config.2.Kept) ∧
    (callers.length = 1 → ∀ config, Pool.Reachable (pl011 depth) (fun _ _ => True)
      (callers.map (uartCalls limit regs), s) config →
        Pool.Reachable (pl011 depth) (Pool.Heeds Io.sends (Pl011.free depth))
          (callers.map (uartCalls limit regs), s) config) ∧
    (∀ config, Pool.Reachable (pl011 depth) (fun _ _ => True)
      (callers.map (uartCalls limit regs), s) config →
        config.2.free depth < Pool.pending Io.sends config.1 →
          ∃ later, Pool.Reachable (pl011 depth) (fun _ _ => True) config later ∧
            ¬ later.2.Kept) := by
  have resource := pl011_resource depth
  refine ⟨?_, ?_, ?_⟩
  · intro config reached
    obtain ⟨room, held⟩ := callers_kept kept reached
    refine ⟨?_, held⟩
    intro drops
    have full := drops.2
    have act := drops.1
    unfold Pl011.free at room
    omega
  · intro single config reached
    apply resource.run_alone (callers_checks callers) _ reached
    rw [List.length_map]
    exact single
  · intro config reached excess
    have always := pl011_takes depth
    obtain ⟨full, path, act, none⟩ :=
      resource.overrun always ((callers_checks callers).run reached) excess
    have drops : Drops depth full := ⟨act, Nat.le_of_sub_eq_zero none⟩
    obtain ⟨later, rest, lost⟩ := drops.loses
    exact ⟨later, path.trans rest, lost⟩

/-- A call of `put_char` whose first poll shows room is about to write. -/
theorem putChar_finds {limit : Nat} {regs : Word} {fr : Reg} (mapped : regs ≠ 0)
    (clear : txFull fr = false) (c : Byte) :
    ∃ next : Reg → Kext Unit, uartCalls limit regs [.putChar c] =
      .ask (.read regs pl011FR) next ∧
        next fr = .ask (.write regs pl011DR (c.setWidth 32)) .ret := by
  unfold uartCalls putChar
  rw [if_neg mapped, txReady_eq, waitWhile_poll]
  refine ⟨_, rfl, ?_⟩
  dsimp only
  rw [clear]
  rfl

/-- Two callers find room in an empty FIFO of two, and fill it without loss. -/
theorem putChar_shared_two : ∃ both full : Pool Io Io.Answer Fault Unit × Pl011,
    Pool.Reachable (pl011 2) (Pool.Heeds Io.sends (Pl011.free 2))
      ([[.putChar 65], [.putChar 66]].map (uartCalls 1 kDefaultUARTBase),
        .idle (baudDivisors juliusUartBaud)) both ∧
      Pool.pending Io.sends both.1 = 2 ∧ both.2.free 2 = 2 ∧
    Pool.Reachable (pl011 2) (Pool.Heeds Io.sends (Pl011.free 2)) both full ∧
      full.2.sent = [65, 66] ∧ full.2.free 2 = 0 ∧ ¬ Drops 2 full ∧ full.2.Kept := by
  let ready : Pl011 := .idle (baudDivisors juliusUartBaud)
  let writing : Byte → Kext Unit :=
    fun c => .ask (.write kDefaultUARTBase pl011DR (c.setWidth 32)) .ret
  let one : Pl011 := ready.store 2 pl011DR 65
  let two : Pl011 := one.store 2 pl011DR 66
  have polled : (pl011 2).answers ready (.read kDefaultUARTBase pl011FR) (0x10 : Reg) ready :=
    ⟨rfl, fun _ => ⟨by decide, by decide⟩⟩
  obtain ⟨nextA, asksA, findsA⟩ :=
    @putChar_finds 1 kDefaultUARTBase 0x10 (by decide) (by decide) 65
  obtain ⟨nextB, asksB, findsB⟩ :=
    @putChar_finds 1 kDefaultUARTBase 0x10 (by decide) (by decide) 66
  have look : Pool.Reachable (pl011 2) (Pool.Heeds Io.sends (Pl011.free 2))
      ([[.putChar 65], [.putChar 66]].map (uartCalls 1 kDefaultUARTBase), ready)
      ([writing 65, writing 66], ready) := by
    rw [List.map_cons, List.map_cons, List.map_nil, asksA, asksB]
    have first : Pool.Step (pl011 2)
        ([.ask (.read kDefaultUARTBase pl011FR) nextA, .ask (.read kDefaultUARTBase pl011FR) nextB],
          ready)
        ([nextA (0x10 : Reg), .ask (.read kDefaultUARTBase pl011FR) nextB], ready) :=
      @Pool.Step.ask _ _ _ _ _ _ [] _ _ _ _ _ _ polled
    rw [findsA] at first
    have second : Pool.Step (pl011 2)
        ([writing 65, .ask (.read kDefaultUARTBase pl011FR) nextB], ready)
        ([writing 65, nextB (0x10 : Reg)], ready) :=
      @Pool.Step.ask _ _ _ _ _ _ [writing 65] [] _ _ _ _ _ polled
    rw [findsB] at second
    exact .head ⟨first, fun _ => (by decide : 0 < 2)⟩
      (.head ⟨second, fun _ => (by decide : 1 < 2)⟩ .refl)
  have write : Pool.Reachable (pl011 2) (Pool.Heeds Io.sends (Pl011.free 2))
      ([writing 65, writing 66], ready) ([.ret (), .ret ()], two) := by
    have stored : (pl011 2).answers ready (.write kDefaultUARTBase pl011DR 65) () one := rfl
    have storedNext : (pl011 2).answers one (.write kDefaultUARTBase pl011DR 66) () two := rfl
    have first : Pool.Step (pl011 2) ([writing 65, writing 66], ready)
        ([.ret (), writing 66], one) := @Pool.Step.ask _ _ _ _ _ _ [] _ _ _ _ _ _ stored
    have second : Pool.Step (pl011 2) ([.ret (), writing 66], one) ([.ret (), .ret ()], two) :=
      @Pool.Step.ask _ _ _ _ _ _ [.ret ()] [] _ _ _ _ _ storedNext
    exact .head ⟨first, fun more => absurd more (by decide)⟩
      (.head ⟨second, fun more => absurd more (by decide)⟩ .refl)
  have shared := putChar_shared 2 1 kDefaultUARTBase [[.putChar 65], [.putChar 66]] ready rfl
  exact ⟨_, _, look, by decide, rfl, write, rfl, rfl, shared.1 _ (look.trans write)⟩

/-- Seventeen callers find room in an empty FIFO of sixteen, and all of them use it. -/
theorem putChar_drops : ∃ config,
    Pool.Reachable (pl011 16) (fun _ _ => True)
      ((List.replicate 17 [UartCall.putChar 65]).map (uartCalls 1 kDefaultUARTBase),
        .idle (baudDivisors juliusUartBaud)) config ∧
      Drops 16 config ∧
      ∃ later, Pool.Reachable (pl011 16) (fun _ _ => True) config later ∧ ¬ later.2.Kept := by
  let ready : Pl011 := .idle (baudDivisors juliusUartBaud)
  let callers : List (List UartCall) := List.replicate 17 [.putChar 65]
  let writing : Kext Unit := .ask (.write kDefaultUARTBase pl011DR 65) .ret
  have polled : (pl011 16).answers ready (.read kDefaultUARTBase pl011FR) (0x10 : Reg) ready :=
    ⟨rfl, fun _ => ⟨by decide, by decide⟩⟩
  have finds : ∃ next : Reg → Kext Unit, uartCalls 1 kDefaultUARTBase [.putChar 65] =
      .ask (.read kDefaultUARTBase pl011FR) next ∧ writing = next 0x10 := by
    obtain ⟨next, asks, finds⟩ :=
      @putChar_finds 1 kDefaultUARTBase 0x10 (by decide) (by decide) 65
    exact ⟨next, asks, finds.symm⟩
  have allFind : Pool.Reachable (pl011 16) (fun _ _ => True)
      (callers.map (uartCalls 1 kDefaultUARTBase), ready)
      (callers.map (fun _ => writing), ready) := by
    have each : ∀ calls ∈ callers, ∃ q next answer,
        uartCalls 1 kDefaultUARTBase calls = .ask q next ∧ writing = next answer ∧
          (pl011 16).answers ready q answer ready := by
      intro calls member
      rw [List.eq_of_mem_replicate member]
      obtain ⟨next, asks, finds⟩ := finds
      exact ⟨.read kDefaultUARTBase pl011FR, next, (0x10 : Reg), asks, finds, polled⟩
    exact Pool.Reachable.each callers each []
  have checks : Pool.Checks Io.sends Io.clears
      (callers.map (fun _ => writing)) :=
    (callers_checks _).run allFind
  obtain ⟨full, path, act, none⟩ :=
    (pl011_resource 16).overrun (a := (_, ready)) (pl011_takes 16) checks (by decide)
  have drops : Drops 16 full := ⟨act, Nat.le_of_sub_eq_zero none⟩
  exact ⟨full, allFind.trans path, drops, drops.loses⟩

end Julius
