import Julius.Init.Main

set_option autoImplicit false

/- One pass of the service loop, for any world it may run in. -/
namespace Julius

open Interact

/-- The send a received message makes the loop perform, if any. -/
def pongFor (header : MachMsgHeader) : Option Trap :=
  if header.msghId = juliusMsgPing ∧ header.msghRemotePort ≠ machPortNull then
    some (sendTrap header.msghRemotePort (juliusMsgPing + 0x8000))
  else none

theorem pongFor_none {header : MachMsgHeader} (quiet : pongFor header = none) :
    header.msghId = juliusMsgPing → header.msghRemotePort = machPortNull := by
  intro ping
  by_contra named
  rw [pongFor, if_pos ⟨ping, named⟩] at quiet
  cases quiet

theorem pongFor_some {header : MachMsgHeader} {pong : Trap} (answered : pongFor header = some pong) :
    header.msghId = juliusMsgPing ∧ header.msghRemotePort ≠ machPortNull ∧
      pong = sendTrap header.msghRemotePort (juliusMsgPing + 0x8000) := by
  unfold pongFor at answered
  split at answered
  · rename_i named
    cases answered
    exact ⟨named.1, named.2, rfl⟩
  · cases answered

/-- What a pass needs of its world: `idle` holds while nothing is being handled
and `busy header` while the message with that header is. -/
structure PassRule {S : Type} (W : World Trap Trap.Answer S) (guard : S → Trap → Prop)
    (port : MachPort) (idle : S → Prop) (busy : MachMsgHeader → S → Prop) : Prop where
  idleDrift : ∀ s t, W.drift s t → idle s → idle t
  busyDrift : ∀ header s t, W.drift s t → busy header s → busy header t
  idleConsole : ∀ s q answer t, Trap.IsWrite q → W.answers s q answer t → idle s → idle t
  busyConsole : ∀ header s q answer t, Trap.IsWrite q → W.answers s q answer t → busy header s →
    busy header t
  idleGuard : ∀ s q, Trap.IsWrite q → idle s → guard s q
  busyGuard : ∀ header s q, Trap.IsWrite q → busy header s → guard s q
  receive : ∀ msg s, idle s → guard s (recvTrap port msg) ∧
    ∀ (kr : KernReturn) (header : MachMsgHeader) t,
      W.answers s (recvTrap port msg) (kr, header) t →
        if kr = kernSuccess then busy header t else idle t
  ignore : ∀ header s, busy header s → pongFor header = none → idle s
  reply : ∀ header s pong, busy header s → pongFor header = some pong →
    guard s pong ∧ ∀ answer t, W.answers s pong answer t → idle t

namespace PassRule

variable {S : Type} {W : World Trap Trap.Answer S} {guard : S → Trap → Prop} {port : MachPort}
  {idle : S → Prop} {busy : MachMsgHeader → S → Prop} {α β : Type}
  {post : Except Panic β → S → Prop}

/-- Console output between two receives. -/
theorem wp_idle (rule : PassRule W guard port idle busy) {first : Libc α} {next : α → Libc β}
    (asks : first.Asks Trap.IsWrite (fun _ => False)) {s : S} (start : idle s)
    (rest : ∀ value t, idle t → (next value).wp W guard post t) :
    (first.bind next).wp W guard post s := by
  apply asks.wp_bind (P := idle) rule.idleDrift _ rule.idleGuard start
    (fun _ _ never _ => never.elim) rest
  intro s q answer t write answered held
  exact rule.idleConsole s q answer t write answered held

/-- Console output while a message is handled. -/
theorem wp_busy (rule : PassRule W guard port idle busy) {first : Libc α} {next : α → Libc β}
    (asks : first.Asks Trap.IsWrite (fun _ => False)) {header : MachMsgHeader} {s : S}
    (start : busy header s)
    (rest : ∀ value t, busy header t → (next value).wp W guard post t) :
    (first.bind next).wp W guard post s := by
  apply asks.wp_bind (P := busy header) (rule.busyDrift header) _ (rule.busyGuard header) start
    (fun _ _ never _ => never.elim) rest
  intro s q answer t write answered held
  exact rule.busyConsole header s q answer t write answered held

theorem wp_dispatch (rule : PassRule W guard port idle busy) (header : MachMsgHeader) (s : S)
    (start : busy header s) {post : Except Panic Unit → S → Prop}
    (settled : ∀ t, idle t → post (.ok ()) t) : (dispatch header).wp W guard post s := by
  unfold dispatch
  simp only [Program.bind_eq, Program.pure_eq]
  by_cases ping : header.msghId = juliusMsgPing
  · rw [if_pos ping]
    apply rule.wp_busy (juliusPuts_asks _) start
    intro _ t handling
    by_cases named : header.msghRemotePort ≠ machPortNull
    · rw [if_pos named, juliusSendSimple_eq]
      have pong : pongFor header =
          some (sendTrap header.msghRemotePort (juliusMsgPing + 0x8000)) := if_pos ⟨ping, named⟩
      apply Program.wp_ask_of_stable (P := busy header) (rule.busyDrift header) handling
      · intro t held
        exact (rule.reply header t _ held pong).1
      · intro t answer t' held answered
        exact settled t' ((rule.reply header t _ held pong).2 answer t' answered)
    · rw [if_neg named]
      have quiet : pongFor header = none := if_neg (fun both => named both.2)
      exact settled t (rule.ignore header t handling quiet)
  · rw [if_neg ping]
    have quiet : pongFor header = none := if_neg (fun both => ping both.1)
    apply rule.wp_busy (juliusPuts_asks _) start
    intro _ t handling
    exact settled t (rule.ignore header t handling quiet)

/-- A pass begun idle goes round again idle, and never stops. -/
theorem wp_servicePass (rule : PassRule W guard port idle busy) (msg : JuliusSimpleMsg) (s : S)
    (start : idle s) : (servicePass port msg).wp W guard
      (Server.onAgain (fun _ t => idle t) (fun _ _ => False)) s := by
  rw [servicePass_eq]
  apply Program.wp_ask_of_stable (P := idle) rule.idleDrift start
  · intro t held
    exact (rule.receive msg t held).1
  · intro t answer t' held answered
    have outcome := (rule.receive msg t held).2 answer.1 answer.2 t' answered
    unfold received
    simp only [Program.bind_eq, Program.pure_eq]
    by_cases failed : answer.1 ≠ kernSuccess
    · rw [if_neg failed] at outcome
      rw [if_pos failed]
      apply rule.wp_idle (juliusPuts_asks _) outcome
      intro _ t held
      apply rule.wp_idle (juliusPutHex_asks _) held
      intro _ t held
      apply rule.wp_idle (juliusPuts_asks _) held
      intro _ t held
      exact held
    · rw [if_pos (not_not.mp failed)] at outcome
      rw [if_neg failed]
      apply rule.wp_busy (juliusPuts_asks _) outcome
      intro _ t held
      apply rule.wp_busy (juliusPutHex_asks _) held
      intro _ t held
      apply rule.wp_busy (juliusPuts_asks _) held
      intro _ t held
      apply rule.wp_busy (juliusPutHex_asks _) held
      intro _ t held
      apply rule.wp_busy (juliusPuts_asks _) held
      intro _ t held
      rw [Program.wp_bind]
      exact rule.wp_dispatch answer.2 t held (fun t settled => settled)

/-- The whole loop, from a state in which nothing is being handled. -/
theorem serviceLoop_safe (rule : PassRule W guard port idle busy) (stack : JuliusSimpleMsg)
    {s₀ : S} (start : idle s₀) {config : Server.Config Trap Trap.Answer Panic JuliusSimpleMsg × S}
    (reached : (serviceLoop port stack).Reachable W s₀ config) :
    Server.Safe W guard (fun _ t => idle t) (fun _ _ => False) (fun _ _ => False) config := by
  apply Server.Reachable.safe (fun _ => rule.idleDrift) (fun _ _ _ _ never => never)
    (fun _ _ _ _ never => never) _ _ reached
  · apply rule.wp_idle (juliusPuts_asks _) start
    intro _ t held
    exact held
  · intro msg s held
    exact rule.wp_servicePass msg s held

end PassRule

section

variable {S : Type} {W : World Trap Trap.Answer S} {P : S → Prop} {port : MachPort}
  {stack msg : JuliusSimpleMsg} {s t : S} {header : MachMsgHeader}
  (console : ∀ s q, Trap.IsWrite q → P s → ∃ answer t, W.answers s q answer t ∧ P t)
include console

theorem canReach_started (start : P s) :
    (serviceLoop port stack).CanReach W (fun last => last.1 = .top stack ∧ P last.2)
      (.starting (serviceLoop port stack).start, s) := by
  obtain ⟨answer, t, answered, held⟩ := console s
    (.write 2 "init: entering service loop (waiting for Mach messages)\r\n") trivial start
  apply Server.CanReach.step (.startAsk answered)
  apply Server.CanReach.step .enter
  exact .here ⟨rfl, held⟩

/-- A receive that fails can be followed by the next iteration. -/
theorem canReach_failed {kr : KernReturn} (failed : kr ≠ kernSuccess)
    (answered : W.answers s (recvTrap port msg) (kr, header) t) (start : P t) :
    (serviceLoop port stack).CanReach W (fun last => last.1 = .top ⟨header⟩ ∧ P last.2)
      (.top msg, s) := by
  have receive : Server.Step (serviceLoop port stack) W
      (.serving msg (servicePass port msg), s) (.serving msg (received kr ⟨header⟩), t) :=
    .ask answered
  apply Server.CanReach.step .pass
  apply Server.CanReach.step receive
  unfold received
  rw [if_pos failed]
  simp only [Program.bind_eq, Program.pure_eq]
  apply Server.CanReach.asks console (juliusPuts_asks _) start
  intro _ t held
  apply Server.CanReach.asks console (juliusPutHex_asks _) held
  intro _ t held
  apply Server.CanReach.asks console (juliusPuts_asks _) held
  intro _ t held
  exact .step .again (.here ⟨rfl, held⟩)

/-- A message that is received can be handled up to the send it calls for, and on
to the next iteration where it calls for none. -/
theorem canReach_delivered
    (answered : W.answers s (recvTrap port msg) (kernSuccess, header) t) (start : P t) :
    (serviceLoop port stack).CanReach W (fun last => P last.2 ∧
        match pongFor header with
        | none => last.1 = .top ⟨header⟩
        | some pong => last.1 = .serving msg (.ask pong fun _ => .ret (.again ⟨header⟩)))
      (.top msg, s) := by
  have receive : Server.Step (serviceLoop port stack) W
      (.serving msg (servicePass port msg), s)
      (.serving msg (received kernSuccess ⟨header⟩), t) := .ask answered
  apply Server.CanReach.step .pass
  apply Server.CanReach.step receive
  unfold received
  rw [if_neg (fun failed => failed rfl)]
  simp only [Program.bind_eq, Program.pure_eq]
  apply Server.CanReach.asks console (juliusPuts_asks _) start
  intro _ t held
  apply Server.CanReach.asks console (juliusPutHex_asks _) held
  intro _ t held
  apply Server.CanReach.asks console (juliusPuts_asks _) held
  intro _ t held
  apply Server.CanReach.asks console (juliusPutHex_asks _) held
  intro _ t held
  apply Server.CanReach.asks console (juliusPuts_asks _) held
  intro _ t held
  unfold dispatch
  by_cases ping : header.msghId = juliusMsgPing
  · rw [if_pos ping]
    simp only [Program.bind_eq, Program.pure_eq, Program.bind_assoc]
    apply Server.CanReach.asks console (juliusPuts_asks _) held
    intro _ t held
    by_cases named : header.msghRemotePort ≠ machPortNull
    · have pong : pongFor header =
          some (sendTrap header.msghRemotePort (juliusMsgPing + 0x8000)) := if_pos ⟨ping, named⟩
      rw [if_pos named, pong]
      exact .here ⟨held, rfl⟩
    · have quiet : pongFor header = none := if_neg (fun both => named both.2)
      rw [if_neg named, quiet]
      exact .step .again (.here ⟨held, rfl⟩)
  · have quiet : pongFor header = none := if_neg (fun both => ping both.1)
    rw [if_neg ping, quiet]
    simp only [Program.bind_eq, Program.pure_eq, Program.bind_assoc]
    apply Server.CanReach.asks console (juliusPuts_asks _) held
    intro _ t held
    exact .step .again (.here ⟨held, rfl⟩)

end

end Julius
