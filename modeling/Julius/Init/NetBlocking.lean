import Julius.Init.Net

set_option autoImplicit false

/- When a send of the service loop finds its queue full. -/
namespace Julius

open Interact

abbrev LoopConfig := Server.Config Trap Trap.Answer Panic JuliusSimpleMsg

/-- Init is inside `julius_send_simple`, in a send without a timeout to the full queue of `r`. -/
def BlockedOn (limit : MachPort → Nat) (r : MachPort) : LoopConfig × Net → Prop
  | (.serving _ (.ask (.machMsg msg option _ _ _ _) _), s) =>
      option &&& machSendMsg ≠ 0 ∧ option &&& machSendTimeout = 0 ∧ msg.msghRemotePort = r ∧
        limit r ≤ (s.queue r).length
  | _ => False

/-- What every send of init is made under. -/
def PaidFor (limit : MachPort → Nat) (kept : Prop) (s : Net) : Trap → Prop
  | .machMsg msg option _ _ _ _ => option &&& machSendMsg ≠ 0 →
      s.owed = some msg.msghRemotePort ∧
        (kept → (s.queue msg.msghRemotePort).length < limit msg.msghRemotePort)
  | _ => True

/-- The debt of init, the bound on the queues and, where the clients keep it, the reservation. -/
def Net.Orderly (limit : MachPort → Nat) (port : MachPort) (kept : Prop)
    (debt : Option MachPort) (s : Net) : Prop :=
  s.owed = debt ∧ (∀ r, (s.queue r).length ≤ limit r) ∧ (kept → s.Reserved limit port)

/-- The reply port of a message that calls for a reply. -/
def debtPort (header : MachMsgHeader) : Option MachPort :=
  Net.owedFor ⟨header.msghId, header.msghRemotePort⟩

section

variable {C : Type} {limit : MachPort → Nat} {clients : Clients C} {port : MachPort}

theorem bounded_push {s : Net} {dest : MachPort} (m : Message)
    (bounded : ∀ r, (s.queue r).length ≤ limit r) (room : (s.queue dest).length < limit dest) :
    ∀ r, ((s.push dest m).queue r).length ≤ limit r := by
  intro r
  have held := bounded r
  rw [s.length_push r dest m]
  split
  · rename_i here
    subst here
    omega
  · omega

theorem bounded_pop {s : Net} (name : MachPort) (bounded : ∀ r, (s.queue r).length ≤ limit r) :
    ∀ r, ((s.pop name).queue r).length ≤ limit r := by
  intro r
  have held := bounded r
  by_cases here : r = name
  · subst here
    simp
    omega
  · simpa [here] using held

theorem orderly_drift {kept : Prop} {debt : Option MachPort} {s t : Net}
    (moved : (machNet limit clients port kept).drift s t)
    (held : s.Orderly limit port kept debt) : t.Orderly limit port kept debt := by
  obtain ⟨debt, bounded, _⟩ := held
  obtain ⟨move, reserved⟩ := moved
  cases move with
  | send right reply room => exact ⟨debt, bounded_push _ bounded room, reserved⟩
  | receive right foreign => exact ⟨debt, bounded_pop _ bounded, reserved⟩

/-- A debt is a place reserved in the queue of the reply port. -/
theorem room_of_debt {s : Net} {r : MachPort} (reserved : s.Reserved limit port)
    (named : r ≠ machPortNull) (debt : s.owed = some r) : (s.queue r).length < limit r := by
  have demand := reserved r named
  unfold Net.demand at demand
  rw [if_pos debt] at demand
  omega

theorem orderly_rule (kept : Prop) :
    PassRule (machNet limit clients port kept) (PaidFor limit kept) port
      (Net.Orderly limit port kept none)
      (fun header => Net.Orderly limit port kept (debtPort header)) where
  idleDrift _ _ moved := orderly_drift moved
  busyDrift _ _ _ moved := orderly_drift moved
  idleConsole _ _ _ _ write answered held := machNet_write write answered ▸ held
  busyConsole _ _ _ _ _ write answered held := machNet_write write answered ▸ held
  idleGuard s q write held := by
    cases q <;> first | exact write.elim | exact trivial
  busyGuard _ s q write held := by
    cases q <;> first | exact write.elim | exact trivial
  receive := by
    intro msg s held
    obtain ⟨free, bounded, reserved⟩ := held
    have noSend : ¬ machRcvMsg &&& machSendMsg ≠ 0 := by decide
    refine ⟨fun isSend => absurd isSend noSend, ?_⟩
    intro kr header t answered
    cases machNet_recv.mp answered with
    | @delivered m rest header first sender id =>
        rw [if_pos rfl]
        have debt : debtPort header = Net.owedFor m := by rw [debtPort, sender, id]
        refine ⟨debt.symm, bounded_pop port bounded, ?_⟩
        intro agreed r named
        exact Nat.le_trans (s.demand_deliver port r m free first) (reserved agreed r named)
    | failed failure =>
        rw [if_neg failure]
        exact ⟨free, bounded, reserved⟩
    | destroyed failure =>
        rw [if_neg failure]
        refine ⟨free, bounded_pop port bounded, ?_⟩
        intro agreed r named
        exact Nat.le_trans (s.demand_pop port r) (reserved agreed r named)
  ignore := by
    intro header s held quiet
    have noDebt : debtPort header = none := by
      unfold debtPort Net.owedFor
      rw [if_neg (fun both => both.2 (pongFor_none quiet both.1))]
    rwa [noDebt] at held
  reply := by
    intro header s pong held answered
    obtain ⟨ping, named, rfl⟩ := pongFor_some answered
    have debt : debtPort header = some header.msghRemotePort := if_pos ⟨ping, named⟩
    rw [debt] at held
    obtain ⟨owed, bounded, reserved⟩ := held
    refine ⟨fun _ => ⟨owed, fun agreed => room_of_debt (reserved agreed) named owed⟩, ?_⟩
    intro answer t replied
    cases machNet_send.mp replied with
    | queued room =>
        refine ⟨rfl, bounded_push _ bounded room, ?_⟩
        intro agreed r held
        have same := s.demand_reply port r header.msghRemotePort pongMessage
          pongMessage_silent owed (s.pongs + 1)
        exact Nat.le_trans (Nat.le_of_eq same) (reserved agreed r held)
    | failed failure _ =>
        refine ⟨rfl, bounded, ?_⟩
        intro agreed r held
        have less : ({ s with pongs := s.pongs + 1, owed := none } : Net).demand port r ≤
            s.demand port r := by
          show (s.queue r).length + (if (none : Option MachPort) = some r then 1 else 0) +
            (if r = port then 0 else s.naming port r) ≤ s.demand port r
          unfold Net.demand
          simp
        exact Nat.le_trans less (reserved agreed r held)

theorem orderly_empty (kept : Prop) : Net.empty.Orderly limit port kept none := by
  refine ⟨rfl, fun r => Nat.zero_le _, ?_⟩
  intro _ r _
  simp [Net.demand, Net.naming, Net.empty]

/-- A blocked send is the reply to a PING that init has received and not answered, to
a port that is not null; and none is blocked while the reservation is kept. -/
theorem blocked_paidFor {kept : Prop} {stack : JuliusSimpleMsg} {r : MachPort}
    {config : LoopConfig} {net : Net}
    (reached : (serviceLoop port stack).Reachable (machNet limit clients port kept) .empty
      (config, net)) (blocked : BlockedOn limit r (config, net)) :
    net.owed = some r ∧ ¬ kept := by
  have safe := (orderly_rule kept).serviceLoop_safe stack (orderly_empty kept) reached
  match config, safe, blocked with
  | .serving _ (.ask (.machMsg msg option _ _ _ _) _), safe, blocked =>
      obtain ⟨isSend, _, rfl, full⟩ := blocked
      obtain ⟨owed, room⟩ := (safe net .refl).1 isSend
      exact ⟨owed, fun agreed => absurd (room agreed) (Nat.not_lt.mpr full)⟩

theorem machNet_console (net : Net) {kept : Prop} (s : Net) (q : Trap) (write : q.IsWrite)
    (held : s = net) : ∃ answer t, (machNet limit clients port kept).answers s q answer t ∧ t = net := by
  cases q with
  | write fd text => exact ⟨(0 : BitVec 64), s, rfl, held⟩
  | _ => exact write.elim

/-- A blocked send further on. -/
def CanBlock (limit : MachPort → Nat) : LoopConfig × Net → Prop :=
  fun last => ∃ r, BlockedOn limit r last

/-- Where more replies are called for on `r` than its queue has room for, init can come
to block: it answers the PINGs in their order, and the last of them finds a queue
full. The measure counts a PING twice, as its reply may come back to init's own queue. -/
theorem canBlock_of_demand {kept : Prop} {stack : JuliusSimpleMsg} {r : MachPort}
    (foreign : r ≠ port) (named : r ≠ machPortNull) (size : Nat) (msg : JuliusSimpleMsg) (s : Net)
    (measured : (s.queue port).length + s.waiting port ≤ size)
    (bounded : ∀ r, (s.queue r).length ≤ limit r)
    (excess : limit r < (s.queue r).length + s.naming port r) :
    (serviceLoop port stack).CanReach (machNet limit clients port kept) (CanBlock limit)
      (.top msg, s) := by
  induction size generalizing msg s with
  | zero =>
      have none : s.queue port = [] := List.eq_nil_of_length_eq_zero (by omega)
      have held := bounded r
      simp only [Net.naming, none, List.countP_nil] at excess
      omega
  | succ size ih =>
      cases first : s.queue port with
      | nil =>
          have held := bounded r
          simp only [Net.naming, first, List.countP_nil] at excess
          omega
      | cons m rest =>
          have taken := s.waiting_pop port m first
          have claims := s.naming_pop port r m first
          have shorter : ((s.pop port).queue port).length + 1 = (s.queue port).length := by
            simp [first]
          have beside : (s.pop port).queue r = s.queue r := by simp [foreign]
          have receive : NetReceive s port (kernSuccess, simpleHeader m.replyPort m.msgId)
              { s.pop port with owed := Net.owedFor m } := .delivered first rfl rfl
          apply Server.CanReach.trans (canReach_delivered (machNet_console _) (machNet_recv.mpr receive) rfl)
          intro last place
          obtain ⟨config, t⟩ := last
          obtain ⟨rfl, place⟩ := place
          dsimp only at place
          cases reply : pongFor (simpleHeader m.replyPort m.msgId) with
          | none =>
              rw [reply] at place
              subst place
              have unnamed : ¬ (m.msgId = juliusMsgPing ∧ m.replyPort = r) := by
                intro both
                exact named (both.2 ▸ pongFor_none reply both.1)
              rw [if_neg unnamed] at claims
              apply ih
              · show ((s.pop port).queue port).length + (s.pop port).waiting port ≤ size
                omega
              · exact bounded_pop port bounded
              · show limit r < ((s.pop port).queue r).length + (s.pop port).naming port r
                rw [beside]
                omega
          | some pong =>
              rw [reply] at place
              subst place
              obtain ⟨ping, remote, rfl⟩ := pongFor_some reply
              have wasPing : m.msgId = juliusMsgPing := ping
              rw [if_pos wasPing] at taken
              by_cases full : limit m.replyPort ≤ ((s.pop port).queue m.replyPort).length
              · exact .here ⟨m.replyPort, by decide, by decide, rfl, full⟩
              · have room : ((s.pop port).queue m.replyPort).length < limit m.replyPort :=
                  Nat.lt_of_not_le full
                have waits := (s.pop port).waiting_push port m.replyPort pongMessage
                have names :=
                  (s.pop port).naming_push port r m.replyPort pongMessage pongMessage_silent
                rw [if_neg (fun both => pongMessage_silent both.2)] at waits
                have send : NetSend limit { s.pop port with owed := Net.owedFor m }
                    (simpleHeader m.replyPort (juliusMsgPing + 0x8000)) machSendMsg
                    (kernSuccess, msg.header) _ := .queued room
                apply Server.CanReach.step (.ask (machNet_send.mpr send))
                apply Server.CanReach.step .again
                apply ih
                · have longer := (s.pop port).length_push port m.replyPort pongMessage
                  show (((s.pop port).push m.replyPort pongMessage).queue port).length +
                    ((s.pop port).push m.replyPort pongMessage).waiting port ≤ size
                  rw [waits, longer]
                  split <;> omega
                · exact bounded_push _ (bounded_pop port bounded) room
                · have longer := (s.pop port).length_push r m.replyPort pongMessage
                  show limit r < (((s.pop port).push m.replyPort pongMessage).queue r).length +
                    ((s.pop port).push m.replyPort pongMessage).naming port r
                  simp only [wasPing, true_and] at claims
                  rw [names, longer, beside]
                  omega

end

/-- Clients that hold send rights to the ports in a list and receive from none. -/
def sendersTo (ports : List MachPort) : Clients Unit := ⟨fun _ r => r ∈ ports, fun _ _ => False⟩

/-- A client that may name `r` sends a PING for it to init. -/
theorem client_ping {limit : MachPort → Nat} {ports : List MachPort} {port r : MachPort}
    {stack : JuliusSimpleMsg} {config : LoopConfig} {s : Net} (knows : port ∈ ports)
    (names : r ∈ ports) (room : (s.queue port).length < limit port) :
    Server.Step (serviceLoop port stack) (machNet limit (sendersTo ports) port False) (config, s)
      (config, { s.push port ⟨juliusMsgPing, r⟩ with
        pings := s.pings + if port = port ∧ juliusMsgPing = juliusMsgPing then 1 else 0 }) :=
  .drift ⟨.send (c := ()) knows (Or.inr names) room, fun never => never.elim⟩

/-- With queues of one message, a client can make init wait for itself: it sends a
PING that names init's own port, and another one between the receive and the reply. -/
theorem serviceLoop_blocks : ∃ config net,
    (serviceLoop 0x203 ⟨simpleHeader 0 0⟩).Reachable
      (machNet (fun _ => 1) (sendersTo [0x203]) 0x203 False) .empty (config, net) ∧
      BlockedOn (fun _ => 1) 0x203 (config, net) := by
  have blocks : (serviceLoop 0x203 ⟨simpleHeader 0 0⟩).CanReach
      (machNet (fun _ => 1) (sendersTo [0x203]) 0x203 False) (BlockedOn (fun _ => 1) 0x203)
      (.starting (serviceLoop 0x203 ⟨simpleHeader 0 0⟩).start, .empty) := by
    apply Server.CanReach.trans (canReach_started (machNet_console .empty) rfl)
    intro last place
    obtain ⟨config, net⟩ := last
    obtain ⟨rfl, rfl⟩ := place
    apply Server.CanReach.step (client_ping (by decide) (r := 0x203) (by decide) (by decide))
    have receive : NetReceive { Net.empty.push 0x203 ⟨juliusMsgPing, 0x203⟩ with pings := 1 } 0x203
        (kernSuccess, simpleHeader 0x203 juliusMsgPing) _ := .delivered rfl rfl rfl
    apply Server.CanReach.trans
      (canReach_delivered (machNet_console _) (machNet_recv.mpr receive) rfl)
    intro last place
    obtain ⟨config, net⟩ := last
    obtain ⟨rfl, rfl⟩ := place
    apply Server.CanReach.step (client_ping (by decide) (r := 0x203) (by decide) (by decide))
    exact .here ⟨by decide, by decide, rfl, Nat.le_refl 1⟩
  obtain ⟨⟨config, net⟩, reached, blocked⟩ := blocks
  exact ⟨config, net, reached, blocked⟩

/-- Where the clients' moves leave every queue the room for the replies it is owed,
init is never blocked in a send. In any case it is blocked only on the reply port of
the PING it is answering; and wherever that room is missing when init comes to the
top of its loop, it can come to block. -/
theorem serviceLoop_unblocked {C : Type} (limit : MachPort → Nat) (clients : Clients C)
    (port : MachPort) (stack : JuliusSimpleMsg) :
    (∀ config net r, (serviceLoop port stack).Reachable (machNet limit clients port True) .empty
      (config, net) → ¬ BlockedOn limit r (config, net)) ∧
    (∀ config net r, (serviceLoop port stack).Reachable (machNet limit clients port False) .empty
      (config, net) → BlockedOn limit r (config, net) → net.owed = some r) ∧
    (∀ msg net, (serviceLoop port stack).Reachable (machNet limit clients port False) .empty
      (.top msg, net) → ¬ net.Reserved limit port →
        (serviceLoop port stack).CanReach (machNet limit clients port False)
          (fun last => ∃ r, BlockedOn limit r last) (.top msg, net)) := by
  refine ⟨?_, ?_, ?_⟩
  · intro config net r reached blocked
    exact (blocked_paidFor reached blocked).2 trivial
  · intro config net r reached blocked
    exact (blocked_paidFor reached blocked).1
  · intro msg net reached crowded
    have orderly : net.Orderly limit port False none :=
      (orderly_rule False).serviceLoop_safe stack (orderly_empty False) reached
    obtain ⟨free, bounded, _⟩ := orderly
    obtain ⟨r, missing⟩ := Classical.not_forall.mp crowded
    obtain ⟨named, excess⟩ := Classical.not_imp.mp missing
    have idle : ¬ net.owed = some r := by simp [free]
    unfold Net.demand at excess
    rw [if_neg idle] at excess
    have foreign : r ≠ port := by
      intro home
      have held := bounded r
      rw [if_pos home] at excess
      omega
    rw [if_neg foreign] at excess
    exact canBlock_of_demand foreign named _ msg net (Nat.le_refl _) bounded
      (Nat.lt_of_not_le excess)

/-- Two PINGs for a port with room for one reply: init can come to block. -/
theorem serviceLoop_unblocked_crowded : ∃ config net r,
    (serviceLoop 0x203 ⟨simpleHeader 0 0⟩).Reachable
      (machNet (fun r => if r = 0x203 then 2 else 1) (sendersTo [0x203, 7]) 0x203 False) .empty
      (config, net) ∧ BlockedOn (fun r => if r = 0x203 then 2 else 1) r (config, net) := by
  have crowds : (serviceLoop 0x203 ⟨simpleHeader 0 0⟩).CanReach
      (machNet (fun r => if r = 0x203 then 2 else 1) (sendersTo [0x203, 7]) 0x203 False)
      (fun last => last = (.top ⟨simpleHeader 0 0⟩,
        ⟨Function.update (Function.update (fun _ => []) 0x203 [⟨juliusMsgPing, 7⟩]) 0x203
          [⟨juliusMsgPing, 7⟩, ⟨juliusMsgPing, 7⟩], 2, 0, none⟩))
      (.starting (serviceLoop 0x203 ⟨simpleHeader 0 0⟩).start, .empty) := by
    apply Server.CanReach.trans (canReach_started (machNet_console .empty) rfl)
    intro last place
    obtain ⟨config, net⟩ := last
    obtain ⟨rfl, rfl⟩ := place
    apply Server.CanReach.step (client_ping (by decide) (r := 7) (by decide) (by decide))
    apply Server.CanReach.step (client_ping (by decide) (r := 7) (by decide) (by decide))
    exact .here rfl
  obtain ⟨last, reached, rfl⟩ := crowds
  have blocks := (serviceLoop_unblocked _ (sendersTo [0x203, 7]) 0x203 ⟨simpleHeader 0 0⟩).2.2 _ _
    reached (fun reserved => absurd (reserved 7 (by decide)) (by decide))
  obtain ⟨⟨config, net⟩, path, r, blocked⟩ := blocks
  exact ⟨config, net, r, reached.trans path, blocked⟩

end Julius
