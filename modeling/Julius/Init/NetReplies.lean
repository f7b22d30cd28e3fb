import Julius.Init.Net
import Julius.Init.Replies

set_option autoImplicit false

/- The messages init sends against the PINGs its clients sent. -/
namespace Julius

open Interact

/-- Every message init has sent, every PING waiting for it and the `debt` it has
taken on come from PINGs of the clients, each from one of its own. -/
def Net.Counted (port : MachPort) (debt : Nat) (s : Net) : Prop :=
  s.pongs + s.waiting port + debt ≤ s.pings

def debtOf (header : MachMsgHeader) : Nat := if pongFor header = none then 0 else 1

section

variable {C : Type} {limit : MachPort → Nat} {clients : Clients C} {port : MachPort}

theorem counted_drift {debt : Nat} {s t : Net} (moved : ClientMove limit clients port s t)
    (held : s.Counted port debt) : t.Counted port debt := by
  unfold Net.Counted at *
  cases moved with
  | @send c dest m right reply room =>
      have grown := s.waiting_push port dest m
      show s.pongs + (s.push dest m).waiting port + debt ≤ _
      rw [grown]
      dsimp only
      omega
  | @receive c name right foreign =>
      have fewer := s.waiting_pop_le port name
      show s.pongs + (s.pop name).waiting port + debt ≤ s.pings
      omega

theorem counted_rule (kept : Prop) :
    PassRule (machNet limit clients port kept) (fun s _ => s.pongs ≤ s.pings) port
      (Net.Counted port 0) (fun header => Net.Counted port (debtOf header)) where
  idleDrift _ _ moved := counted_drift moved.1
  busyDrift _ _ _ moved := counted_drift moved.1
  idleConsole _ _ _ _ write answered held := machNet_write write answered ▸ held
  busyConsole _ _ _ _ _ write answered held := machNet_write write answered ▸ held
  idleGuard s _ _ held := by
    unfold Net.Counted at held
    omega
  busyGuard _ s _ _ held := by
    unfold Net.Counted at held
    omega
  receive := by
    intro msg s held
    unfold Net.Counted at *
    refine ⟨by omega, ?_⟩
    intro kr header t answered
    cases machNet_recv.mp answered with
    | @delivered m rest header first sender id =>
        have taken := s.waiting_pop port m first
        rw [if_pos rfl]
        show s.pongs + (s.pop port).waiting port + debtOf header ≤ s.pings
        by_cases ping : m.msgId = juliusMsgPing
        · rw [if_pos ping] at taken
          unfold debtOf
          split <;> omega
        · have quiet : pongFor header = none := if_neg (fun both => ping (id ▸ both.1))
          rw [debtOf, if_pos quiet]
          omega
    | failed failure =>
        rw [if_neg failure]
        exact held
    | destroyed failure =>
        have fewer := s.waiting_pop_le port port
        rw [if_neg failure]
        show s.pongs + (s.pop port).waiting port + 0 ≤ s.pings
        omega
  ignore := by
    intro header s held quiet
    rwa [debtOf, if_pos quiet] at held
  reply := by
    intro header s pong held answered
    have debt : debtOf header = 1 := if_neg (by simp [answered])
    obtain ⟨_, _, rfl⟩ := pongFor_some answered
    rw [debt] at held
    unfold Net.Counted at *
    refine ⟨by omega, ?_⟩
    intro answer t replied
    cases machNet_send.mp replied with
    | queued room =>
        have grown := s.waiting_push port header.msghRemotePort pongMessage
        rw [if_neg (fun both => pongMessage_silent both.2)] at grown
        show s.pongs + 1 + (s.push header.msghRemotePort pongMessage).waiting port + 0 ≤ s.pings
        omega
    | failed failure _ =>
        show s.pongs + 1 + s.waiting port + 0 ≤ s.pings
        omega

end

/-- A PONG as the kernel is asked to send it, number by number: it goes to the port of
the reply through a copied send right, has no local port and no body, and the same trap
receives nothing. -/
def pongSend (reply : MachPort) : Trap :=
  .machMsg
    { msghBits := 0x13
      msghSize := 24
      msghRemotePort := reply
      msghLocalPort := 0
      msghVoucherPort := 0
      msghId := 0x4A4C8001 }
    0x1 24 0 0 0

/-- What the outcomes of the receives call for: a PONG for each message that arrived, is a
PING and names a port, to that port. -/
def pongSends (outcomes : List (KernReturn × MachMsgHeader)) : List Trap :=
  (outcomes.filter (fun outcome => outcome.1 = 0 ∧ outcome.2.msghId = 0x4A4C0001 ∧
    outcome.2.msghRemotePort ≠ 0)).map (fun outcome => pongSend outcome.2.msghRemotePort)

/-- The header that `julius_send_simple` fills in for a PONG is the one above. -/
theorem sendTrap_pong (reply : MachPort) :
    sendTrap reply (juliusMsgPing + 0x8000) = pongSend reply := rfl

theorem replyTo_pongSend (outcome : KernReturn × MachMsgHeader) :
    replyTo outcome =
      if outcome.1 = 0 ∧ outcome.2.msghId = 0x4A4C0001 ∧ outcome.2.msghRemotePort ≠ 0 then
        some (pongSend outcome.2.msghRemotePort)
      else none := by
  rw [ite_and, ← sendTrap_pong]
  rfl

theorem filterMap_replyTo (outcomes : List (KernReturn × MachMsgHeader)) :
    outcomes.filterMap replyTo = pongSends outcomes := by
  induction outcomes with
  | nil => rfl
  | cons outcome rest ih =>
      rw [List.filterMap_cons, replyTo_pongSend, pongSends, List.filter_cons]
      by_cases called : outcome.1 = 0 ∧ outcome.2.msghId = 0x4A4C0001 ∧
          outcome.2.msghRemotePort ≠ 0
      · rw [if_pos called, if_pos (decide_eq_true called), ih]
        rfl
      · rw [if_neg called, if_neg (by simpa using called), ih]
        rfl

/-- Exact correspondence and no reply storm. The receives may have any outcomes, and
at the top of every iteration the sends made are the PONGs that the successful
receives of answerable PINGs call for, in their order; and among clients that may
name any port for the reply, init's own included, init never sends more messages
than the clients sent it PINGs. -/
theorem serviceLoop_replies :
    (∀ (port : MachPort) (stack : JuliusSimpleMsg) (outcomes : List (KernReturn × MachMsgHeader)),
      (∃ msg history, (serviceLoop port stack).Reachable anyKernel [] (.top msg, history) ∧
        receives history = outcomes) ∧
      ∀ msg history, (serviceLoop port stack).Reachable anyKernel [] (.top msg, history) →
        receives history = outcomes → sends history = pongSends outcomes) ∧
    (∀ (C : Type) (limit : MachPort → Nat) (clients : Clients C) (port : MachPort)
      (stack : JuliusSimpleMsg) (config : Server.Config Trap Trap.Answer Panic JuliusSimpleMsg)
      (net : Net),
      (serviceLoop port stack).Reachable (machNet limit clients port False) .empty (config, net) →
        net.pongs ≤ net.pings) := by
  constructor
  · intro port stack outcomes
    rw [← filterMap_replyTo]
    exact serviceLoop_settled port stack outcomes
  · intro C limit clients port stack config net reached
    have start : Net.empty.Counted port 0 := Nat.le_refl 0
    have safe := (counted_rule False).serviceLoop_safe stack start reached
    apply Server.Safe.holds (P := fun net => net.pongs ≤ net.pings) _ _ _ _ safe
    · exact fun _ _ asked => asked
    · intro _ s held
      unfold Net.Counted at held
      omega
    · exact fun _ _ never => never.elim
    · exact fun _ _ never => never.elim

/-- A failed receive with a PING left in the buffer, a PING, an unknown id and a PING
without a reply port: one PONG is sent, to port 5. -/
theorem serviceLoop_replies_once :
    ∃ msg history, (serviceLoop 0x203 ⟨simpleHeader 4 juliusMsgPing⟩).Reachable anyKernel []
      (.top msg, history) ∧
        sends history = [.machMsg ⟨0x13, 24, 5, 0, 0, 0x4A4C8001⟩ 0x1 24 0 0 0] := by
  obtain ⟨⟨msg, history, reached, received⟩, settled⟩ := serviceLoop_replies.1 0x203
    ⟨simpleHeader 4 juliusMsgPing⟩ [(0x10004002, simpleHeader 4 juliusMsgPing),
      (kernSuccess, simpleHeader 5 juliusMsgPing), (kernSuccess, simpleHeader 6 0x4A4C0002),
      (kernSuccess, simpleHeader machPortNull juliusMsgPing)]
  exact ⟨msg, history, reached, settled msg history reached received⟩

end Julius
