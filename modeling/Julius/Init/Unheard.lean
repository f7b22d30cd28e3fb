import Julius.Init.ServiceLoop
import Julius.Libc.Delivery

set_option autoImplicit false

/- The service loop on a port of XNU, which appends a trailer to every message it delivers. -/
namespace Julius

open Interact

/-- init's bootstrap port: what clients have sent to it, what receives have returned from
it, and what init has sent itself. -/
structure BootstrapPort where
  port : PortQueue
  arrived : List (BitVec 32)
  received : List (BitVec 32)
  sent : List (BitVec 32)

namespace BootstrapPort

def fresh : BootstrapPort := ⟨⟨[], []⟩, [], [], []⟩

/-- A message joins the queue. -/
def arrive (s : BootstrapPort) (m : MachMsgHeader) : BootstrapPort :=
  { s with
    port := { s.port with queue := s.port.queue ++ [m] }
    arrived := s.arrived ++ [m.msghId] }

def ids (s : BootstrapPort) : List (BitVec 32) := s.port.queue.map MachMsgHeader.msghId

/-- A client sends a message of any length: a header at least. -/
inductive Arrives (s : BootstrapPort) : BootstrapPort → Prop
  | message (m : MachMsgHeader) (header : sizeofMachMsgHeader.toNat ≤ m.msghSize.toNat) :
      Arrives s (s.arrive m)

/-- A receive, with what it returns on record. -/
def Receives (trailer : Nat) (s : BootstrapPort) (option rcvSize : BitVec 32)
    (answer : KernReturn × MachMsgHeader) (t : BootstrapPort) : Prop :=
  PortReceive trailer s.port option rcvSize answer t.port ∧ t.arrived = s.arrived ∧
    t.sent = s.sent ∧
      t.received = s.received ++ if answer.1 = kernSuccess then [answer.2.msghId] else []

/-- A send by init, to its own port or to another one, which takes it or does not. -/
def Sends (port : MachPort) (s : BootstrapPort) (msg : MachMsgHeader) (sendSize : BitVec 32)
    (t : BootstrapPort) : Prop :=
  ∃ queued : Bool, t = { (if queued ∧ msg.msghRemotePort = port then
    s.arrive { msg with msghSize := sendSize } else s) with sent := s.sent ++ [msg.msghId] }

def answers (trailer : Nat) (port : MachPort) (s : BootstrapPort) :
    (trap : Trap) → trap.Answer → BootstrapPort → Prop
  | .machMsg msg option sendSize rcvSize rcvName _, answer, t =>
      if option &&& machSendMsg ≠ 0 then s.Sends port msg sendSize t
      else if rcvName = port then s.Receives trailer option rcvSize answer t
      else answer.1 ≠ kernSuccess ∧ t = s
  | _, _, t => t = s

/-- The messages there have been are all destroyed or still queued; init has heard none of
them, and has sent nothing. -/
structure Unheard (s : BootstrapPort) : Prop where
  headers : ∀ m ∈ s.port.queue, sizeofMachMsgHeader.toNat ≤ m.msghSize.toNat
  accounted : s.arrived = s.port.destroyed ++ s.ids
  received : s.received = []
  sent : s.sent = []

end BootstrapPort

/-- XNU around init. -/
def xnuAround (trailer : Nat) (port : MachPort) : World Trap Trap.Answer BootstrapPort where
  answers := BootstrapPort.answers trailer port
  drift := BootstrapPort.Arrives

section

variable {trailer : Nat} {port : MachPort} {s t : BootstrapPort}

theorem xnuAround_write {q : Trap} {answer : q.Answer} (write : q.IsWrite)
    (answered : (xnuAround trailer port).answers s q answer t) : t = s := by
  cases q <;> first | exact write.elim | exact answered

theorem xnuAround_recv {msg : JuliusSimpleMsg} {answer : KernReturn × MachMsgHeader} :
    (xnuAround trailer port).answers s (recvTrap port msg) answer t ↔
      s.Receives trailer machRcvMsg sizeofJuliusSimpleMsg answer t := by
  have noSend : ¬ machRcvMsg &&& machSendMsg ≠ 0 := by decide
  show (if machRcvMsg &&& machSendMsg ≠ 0 then s.Sends port msg.header 0 t
    else if port = port then s.Receives trailer machRcvMsg sizeofJuliusSimpleMsg answer t
    else _) ↔ _
  rw [if_neg noSend, if_pos rfl]

theorem BootstrapPort.Unheard.arrives (unheard : s.Unheard) (moved : s.Arrives t) : t.Unheard := by
  cases moved with
  | message m header =>
      refine ⟨?_, ?_, unheard.received, unheard.sent⟩
      · intro other member
        rcases List.mem_append.mp member with old | new
        · exact unheard.headers other old
        · rw [List.mem_singleton.mp new]
          exact header
      · show s.arrived ++ [m.msghId] = s.port.destroyed ++ (s.port.queue ++ [m]).map _
        rw [unheard.accounted, ids, List.map_append, List.append_assoc]
        rfl

/-- A receive destroys the message it comes upon. -/
theorem BootstrapPort.Unheard.receives (appended : 0 < trailer) (unheard : s.Unheard)
    {answer : KernReturn × MachMsgHeader}
    (received : s.Receives trailer machRcvMsg sizeofJuliusSimpleMsg answer t) :
    answer.1 ≠ kernSuccess ∧ t.Unheard := by
  obtain ⟨taken, arrived, sent, heard⟩ := received
  have room : sizeofJuliusSimpleMsg.toNat = sizeofMachMsgHeader.toNat := rfl
  have failed : answer.1 ≠ kernSuccess ∧
      (∀ m ∈ t.port.queue, m ∈ s.port.queue) ∧
      t.port.destroyed ++ t.ids = s.port.destroyed ++ s.ids := by
    obtain ⟨later, _, _, _⟩ := t
    cases taken with
    | delivered first fits =>
        have size := unheard.headers _ (first ▸ List.mem_cons_self)
        omega
    | @tooLarge m header rest first exceeds dropped =>
        have failure : machRcvTooLarge ≠ kernSuccess := by decide
        refine ⟨failure, fun other member => first ▸ List.mem_cons_of_mem _ member, ?_⟩
        show (s.port.destroyed ++ [m.msghId]) ++ rest.map MachMsgHeader.msghId = _
        rw [ids, first, List.map_cons, List.append_assoc]
        rfl
    | large first exceeds retained => exact absurd retained (by decide)
    | interrupted failure => exact ⟨failure, fun _ member => member, rfl⟩
  refine ⟨failed.1, ⟨fun m member => unheard.headers m (failed.2.1 m member), ?_, ?_, ?_⟩⟩
  · rw [arrived, unheard.accounted, failed.2.2]
  · rw [heard, if_neg failed.1, List.append_nil, unheard.received]
  · rw [sent, unheard.sent]

/-- No pass comes to handle a message. -/
theorem unheard_rule (appended : 0 < trailer) :
    PassRule (xnuAround trailer port) (fun s _ => s.Unheard) port BootstrapPort.Unheard
      (fun _ _ => False) where
  idleDrift _ _ moved unheard := unheard.arrives moved
  busyDrift _ _ _ _ never := never
  idleConsole _ _ _ _ write answered unheard := xnuAround_write write answered ▸ unheard
  busyConsole _ _ _ _ _ _ _ never := never
  idleGuard _ _ _ unheard := unheard
  busyGuard _ _ _ _ never := never.elim
  receive := by
    intro msg s unheard
    refine ⟨unheard, ?_⟩
    intro kr header t answered
    obtain ⟨failure, after⟩ := unheard.receives appended (xnuAround_recv.mp answered)
    rw [if_neg failure]
    exact after
  ignore _ _ never _ := never.elim
  reply _ _ _ never _ := never.elim

theorem xnuAround_console (before s : BootstrapPort) (q : Trap) (write : q.IsWrite)
    (held : s = before) :
    ∃ answer t, (xnuAround trailer port).answers s q answer t ∧ t = before := by
  cases q with
  | write fd text => exact ⟨(0 : BitVec 64), s, rfl, held⟩
  | _ => exact write.elim

/-- From the top of an iteration the loop can come to destroy all that is queued. -/
theorem unheard_drains (appended : 0 < trailer) (stack msg : JuliusSimpleMsg)
    (unheard : s.Unheard) :
    (serviceLoop port stack).CanReach (xnuAround trailer port)
      (fun last => (∃ msg, last.1 = .top msg) ∧ last.2.port.queue = [] ∧
        last.2.port.destroyed = s.port.destroyed ++ s.ids) (.top msg, s) := by
  obtain ⟨⟨queue, destroyed⟩, arrived, received, sent⟩ := s
  induction queue generalizing msg destroyed with
  | nil => exact .here ⟨⟨msg, rfl⟩, rfl, (List.append_nil _).symm⟩
  | cons m rest ih =>
      let after : BootstrapPort := ⟨⟨rest, destroyed ++ [m.msghId]⟩, arrived, received, sent⟩
      have size : sizeofMachMsgHeader.toNat ≤ m.msghSize.toNat :=
        unheard.headers m List.mem_cons_self
      have exceeds : sizeofJuliusSimpleMsg.toNat < m.msghSize.toNat + trailer := by
        have room : sizeofJuliusSimpleMsg.toNat = sizeofMachMsgHeader.toNat := rfl
        omega
      have failure : machRcvTooLarge ≠ kernSuccess := by decide
      have destroys : BootstrapPort.Receives trailer ⟨⟨m :: rest, destroyed⟩, arrived, received, sent⟩
          machRcvMsg sizeofJuliusSimpleMsg (machRcvTooLarge, m) after :=
        ⟨.tooLarge rfl exceeds (by decide), rfl, rfl, (List.append_nil _).symm⟩
      have left : after.Unheard := (unheard.receives appended destroys).2
      apply Server.CanReach.trans (canReach_failed (xnuAround_console after) failure
        (xnuAround_recv.mpr destroys) rfl)
      rintro ⟨config, u⟩ ⟨place, same⟩
      dsimp only at place same
      subst place same
      have further := ih ⟨m⟩ _ left
      rwa [show after.port.destroyed ++ after.ids =
        destroyed ++ BootstrapPort.ids ⟨⟨m :: rest, destroyed⟩, arrived, received, sent⟩ from
          List.append_assoc _ _ _] at further

end

/-- On XNU init is deaf: whatever clients send to its port, whenever they send it and however
the loop is interrupted, no receive ever returns a message and no PONG is ever sent; the
messages are all destroyed or still queued, and at the top of an iteration nothing keeps the
loop from destroying those, too. -/
theorem serviceLoop_unheard (trailer : Nat) (appended : 0 < trailer) (port : MachPort)
    (stack : JuliusSimpleMsg) (config : Server.Config Trap Trap.Answer Panic JuliusSimpleMsg)
    (s : BootstrapPort)
    (reached : (serviceLoop port stack).Reachable (xnuAround trailer port) .fresh (config, s)) :
    config ≠ .left ∧ s.received = [] ∧ s.sent = [] ∧ s.arrived = s.port.destroyed ++ s.ids ∧
      ∀ msg, config = .top msg → (serviceLoop port stack).CanReach (xnuAround trailer port)
        (fun last => last.2.port.destroyed = s.arrived) (config, s) := by
  have start : BootstrapPort.fresh.Unheard :=
    ⟨fun _ member => absurd member List.not_mem_nil, rfl, rfl, rfl⟩
  have safe := (unheard_rule appended).serviceLoop_safe stack start reached
  have unheard : s.Unheard := by
    apply Server.Safe.holds _ _ _ _ safe
    · exact fun _ _ asked => asked
    · exact fun _ _ held => held
    · exact fun _ _ never => never.elim
    · exact fun _ _ never => never.elim
  refine ⟨?_, unheard.received, unheard.sent, unheard.accounted, ?_⟩
  · rintro rfl
    exact safe
  · rintro msg rfl
    obtain ⟨last, path, _, _, destroyed⟩ := unheard_drains appended stack msg unheard
    exact ⟨last, path, destroyed.trans unheard.accounted.symm⟩

/-- A PING that names a reply port, and that init destroys. -/
theorem serviceLoop_unheard_ping : ∃ config s,
    (serviceLoop 0x203 ⟨simpleHeader 0 0⟩).Reachable (xnuAround 8 0x203) .fresh (config, s) ∧
    s.arrived = [juliusMsgPing] ∧ s.received = [] ∧ s.sent = [] ∧
      (serviceLoop 0x203 ⟨simpleHeader 0 0⟩).CanReach (xnuAround 8 0x203)
        (fun last => last.2.port.destroyed = [juliusMsgPing]) (config, s) := by
  let waiting : BootstrapPort := BootstrapPort.fresh.arrive (simpleHeader 5 juliusMsgPing)
  have arrives : (serviceLoop 0x203 ⟨simpleHeader 0 0⟩).Reachable (xnuAround 8 0x203) .fresh
      (.starting (serviceLoop 0x203 ⟨simpleHeader 0 0⟩).start, waiting) :=
    .single (.drift (.message (simpleHeader 5 juliusMsgPing) (Nat.le_refl _)))
  have started : (serviceLoop 0x203 ⟨simpleHeader 0 0⟩).CanReach (xnuAround 8 0x203) _
      (.starting (serviceLoop 0x203 ⟨simpleHeader 0 0⟩).start, waiting) :=
    canReach_started (xnuAround_console waiting) rfl
  obtain ⟨⟨config, s⟩, path, place, same⟩ := started
  dsimp only at place same
  subst place same
  obtain ⟨_, received, sent, _, drains⟩ :=
    serviceLoop_unheard 8 (by decide) 0x203 ⟨simpleHeader 0 0⟩ _ _ (arrives.trans path)
  exact ⟨_, _, arrives.trans path, rfl, received, sent, drains _ rfl⟩

end Julius
