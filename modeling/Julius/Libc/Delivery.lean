import Julius.Lib.System
import Julius.Libc.Mach

set_option autoImplicit false

/- The send and the receive half of mach.c on one port. -/
namespace Julius

open Interact

/-- `MACH_RCV_TOO_LARGE` -/
def machRcvTooLarge : KernReturn := 0x10004004

/-- The messages queued on a port, and the ids of those destroyed unread. -/
structure PortQueue where
  queue : List MachMsgHeader
  destroyed : List (BitVec 32)

/-- A receive of `rcvSize` bytes. The kernel appends a trailer of `trailer` bytes; a
message that does not fit with it is destroyed, or kept where `MACH_RCV_LARGE` asks for it. -/
inductive PortReceive (trailer : Nat) (s : PortQueue) (option rcvSize : BitVec 32) :
    KernReturn × MachMsgHeader → PortQueue → Prop
  | delivered {m : MachMsgHeader} {rest : List MachMsgHeader} (first : s.queue = m :: rest)
      (fits : m.msghSize.toNat + trailer ≤ rcvSize.toNat) :
      PortReceive trailer s option rcvSize (kernSuccess, m) { s with queue := rest }
  | tooLarge {m header : MachMsgHeader} {rest : List MachMsgHeader} (first : s.queue = m :: rest)
      (exceeds : rcvSize.toNat < m.msghSize.toNat + trailer) (dropped : option &&& machRcvLarge = 0) :
      PortReceive trailer s option rcvSize (machRcvTooLarge, header)
        { queue := rest, destroyed := s.destroyed ++ [m.msghId] }
  | large {m header : MachMsgHeader} {rest : List MachMsgHeader} (first : s.queue = m :: rest)
      (exceeds : rcvSize.toNat < m.msghSize.toNat + trailer) (retained : option &&& machRcvLarge ≠ 0) :
      PortReceive trailer s option rcvSize (machRcvTooLarge, header) s
  | interrupted {kr : KernReturn} {header : MachMsgHeader} (failure : kr ≠ kernSuccess) :
      PortReceive trailer s option rcvSize (kr, header) s

/-- A send is queued with the size it was sent with, or fails and leaves the queue alone. -/
inductive PortSend (s : PortQueue) (msg : MachMsgHeader) (sendSize : BitVec 32) :
    KernReturn × MachMsgHeader → PortQueue → Prop
  | queued {header : MachMsgHeader} : PortSend s msg sendSize (kernSuccess, header)
      { s with queue := s.queue ++ [{ msg with msghSize := sendSize }] }
  | failed {kr : KernReturn} {header : MachMsgHeader} (failure : kr ≠ kernSuccess) :
      PortSend s msg sendSize (kr, header) s

def portAnswers (trailer : Nat) (s : PortQueue) : (trap : Trap) → trap.Answer → PortQueue → Prop
  | .machMsg msg option sendSize rcvSize _ _, answer, t =>
      if option &&& machSendMsg ≠ 0 then PortSend s msg sendSize answer t
      else PortReceive trailer s option rcvSize answer t
  | _, _, t => t = s

/-- The kernel's side of one port. -/
def xnuPort (trailer : Nat) : World Trap Trap.Answer PortQueue where
  answers := portAnswers trailer
  drift _ _ := False

/-- A call as its caller sees it return: the id sent, or the id found in the buffer. -/
inductive PortCall
  | send (msgId : BitVec 32) (kr : KernReturn)
  | recv (kr : KernReturn) (msgId : BitVec 32)
  deriving DecidableEq, Repr

/-- A call made by anyone, as one move of the system. -/
inductive PortStep (trailer : Nat) (port : MachPort) : PortQueue → PortCall → PortQueue → Prop
  | send {s t : PortQueue} {msgId : BitVec 32} {kr : KernReturn}
      (run : Exec (xnuPort trailer) (juliusSendSimple port msgId) s (.ok kr) t) :
      PortStep trailer port s (.send msgId kr) t
  | recv {s t : PortQueue} {out msg : JuliusSimpleMsg} {kr : KernReturn}
      (run : Exec (xnuPort trailer) (juliusRecvSimple port out) s (.ok (kr, msg)) t) :
      PortStep trailer port s (.recv kr msg.header.msghId) t

/-- Any number of callers of `julius_send_simple` and `julius_recv_simple` on one port. -/
def simpleCalls (trailer : Nat) (port : MachPort) : LTS PortQueue PortCall := ⟨PortStep trailer port⟩

def PortCall.sentId : PortCall → Option (BitVec 32)
  | .send msgId kr => if kr = kernSuccess then some msgId else none
  | .recv .. => none

def PortCall.receivedId : PortCall → Option (BitVec 32)
  | .recv kr msgId => if kr = kernSuccess then some msgId else none
  | .send .. => none

/-- The ids of the sends that returned `KERN_SUCCESS`, in order. -/
def sentIds (run : List (PortCall × PortQueue)) : List (BitVec 32) :=
  run.filterMap (fun move => move.1.sentId)

/-- The ids of the receives that returned `KERN_SUCCESS`, in order. -/
def receivedIds (run : List (PortCall × PortQueue)) : List (BitVec 32) :=
  run.filterMap (fun move => move.1.receivedId)

/-- Every queued message is a header and nothing else. -/
def PortQueue.Bare (s : PortQueue) : Prop := ∀ m ∈ s.queue, m.msghSize = sizeofMachMsgHeader

/-- The ids a port has taken on: those destroyed and those still queued. -/
def PortQueue.accepted (s : PortQueue) : List (BitVec 32) :=
  s.destroyed ++ s.queue.map MachMsgHeader.msghId

section

variable {trailer : Nat} {port : MachPort} {s t : PortQueue}

theorem xnuPort_still (trailer : Nat) : (xnuPort trailer).Still := fun _ _ moved => moved

theorem xnuPort_send {msgId : BitVec 32} {answer : KernReturn × MachMsgHeader} :
    (xnuPort trailer).answers s (sendTrap port msgId) answer t ↔
      PortSend s (simpleHeader port msgId) sizeofMachMsgHeader answer t := by
  have isSend : machSendMsg &&& machSendMsg ≠ 0 := by decide
  show (if machSendMsg &&& machSendMsg ≠ 0 then
      PortSend s (simpleHeader port msgId) sizeofMachMsgHeader answer t
    else PortReceive trailer s machSendMsg 0 answer t) ↔ _
  rw [if_pos isSend]

theorem xnuPort_recv {out : JuliusSimpleMsg} {answer : KernReturn × MachMsgHeader} :
    (xnuPort trailer).answers s (recvTrap port out) answer t ↔
      PortReceive trailer s machRcvMsg sizeofJuliusSimpleMsg answer t := by
  have noSend : ¬ machRcvMsg &&& machSendMsg ≠ 0 := by decide
  show (if machRcvMsg &&& machSendMsg ≠ 0 then PortSend s out.header 0 answer t
    else PortReceive trailer s machRcvMsg sizeofJuliusSimpleMsg answer t) ↔ _
  rw [if_neg noSend]

/-- `julius_send_simple` queues a bare header, or nothing. -/
theorem send_spec {msgId : BitVec 32} {kr : KernReturn} (bare : s.Bare)
    (run : Exec (xnuPort trailer) (juliusSendSimple port msgId) s (.ok kr) t) :
    t.Bare ∧ t.accepted = s.accepted ++ (PortCall.send msgId kr).sentId.toList := by
  rw [juliusSendSimple_eq] at run
  obtain ⟨answer, answered, rfl⟩ := run.of_query (xnuPort_still trailer)
  cases xnuPort_send.mp answered with
  | queued =>
      constructor
      · intro m member
        rcases List.mem_append.mp member with old | new
        · exact bare m old
        · rw [List.mem_singleton.mp new]
      · have sent : (PortCall.send msgId kernSuccess).sentId = some msgId := by
          simp [PortCall.sentId]
        show s.destroyed ++ (s.queue ++ [_]).map MachMsgHeader.msghId = _
        rw [sent, List.map_append, ← List.append_assoc]
        rfl
  | failed failure =>
      have unsent : (PortCall.send msgId _).sentId = none := if_neg failure
      exact ⟨bare, by rw [unsent, Option.toList_none, List.append_nil]⟩

/-- `julius_recv_simple` has room for a header and for no part of the trailer, so that
it destroys the bare headers it comes upon and returns none of them. -/
theorem recv_spec {out msg : JuliusSimpleMsg} {kr : KernReturn} (atLeast : 8 ≤ trailer)
    (bare : s.Bare)
    (run : Exec (xnuPort trailer) (juliusRecvSimple port out) s (.ok (kr, msg)) t) :
    kr ≠ kernSuccess ∧ t.Bare ∧ t.accepted = s.accepted := by
  have headers : ∀ {m rest}, s.queue = m :: rest → m.msghSize.toNat = 24 := by
    intro m rest first
    rw [bare m (first ▸ List.mem_cons_self)]
    rfl
  have room : sizeofJuliusSimpleMsg.toNat = 24 := rfl
  rw [juliusRecvSimple_eq] at run
  obtain ⟨answer, answered, same⟩ := run.of_query (xnuPort_still trailer)
  cases same
  cases xnuPort_recv.mp answered with
  | delivered first fits =>
      have size := headers first
      omega
  | @tooLarge m header rest first exceeds dropped =>
      have failure : machRcvTooLarge ≠ kernSuccess := by decide
      refine ⟨failure, ?_, ?_⟩
      · intro other member
        exact bare other (first ▸ List.mem_cons_of_mem _ member)
      · show (s.destroyed ++ [m.msghId]) ++ rest.map MachMsgHeader.msghId = _
        rw [PortQueue.accepted, first, List.map_cons, List.append_assoc]
        rfl
  | large first exceeds retained => exact absurd retained (by decide)
  | interrupted failure => exact ⟨failure, bare, rfl⟩

/-- Along every run each accepted message is destroyed or still queued, in the order
of the sends, and no receive succeeds. -/
theorem simpleCalls_accepted (atLeast : 8 ≤ trailer) (run : List (PortCall × PortQueue))
    (bare : s.Bare) (valid : (simpleCalls trailer port).IsRun s run) :
    (LTS.final s run).accepted = s.accepted ++ sentIds run ∧ receivedIds run = [] := by
  induction run generalizing s with
  | nil => exact ⟨(List.append_nil _).symm, rfl⟩
  | cons move rest ih =>
      obtain ⟨call, t⟩ := move
      obtain ⟨step, later⟩ := valid
      cases step with
      | @send _ msgId kr run =>
          obtain ⟨bare', accepted⟩ := send_spec bare run
          obtain ⟨final, none⟩ := ih bare' later
          constructor
          · rw [LTS.final_cons, final, accepted, List.append_assoc]
            congr 1
            cases sent : (PortCall.send msgId kr).sentId <;> simp [sentIds, sent]
          · exact none
      | @recv _ out msg kr run =>
          obtain ⟨failure, bare', accepted⟩ := recv_spec atLeast bare run
          obtain ⟨final, none⟩ := ih bare' later
          constructor
          · rw [LTS.final_cons, final, accepted]
            rfl
          · have missed : (PortCall.recv kr msg.header.msghId).receivedId = Option.none :=
              if_neg failure
            rw [receivedIds, List.filterMap_cons, missed]
            exact none

end

/-- A message that was accepted and drained, and that no receive returned. -/
theorem simple_message_destroyed :
    ∃ run, (simpleCalls 8 0x203).IsRun ⟨[], []⟩ run ∧ (LTS.final ⟨[], []⟩ run).queue = [] ∧
      sentIds run = [7] ∧ receivedIds run = [] := by
  have send : Exec (xnuPort 8) (juliusSendSimple 0x203 7) ⟨[], []⟩ (.ok kernSuccess)
      ⟨[simpleHeader 0x203 7], []⟩ :=
    .ask .refl (xnuPort_send.mpr (@PortSend.queued _ _ _ (simpleHeader 0x203 7))) .ret
  have recv : Exec (xnuPort 8) (juliusRecvSimple 0x203 ⟨simpleHeader 0 0⟩)
      ⟨[simpleHeader 0x203 7], []⟩ (.ok (machRcvTooLarge, ⟨simpleHeader 0 0⟩)) ⟨[], [7]⟩ :=
    .ask .refl (xnuPort_recv.mpr (.tooLarge rfl (by decide) (by decide))) .ret
  exact ⟨[(.send 7 kernSuccess, _), (.recv machRcvTooLarge 0, _)],
    ⟨.send send, .recv recv, trivial⟩, rfl, rfl, rfl⟩

/-- On a port that is drained in the end, the receives return what the sends were
told was sent exactly if nothing was: `julius_recv_simple` offers the kernel the
bytes of a header and none for the trailer, and every message is destroyed unread. -/
theorem simple_messages_lost (trailer : Nat) (port : MachPort) (atLeast : 8 ≤ trailer)
    (run : List (PortCall × PortQueue)) (valid : (simpleCalls trailer port).IsRun ⟨[], []⟩ run)
    (drained : (LTS.final ⟨[], []⟩ run).queue = []) :
    (receivedIds run = sentIds run ↔ sentIds run = []) ∧
      (LTS.final ⟨[], []⟩ run).destroyed = sentIds run := by
  have bare : PortQueue.Bare ⟨[], []⟩ := fun m member => absurd member List.not_mem_nil
  obtain ⟨accepted, none⟩ := simpleCalls_accepted atLeast run bare valid
  constructor
  · rw [none]
    exact eq_comm
  · have empty : PortQueue.accepted ⟨[], []⟩ = [] := rfl
    rw [PortQueue.accepted, drained, List.map_nil, List.append_nil, empty] at accepted
    exact accepted

/-- Two messages sent, and both destroyed. -/
theorem simple_messages_lost_two :
    ∃ run, (simpleCalls 8 0x203).IsRun ⟨[], []⟩ run ∧ sentIds run = [7, 9] ∧
      (LTS.final ⟨[], []⟩ run).destroyed = [7, 9] := by
  have send : ∀ (s : PortQueue) msgId, PortStep 8 0x203 s (.send msgId kernSuccess)
      { s with queue := s.queue ++ [simpleHeader 0x203 msgId] } := fun s msgId =>
    .send (.ask .refl (xnuPort_send.mpr (@PortSend.queued _ _ _ (simpleHeader 0x203 msgId))) .ret)
  have recv : ∀ (msgId : BitVec 32) rest lost,
      PortStep 8 0x203 ⟨simpleHeader 0x203 msgId :: rest, lost⟩ (.recv machRcvTooLarge 0)
        ⟨rest, lost ++ [msgId]⟩ := by
    intro msgId rest lost
    have exceeds : (24 : Nat) < 24 + 8 := by decide
    exact @PortStep.recv _ _ _ _ ⟨simpleHeader 0 0⟩ ⟨simpleHeader 0 0⟩ _
      (.ask .refl (xnuPort_recv.mpr (.tooLarge rfl exceeds (by decide))) .ret)
  have valid : (simpleCalls 8 0x203).IsRun ⟨[], []⟩
      [(.send 7 kernSuccess, _), (.send 9 kernSuccess, _), (.recv machRcvTooLarge 0, _),
        (.recv machRcvTooLarge 0, _)] := ⟨send _ 7, send _ 9, recv 7 _ _, recv 9 _ _, trivial⟩
  exact ⟨_, valid, rfl, (simple_messages_lost 8 0x203 (by decide) _ valid rfl).2⟩

end Julius
