import Julius.Init.ServiceLoop

set_option autoImplicit false

/- The port rights that messages bring into init's name space. -/
namespace Julius

open Interact

inductive ReplyRight
  | send
  | sendOnce
  deriving DecidableEq, Repr

/-- `MACH_MSG_TYPE_MOVE_SEND`, which is also how a received send right is marked. -/
def machMsgTypeMoveSend : BitVec 32 := 17

/-- The disposition that moves a send-once right, and marks a received one. -/
def machMsgTypeMoveSendOnce : BitVec 32 := 18

def ReplyRight.marked : ReplyRight → BitVec 32
  | .send => machMsgTypeMoveSend
  | .sendOnce => machMsgTypeMoveSendOnce

/-- The client rights in init's name space, one entry for each reference, with a
record of the rights delivered and of the outcomes of the sends. -/
structure Rights where
  held : List (MachPort × ReplyRight)
  delivered : List (MachPort × ReplyRight)
  outcomes : List (MachPort × KernReturn)

/-- A send right goes by the name its port has already, a send-once right by a fresh one. -/
def Rights.Admits (s : Rights) (name : MachPort) : ReplyRight → Prop
  | .send => (name, .sendOnce) ∉ s.held
  | .sendOnce => ∀ right, (name, right) ∉ s.held

/-- A receive adds a reference to the reply right of the message, if it has one. -/
inductive RightsReceive (s : Rights) : KernReturn × MachMsgHeader → Rights → Prop
  | withRight {header : MachMsgHeader} {right : ReplyRight}
      (named : header.msghRemotePort ≠ machPortNull)
      (marked : machMsghBitsRemote header.msghBits = right.marked)
      (admitted : s.Admits header.msghRemotePort right) :
      RightsReceive s (kernSuccess, header)
        { s with
          held := (header.msghRemotePort, right) :: s.held
          delivered := (header.msghRemotePort, right) :: s.delivered }
  | mute {header : MachMsgHeader} (unnamed : header.msghRemotePort = machPortNull) :
      RightsReceive s (kernSuccess, header) s
  | failed {kr : KernReturn} {header : MachMsgHeader} (failure : kr ≠ kernSuccess) :
      RightsReceive s (kr, header) s

/-- What a successful send with the disposition `bits` to `name` does to the
references; there is no outcome where the right is of the wrong kind. -/
inductive Disposed (s : Rights) (name : MachPort) :
    BitVec 32 → List (MachPort × ReplyRight) → Prop
  | copySend (right : (name, .send) ∈ s.held) : Disposed s name machMsgTypeCopySend s.held
  | moveSend (right : (name, .send) ∈ s.held) :
      Disposed s name machMsgTypeMoveSend (s.held.erase (name, .send))
  | moveSendOnce (right : (name, .sendOnce) ∈ s.held) :
      Disposed s name machMsgTypeMoveSendOnce (s.held.erase (name, .sendOnce))

inductive RightsSend (s : Rights) (msg : MachMsgHeader) : KernReturn × MachMsgHeader → Rights → Prop
  | accepted {header : MachMsgHeader} {held : List (MachPort × ReplyRight)}
      (disposed : Disposed s msg.msghRemotePort (machMsghBitsRemote msg.msghBits) held) :
      RightsSend s msg (kernSuccess, header)
        { s with held, outcomes := (msg.msghRemotePort, kernSuccess) :: s.outcomes }
  | rejected {kr : KernReturn} {header : MachMsgHeader} (failure : kr ≠ kernSuccess) :
      RightsSend s msg (kr, header)
        { s with outcomes := (msg.msghRemotePort, kr) :: s.outcomes }

def rightsAnswers (s : Rights) : (trap : Trap) → trap.Answer → Rights → Prop
  | .machMsg msg option _ _ _ _, answer, t =>
      if option &&& machSendMsg ≠ 0 then RightsSend s msg answer t else RightsReceive s answer t
  | _, _, t => t = s

/-- The kernel's account of the rights; no trap the library offers gives one up. -/
def rightsKernel : World Trap Trap.Answer Rights where
  answers := rightsAnswers
  drift _ _ := False

theorem rightsKernel_still : rightsKernel.Still := fun _ _ moved => moved

theorem rightsKernel_write {s t : Rights} {q : Trap} {answer : q.Answer} (write : q.IsWrite)
    (answered : rightsKernel.answers s q answer t) : t = s := by
  cases q <;> first | exact write.elim | exact answered

theorem rightsKernel_recv {s t : Rights} {name : MachPort} {msg : JuliusSimpleMsg}
    {kr : KernReturn} {header : MachMsgHeader} :
    rightsKernel.answers s (recvTrap name msg) (kr, header) t ↔ RightsReceive s (kr, header) t := by
  have noSend : ¬ machRcvMsg &&& machSendMsg ≠ 0 := by decide
  show (if machRcvMsg &&& machSendMsg ≠ 0 then RightsSend s msg.header (kr, header) t
    else RightsReceive s (kr, header) t) ↔ _
  rw [if_neg noSend]

theorem rightsKernel_send {s t : Rights} {remote : MachPort} {id : BitVec 32}
    {answer : KernReturn × MachMsgHeader} :
    rightsKernel.answers s (sendTrap remote id) answer t ↔
      RightsSend s (simpleHeader remote id) answer t := by
  have isSend : machSendMsg &&& machSendMsg ≠ 0 := by decide
  show (if machSendMsg &&& machSendMsg ≠ 0 then RightsSend s (simpleHeader remote id) answer t
    else RightsReceive s answer t) ↔ _
  rw [if_pos isSend]

/-- No name denotes both kinds of right. -/
def Coherent (held : List (MachPort × ReplyRight)) : Prop :=
  ∀ name, (name, .send) ∈ held → (name, .sendOnce) ∉ held

theorem Coherent.cons {s : Rights} {name : MachPort} {right : ReplyRight}
    (coherent : Coherent s.held) (admitted : s.Admits name right) :
    Coherent ((name, right) :: s.held) := by
  intro other send once
  cases right with
  | send =>
      rcases List.mem_cons.mp once with impossible | before
      · cases impossible
      · rcases List.mem_cons.mp send with same | earlier
        · cases same
          exact admitted before
        · exact coherent other earlier before
  | sendOnce =>
      rcases List.mem_cons.mp send with impossible | before
      · cases impossible
      · rcases List.mem_cons.mp once with same | earlier
        · cases same
          exact admitted _ before
        · exact coherent other before earlier

/-- Every right delivered so far is still held, and no send went through to a send-once right. -/
structure Rights.Hoarded (initial : List (MachPort × ReplyRight)) (s : Rights) : Prop where
  kept : s.held = s.delivered ++ initial
  coherent : Coherent s.held
  outcomes : ∀ name, (name, kernSuccess) ∈ s.outcomes → (name, .send) ∈ s.held

/-- The PONG copies a send right, so that it succeeds only on one, and leaves the references alone. -/
theorem disposed_pong {s : Rights} {remote : MachPort} {held : List (MachPort × ReplyRight)}
    (disposed : Disposed s remote
      (machMsghBitsRemote (simpleHeader remote (juliusMsgPing + 0x8000)).msghBits) held) :
    held = s.held ∧ (remote, .send) ∈ s.held := by
  have bits : machMsghBitsRemote (simpleHeader remote (juliusMsgPing + 0x8000)).msghBits =
      machMsgTypeCopySend := by
    show machMsghBitsRemote (machMsghBits machMsgTypeCopySend 0) = machMsgTypeCopySend
    decide
  rw [bits] at disposed
  generalize same : machMsgTypeCopySend = disposition at disposed
  cases disposed with
  | copySend right => exact ⟨rfl, right⟩
  | moveSend right => exact absurd same (by decide)
  | moveSendOnce right => exact absurd same (by decide)

theorem hoarded_rule (initial : List (MachPort × ReplyRight)) (port : MachPort) :
    PassRule rightsKernel (fun _ _ => True) port (Rights.Hoarded initial)
      (fun _ => Rights.Hoarded initial) where
  idleDrift s t moved := absurd moved (rightsKernel_still s t)
  busyDrift _ s t moved := absurd moved (rightsKernel_still s t)
  idleConsole _ _ _ _ write answered held := rightsKernel_write write answered ▸ held
  busyConsole _ _ _ _ _ write answered held := rightsKernel_write write answered ▸ held
  idleGuard _ _ _ _ := trivial
  busyGuard _ _ _ _ _ := trivial
  receive := by
    intro msg s held
    refine ⟨trivial, ?_⟩
    intro kr header t answered
    rw [ite_self]
    cases rightsKernel_recv.mp answered with
    | withRight named marked admitted =>
        constructor
        · show _ :: s.held = _ :: s.delivered ++ initial
          rw [held.kept, List.cons_append]
        · exact held.coherent.cons admitted
        · intro name success
          exact List.mem_cons_of_mem _ (held.outcomes name success)
    | mute unnamed => exact held
    | failed failure => exact held
  ignore _ _ held _ := held
  reply := by
    intro header s pong held answered
    obtain ⟨_, _, rfl⟩ := pongFor_some answered
    refine ⟨trivial, ?_⟩
    intro answer t replied
    cases rightsKernel_send.mp replied with
    | accepted disposed =>
        obtain ⟨rfl, right⟩ := disposed_pong disposed
        refine ⟨held.kept, held.coherent, ?_⟩
        intro name success
        rcases List.mem_cons.mp success with same | before
        · cases same
          exact right
        · exact held.outcomes name before
    | rejected failure =>
        refine ⟨held.kept, held.coherent, ?_⟩
        intro name success
        rcases List.mem_cons.mp success with same | before
        · cases same
          exact absurd rfl failure
        · exact held.outcomes name before

theorem rightsKernel_console (rights : Rights) (s : Rights) (q : Trap) (write : q.IsWrite)
    (held : s = rights) : ∃ answer t, rightsKernel.answers s q answer t ∧ t = rights := by
  cases q with
  | write fd text => exact ⟨(0 : BitVec 64), s, rfl, held⟩
  | _ => exact write.elim

/-- One message of an unknown id leaves its reply right behind: the references at
the top of the second iteration are more than at the top of the first. -/
theorem reply_right_left_behind : ∃ msg rights,
    (serviceLoop 0x203 ⟨simpleHeader 0 0⟩).Reachable rightsKernel ⟨[], [], []⟩
      (.top ⟨simpleHeader 0 0⟩, ⟨[], [], []⟩) ∧
    (serviceLoop 0x203 ⟨simpleHeader 0 0⟩).Reachable rightsKernel ⟨[], [], []⟩ (.top msg, rights) ∧
      rights.held.length = 1 := by
  let request : MachMsgHeader := ⟨machMsgTypeMoveSend, 24, 5, 0x203, 0, 0x4A4C0002⟩
  have started : (serviceLoop 0x203 ⟨simpleHeader 0 0⟩).CanReach rightsKernel _ _ :=
    canReach_started (rightsKernel_console ⟨[], [], []⟩) rfl
  obtain ⟨⟨config, rights⟩, reached, rfl, rfl⟩ := started
  have receive : RightsReceive ⟨[], [], []⟩ (kernSuccess, request)
      ⟨[(5, .send)], [(5, .send)], []⟩ := .withRight (by decide) (by decide) List.not_mem_nil
  have handled : (serviceLoop 0x203 ⟨simpleHeader 0 0⟩).CanReach rightsKernel _
      (.top ⟨simpleHeader 0 0⟩, ⟨[], [], []⟩) :=
    canReach_delivered (rightsKernel_console _) (rightsKernel_recv.mpr receive) rfl
  obtain ⟨⟨config, rights⟩, path, same, place⟩ := handled
  have quiet : pongFor request = none := by decide
  rw [quiet] at place
  dsimp only at place same
  subst place same
  exact ⟨_, _, reached, reached.trans path, rfl⟩

/-- Reply rights pile up. At the top of every iteration the references to client
rights are those init began with and one more for every reply right delivered since:
a PONG uses up none of them, and no path gives one up. A PONG reaches its port only
through a send right; on a send-once right it is rejected. -/
theorem reply_rights_kept (port : MachPort) (stack msg : JuliusSimpleMsg)
    (initial : List (MachPort × ReplyRight)) (s : Rights) (coherent : Coherent initial)
    (reached : (serviceLoop port stack).Reachable rightsKernel ⟨initial, [], []⟩ (.top msg, s)) :
    s.held = s.delivered ++ initial ∧
      s.held.length = initial.length + s.delivered.length ∧
      ∀ name kr, (name, kr) ∈ s.outcomes → (name, .sendOnce) ∈ s.held → kr ≠ kernSuccess := by
  have start : Rights.Hoarded initial ⟨initial, [], []⟩ :=
    ⟨rfl, coherent, fun _ success => absurd success List.not_mem_nil⟩
  have hoarded : Rights.Hoarded initial s :=
    (hoarded_rule initial port).serviceLoop_safe stack start reached
  refine ⟨hoarded.kept, ?_, ?_⟩
  · rw [hoarded.kept, List.length_append, Nat.add_comm]
  · intro name kr outcome once success
    rw [success] at outcome
    exact hoarded.coherent name (hoarded.outcomes name outcome) once

/-- A PING with a send-once right: the PONG is rejected and the right stays. -/
theorem reply_rights_kept_rejected : ∃ msg s,
    (serviceLoop 0x203 ⟨simpleHeader 0 0⟩).Reachable rightsKernel ⟨[], [], []⟩ (.top msg, s) ∧
      s.delivered = [(5, .sendOnce)] ∧ s.outcomes = [(5, 0x10000007)] ∧ s.held.length = 1 := by
  let ping : MachMsgHeader := ⟨machMsgTypeMoveSendOnce, 24, 5, 0x203, 0, juliusMsgPing⟩
  have started : (serviceLoop 0x203 ⟨simpleHeader 0 0⟩).CanReach rightsKernel _ _ :=
    canReach_started (rightsKernel_console ⟨[], [], []⟩) rfl
  obtain ⟨⟨config, rights⟩, reached, rfl, rfl⟩ := started
  have receive : RightsReceive ⟨[], [], []⟩ (kernSuccess, ping)
      ⟨[(5, .sendOnce)], [(5, .sendOnce)], []⟩ :=
    .withRight (by decide) (by decide) (fun _ => List.not_mem_nil)
  have handled : (serviceLoop 0x203 ⟨simpleHeader 0 0⟩).CanReach rightsKernel _
      (.top ⟨simpleHeader 0 0⟩, ⟨[], [], []⟩) :=
    canReach_delivered (rightsKernel_console _) (rightsKernel_recv.mpr receive) rfl
  obtain ⟨⟨config, rights⟩, path, same, place⟩ := handled
  have reply : pongFor ping = some (sendTrap 5 (juliusMsgPing + 0x8000)) := by decide
  rw [reply] at place
  dsimp only at place same
  subst place same
  have refuse : RightsSend ⟨[(5, .sendOnce)], [(5, .sendOnce)], []⟩
      (simpleHeader 5 (juliusMsgPing + 0x8000)) (0x10000007, ping) _ := .rejected (by decide)
  have arrived := ((reached.trans path).tail (.ask (rightsKernel_send.mpr refuse))).tail .again
  have kept := reply_rights_kept 0x203 ⟨simpleHeader 0 0⟩ ⟨ping⟩ [] _
    (fun _ impossible => absurd impossible List.not_mem_nil) arrived
  exact ⟨_, _, arrived, rfl, rfl, kept.2.1⟩

end Julius
