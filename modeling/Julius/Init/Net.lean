import Mathlib.Data.List.Count
import Julius.Init.ServiceLoop

set_option autoImplicit false

/- julius-init among its clients: port queues of finite length, and messages in
flight between any number of parties. Ports go by their names in init's space. -/
namespace Julius

open Interact

/-- A queued message: its id and the port it names for a reply. -/
structure Message where
  msgId : BitVec 32
  replyPort : MachPort
  deriving DecidableEq, Repr

/-- A PONG in a queue. -/
def pongMessage : Message := ⟨juliusMsgPing + 0x8000, machPortNull⟩

/-- A PONG is no PING, wherever it is queued. -/
theorem pongMessage_silent : pongMessage.msgId ≠ juliusMsgPing := by decide

/-- The rights of the clients: the ports each may send to or name for a reply,
and the ports each receives from. -/
structure Clients (C : Type) where
  holds : C → MachPort → Prop
  owns : C → MachPort → Prop

structure Net where
  queue : MachPort → List Message
  /-- PINGs that clients have sent to init -/
  pings : Nat
  /-- messages that init has sent -/
  pongs : Nat
  /-- the reply port of a PING that init has received and not yet answered -/
  owed : Option MachPort

namespace Net

def empty : Net := ⟨fun _ => [], 0, 0, none⟩

def push (s : Net) (dest : MachPort) (m : Message) : Net :=
  { s with queue := Function.update s.queue dest (s.queue dest ++ [m]) }

def pop (s : Net) (name : MachPort) : Net :=
  { s with queue := Function.update s.queue name (s.queue name).tail }

/-- The reply a delivered message leaves init with. -/
def owedFor (m : Message) : Option MachPort :=
  if m.msgId = juliusMsgPing ∧ m.replyPort ≠ machPortNull then some m.replyPort else none

/-- The PINGs waiting at a port. -/
def waiting (s : Net) (port : MachPort) : Nat :=
  (s.queue port).countP (fun m => m.msgId = juliusMsgPing)

/-- The PINGs waiting at `port` that name `r` for the reply. -/
def naming (s : Net) (port r : MachPort) : Nat :=
  (s.queue port).countP (fun m => m.msgId = juliusMsgPing ∧ m.replyPort = r)

/-- The places in the queue of `r` that are taken or spoken for. A PING at init's own
port that names this port for the reply frees the place its reply will take. -/
def demand (s : Net) (port r : MachPort) : Nat :=
  (s.queue r).length + (if s.owed = some r then 1 else 0) + if r = port then 0 else s.naming port r

end Net

/-- A move of a client: it sends a header-only message through a right it holds, as
soon as there is room, or takes a message from a port of its own. -/
inductive ClientMove {C : Type} (limit : MachPort → Nat) (clients : Clients C) (port : MachPort)
    (s : Net) : Net → Prop
  | send {c : C} {dest : MachPort} {m : Message} (right : clients.holds c dest)
      (reply : m.replyPort = machPortNull ∨ clients.holds c m.replyPort)
      (room : (s.queue dest).length < limit dest) :
      ClientMove limit clients port s
        { s.push dest m with
          pings := s.pings + if dest = port ∧ m.msgId = juliusMsgPing then 1 else 0 }
  | receive {c : C} {name : MachPort} (right : clients.owns c name) (foreign : name ≠ port) :
      ClientMove limit clients port s (s.pop name)

/-- A send by init. While the queue is full there is no answer, unless the send is timed. -/
inductive NetSend (limit : MachPort → Nat) (s : Net) (msg : MachMsgHeader) (option : BitVec 32) :
    KernReturn × MachMsgHeader → Net → Prop
  | queued {header : MachMsgHeader}
      (room : (s.queue msg.msghRemotePort).length < limit msg.msghRemotePort) :
      NetSend limit s msg option (kernSuccess, header)
        { s.push msg.msghRemotePort ⟨msg.msghId, msg.msghLocalPort⟩ with
          pongs := s.pongs + 1, owed := none }
  | failed {kr : KernReturn} {header : MachMsgHeader} (failure : kr ≠ kernSuccess)
      (answered : (s.queue msg.msghRemotePort).length < limit msg.msghRemotePort ∨
        option &&& machSendTimeout ≠ 0) :
      NetSend limit s msg option (kr, header) { s with pongs := s.pongs + 1, owed := none }

/-- A receive by init: the first message in the queue, or an error, with or without a
message destroyed. -/
inductive NetReceive (s : Net) (name : MachPort) : KernReturn × MachMsgHeader → Net → Prop
  | delivered {m : Message} {rest : List Message} {header : MachMsgHeader}
      (first : s.queue name = m :: rest) (sender : header.msghRemotePort = m.replyPort)
      (id : header.msghId = m.msgId) :
      NetReceive s name (kernSuccess, header) { s.pop name with owed := Net.owedFor m }
  | failed {kr : KernReturn} {header : MachMsgHeader} (failure : kr ≠ kernSuccess) :
      NetReceive s name (kr, header) s
  | destroyed {kr : KernReturn} {header : MachMsgHeader} (failure : kr ≠ kernSuccess) :
      NetReceive s name (kr, header) (s.pop name)

def netAnswers (limit : MachPort → Nat) (s : Net) : (trap : Trap) → trap.Answer → Net → Prop
  | .machMsg msg option _ _ rcvName _, answer, t =>
      if option &&& machSendMsg ≠ 0 then NetSend limit s msg option answer t
      else NetReceive s rcvName answer t
  | _, _, t => t = s

/-- Every queue has room for the replies it is owed. -/
def Net.Reserved (limit : MachPort → Nat) (port : MachPort) (s : Net) : Prop :=
  ∀ r, r ≠ machPortNull → s.demand port r ≤ limit r

/-- The system around init. Where `kept` holds, the clients make no move that
leaves a queue without room for the replies it is owed. -/
def machNet {C : Type} (limit : MachPort → Nat) (clients : Clients C) (port : MachPort)
    (kept : Prop) : World Trap Trap.Answer Net where
  answers := netAnswers limit
  drift s t := ClientMove limit clients port s t ∧ (kept → t.Reserved limit port)

section

variable {C : Type} {limit : MachPort → Nat} {clients : Clients C} {port : MachPort} {kept : Prop}
  {s t : Net}

theorem machNet_write {q : Trap} {answer : q.Answer} (write : q.IsWrite)
    (answered : (machNet limit clients port kept).answers s q answer t) : t = s := by
  cases q <;> first | exact write.elim | exact answered

theorem machNet_recv {name : MachPort} {msg : JuliusSimpleMsg} {kr : KernReturn}
    {header : MachMsgHeader} :
    (machNet limit clients port kept).answers s (recvTrap name msg) (kr, header) t ↔
      NetReceive s name (kr, header) t := by
  have noSend : ¬ machRcvMsg &&& machSendMsg ≠ 0 := by decide
  show (if machRcvMsg &&& machSendMsg ≠ 0 then NetSend limit s msg.header machRcvMsg (kr, header) t
    else NetReceive s name (kr, header) t) ↔ _
  rw [if_neg noSend]

theorem machNet_send {remote : MachPort} {id : BitVec 32}
    {answer : KernReturn × MachMsgHeader} :
    (machNet limit clients port kept).answers s (sendTrap remote id) answer t ↔
      NetSend limit s (simpleHeader remote id) machSendMsg answer t := by
  have isSend : machSendMsg &&& machSendMsg ≠ 0 := by decide
  show (if machSendMsg &&& machSendMsg ≠ 0 then
      NetSend limit s (simpleHeader remote id) machSendMsg answer t
    else NetReceive s machPortNull answer t) ↔ _
  rw [if_pos isSend]

end

namespace Net

variable (s : Net) (port r dest : MachPort) (m : Message)

@[simp] theorem push_queue :
    (s.push dest m).queue = Function.update s.queue dest (s.queue dest ++ [m]) := rfl

@[simp] theorem pop_queue :
    (s.pop dest).queue = Function.update s.queue dest (s.queue dest).tail := rfl

theorem length_push : ((s.push dest m).queue r).length =
    (s.queue r).length + if dest = r then 1 else 0 := by
  by_cases here : dest = r
  · subst here
    simp
  · have elsewhere : ¬ r = dest := fun same => here same.symm
    simp [here, elsewhere]

theorem waiting_push : (s.push dest m).waiting port =
    s.waiting port + if dest = port ∧ m.msgId = juliusMsgPing then 1 else 0 := by
  unfold waiting
  by_cases here : port = dest
  · subst here
    by_cases ping : m.msgId = juliusMsgPing <;> simp [ping, List.countP_append]
  · simp [here, Ne.symm here]

theorem waiting_pop_le : (s.pop dest).waiting port ≤ s.waiting port := by
  unfold waiting
  by_cases here : port = dest
  · subst here
    simpa using (List.tail_sublist (s.queue port)).countP_le
  · simp [here]

theorem waiting_pop {rest : List Message} (first : s.queue port = m :: rest) :
    s.waiting port = (s.pop port).waiting port + if m.msgId = juliusMsgPing then 1 else 0 := by
  unfold waiting
  simp [first, List.countP_cons]

theorem naming_push (silent : m.msgId ≠ juliusMsgPing) :
    (s.push dest m).naming port r = s.naming port r := by
  unfold naming
  by_cases here : port = dest
  · subst here
    simp [silent, List.countP_append]
  · simp [here]

theorem naming_pop {rest : List Message} (first : s.queue port = m :: rest) :
    s.naming port r = (s.pop port).naming port r +
      if m.msgId = juliusMsgPing ∧ m.replyPort = r then 1 else 0 := by
  unfold naming
  simp [first, List.countP_cons]

theorem owedFor_eq_some : owedFor m = some r ↔
    m.msgId = juliusMsgPing ∧ m.replyPort = r ∧ r ≠ machPortNull := by
  unfold owedFor
  split
  · rename_i named
    simp only [Option.some.injEq]
    constructor
    · rintro rfl
      exact ⟨named.1, rfl, named.2⟩
    · exact fun same => same.2.1
  · rename_i unnamed
    simp only [reduceCtorEq, false_iff]
    rintro ⟨ping, rfl, named⟩
    exact unnamed ⟨ping, named⟩

/-- Taking a message from init's queue turns its claim on a reply queue into the debt of init. -/
theorem demand_deliver {rest : List Message} (free : s.owed = none)
    (first : s.queue port = m :: rest) :
    ({ s.pop port with owed := owedFor m } : Net).demand port r ≤ s.demand port r := by
  have none : ¬ s.owed = some r := by simp [free]
  unfold demand
  rw [if_neg none]
  by_cases home : r = port
  · subst home
    have shorter : ((s.pop r).queue r).length + 1 = (s.queue r).length := by simp [first]
    simp only [↓reduceIte]
    split <;> omega
  · have same : (s.pop port).queue r = s.queue r := by simp [home]
    have counted := s.naming_pop port r m first
    rw [if_neg home, if_neg home]
    show ((s.pop port).queue r).length + (if owedFor m = some r then 1 else 0) +
      (s.pop port).naming port r ≤ _
    rw [same, counted]
    by_cases named : m.msgId = juliusMsgPing ∧ m.replyPort = r
    · rw [if_pos named]
      split <;> omega
    · have unnamed : ¬ owedFor m = some r :=
        fun debt => named ⟨((owedFor_eq_some r m).mp debt).1, ((owedFor_eq_some r m).mp debt).2.1⟩
      rw [if_neg unnamed]
      omega

/-- Sending the reply turns the debt into a message in the queue. -/
theorem demand_reply (silent : m.msgId ≠ juliusMsgPing) (debt : s.owed = some dest) (pongs : Nat) :
    ({ s.push dest m with pongs := pongs, owed := none } : Net).demand port r =
      s.demand port r := by
  have counted := s.naming_push port r dest m silent
  unfold demand
  show ((s.push dest m).queue r).length + (if (none : Option MachPort) = some r then 1 else 0) +
    (if r = port then 0 else (s.push dest m).naming port r) = _
  rw [counted, debt]
  by_cases here : r = dest
  · subst here
    simp
  · have elsewhere : ¬ dest = r := fun same => here same.symm
    simp [here, elsewhere]

/-- Destroying a message frees what it took. -/
theorem demand_pop : (s.pop port).demand port r ≤ s.demand port r := by
  have fewer : (s.pop port).naming port r ≤ s.naming port r := by
    simpa [naming] using (List.tail_sublist (s.queue port)).countP_le
  unfold demand
  show ((s.pop port).queue r).length + (if s.owed = some r then 1 else 0) +
    (if r = port then 0 else (s.pop port).naming port r) ≤ _
  by_cases home : r = port
  · subst home
    simp
  · have same : (s.pop port).queue r = s.queue r := by simp [home]
    rw [same, if_neg home, if_neg home]
    omega

end Net

end Julius
