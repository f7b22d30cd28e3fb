import Julius.Init.ServiceLoop

set_option autoImplicit false

/- The sends of the service loop against the outcomes of its receives. -/
namespace Julius

open Interact

/-- A trap with the answer it got. -/
abbrev Event := (trap : Trap) × trap.Answer

/-- A kernel that may answer anything, and a record of all it was asked. -/
def anyKernel : World Trap Trap.Answer (List Event) where
  answers history trap answer after := after = history ++ [⟨trap, answer⟩]
  drift _ _ := False

theorem anyKernel_still : anyKernel.Still := fun _ _ moved => moved

/-- A trap that sends a message. -/
def Event.sent : Event → Option Trap
  | ⟨.machMsg msg option sendSize rcvSize rcvName timeout, _⟩ =>
      if option &&& machSendMsg ≠ 0 then
        some (.machMsg msg option sendSize rcvSize rcvName timeout)
      else none
  | _ => none

/-- The outcome of a receive on any port: the return code and the header left in the buffer. -/
def Event.received : Event → Option (KernReturn × MachMsgHeader)
  | ⟨.machMsg _ option _ _ _ _, answer⟩ => if option &&& machRcvMsg ≠ 0 then some answer else none
  | _ => none

def sends (history : List Event) : List Trap := history.filterMap Event.sent

def receives (history : List Event) : List (KernReturn × MachMsgHeader) :=
  history.filterMap Event.received

/-- The send that the outcome of a receive calls for. -/
def replyTo (outcome : KernReturn × MachMsgHeader) : Option Trap :=
  if outcome.1 = kernSuccess then pongFor outcome.2 else none

theorem sent_of_write {trap : Trap} (write : trap.IsWrite) (answer : trap.Answer) :
    Event.sent ⟨trap, answer⟩ = none ∧ Event.received ⟨trap, answer⟩ = none := by
  cases trap <;> first | exact write.elim | exact ⟨rfl, rfl⟩

theorem sends_append (history : List Event) (event : Event) :
    sends (history ++ [event]) = sends history ++ event.sent.toList := by
  rw [sends, List.filterMap_append, sends]
  congr 1

theorem receives_append (history : List Event) (event : Event) :
    receives (history ++ [event]) = receives history ++ event.received.toList := by
  rw [receives, List.filterMap_append, receives]
  congr 1

/-- Every receive so far has had the send it calls for, and no other send was made. -/
def Settled (history : List Event) : Prop :=
  sends history = (receives history).filterMap replyTo

/-- The last receive delivered `header`; the receives before it are settled. -/
def Handling (header : MachMsgHeader) (history : List Event) : Prop :=
  ∃ earlier, receives history = earlier ++ [(kernSuccess, header)] ∧
    sends history = earlier.filterMap replyTo

theorem replies_rule (port : MachPort) :
    PassRule anyKernel (fun _ _ => True) port Settled Handling where
  idleDrift s t moved := absurd moved (anyKernel_still s t)
  busyDrift _ s t moved := absurd moved (anyKernel_still s t)
  idleConsole := by
    rintro s q answer _ write rfl held
    have silent := sent_of_write write answer
    rw [Settled, sends_append, receives_append, silent.1, silent.2]
    simpa [Settled] using held
  busyConsole := by
    rintro header s q answer _ write rfl ⟨earlier, received, sent⟩
    have silent := sent_of_write write answer
    refine ⟨earlier, ?_, ?_⟩
    · rw [receives_append, silent.2]
      simpa using received
    · rw [sends_append, silent.1]
      simpa using sent
  idleGuard _ _ _ _ := trivial
  busyGuard _ _ _ _ _ := trivial
  receive := by
    rintro msg s held
    refine ⟨trivial, ?_⟩
    rintro kr header _ rfl
    have sent : Event.sent ⟨recvTrap port msg, (kr, header)⟩ = none := rfl
    have received : Event.received ⟨recvTrap port msg, (kr, header)⟩ = some (kr, header) := rfl
    by_cases succeeded : kr = kernSuccess
    · rw [if_pos succeeded]
      refine ⟨receives s, ?_, ?_⟩
      · rw [receives_append, received, succeeded]
        rfl
      · rw [sends_append, sent]
        simpa [Settled] using held
    · rw [if_neg succeeded]
      have silent : replyTo (kr, header) = none := if_neg succeeded
      rw [Settled, sends_append, receives_append, sent, received]
      simpa [silent, Settled] using held
  ignore := by
    rintro header s ⟨earlier, received, sent⟩ quiet
    have silent : replyTo (kernSuccess, header) = none := quiet
    rw [Settled, received, sent]
    simp [silent]
  reply := by
    rintro header s pong ⟨earlier, received, sent⟩ answered
    refine ⟨trivial, ?_⟩
    rintro answer _ rfl
    have reply : replyTo (kernSuccess, header) = some pong := answered
    obtain ⟨_, _, rfl⟩ := pongFor_some answered
    have isSend : Event.sent ⟨sendTrap header.msghRemotePort (juliusMsgPing + 0x8000), answer⟩ =
        some (sendTrap header.msghRemotePort (juliusMsgPing + 0x8000)) := rfl
    have noReceive :
        Event.received ⟨sendTrap header.msghRemotePort (juliusMsgPing + 0x8000), answer⟩ = none :=
      rfl
    rw [Settled, sends_append, receives_append, isSend, noReceive, received, sent]
    simp [reply]

theorem anyKernel_console (outcomes : List (KernReturn × MachMsgHeader)) (history : List Event)
    (q : Trap) (write : q.IsWrite) (held : receives history = outcomes) :
    ∃ answer after, anyKernel.answers history q answer after ∧ receives after = outcomes := by
  cases q with
  | write fd text =>
      refine ⟨(0 : BitVec 64), _, rfl, ?_⟩
      have silent := (sent_of_write write (0 : BitVec 64)).2
      rw [receives_append, silent]
      simpa using held
  | _ => exact write.elim

/-- The receives may have any outcomes at all, one after another. -/
theorem outcomes_occur (port : MachPort) (stack msg : JuliusSimpleMsg) (history : List Event)
    (outcomes : List (KernReturn × MachMsgHeader)) :
    (serviceLoop port stack).CanReach anyKernel (fun last => (∃ msg, last.1 = .top msg) ∧
      receives last.2 = receives history ++ outcomes) (.top msg, history) := by
  induction outcomes generalizing msg history with
  | nil => exact .here ⟨⟨msg, rfl⟩, (List.append_nil _).symm⟩
  | cons outcome rest ih =>
      obtain ⟨kr, header⟩ := outcome
      have next : ∀ msg after, receives after = receives history ++ [(kr, header)] →
          (serviceLoop port stack).CanReach anyKernel (fun last => (∃ msg, last.1 = .top msg) ∧
            receives last.2 = receives history ++ (kr, header) :: rest) (.top msg, after) := by
        intro msg after received
        have further := ih msg after
        rw [received, List.append_assoc] at further
        exact further
      have received : receives (history ++ [⟨recvTrap port msg, (kr, header)⟩]) =
          receives history ++ [(kr, header)] := receives_append history _
      by_cases succeeded : kr = kernSuccess
      · subst succeeded
        have delivered : anyKernel.answers history (recvTrap port msg) (kernSuccess, header)
            (history ++ [⟨recvTrap port msg, (kernSuccess, header)⟩]) := rfl
        apply Server.CanReach.trans
          (canReach_delivered (anyKernel_console _) delivered received)
        rintro ⟨config, after⟩ ⟨held, place⟩
        dsimp only at held place
        cases reply : pongFor header with
        | none =>
            rw [reply] at place
            subst place
            exact next _ _ held
        | some pong =>
            rw [reply] at place
            subst place
            obtain ⟨_, _, rfl⟩ := pongFor_some reply
            have sent : anyKernel.answers after
                (sendTrap header.msghRemotePort (juliusMsgPing + 0x8000)) (kernSuccess, header) _ := rfl
            apply Server.CanReach.step (.ask sent)
            apply Server.CanReach.step .again
            apply next
            rw [receives_append, held]
            exact List.append_nil _
      · apply Server.CanReach.trans (canReach_failed (anyKernel_console _) succeeded rfl received)
        rintro ⟨config, after⟩ ⟨place, held⟩
        dsimp only at held place
        subst place
        exact next _ _ held

/-- The loop comes to the top after any sequence of outcomes of its receives, and
then its sends are the replies to them, in their order. -/
theorem serviceLoop_settled (port : MachPort) (stack : JuliusSimpleMsg)
    (outcomes : List (KernReturn × MachMsgHeader)) :
    (∃ msg history, (serviceLoop port stack).Reachable anyKernel [] (.top msg, history) ∧
      receives history = outcomes) ∧
    ∀ msg history, (serviceLoop port stack).Reachable anyKernel [] (.top msg, history) →
      receives history = outcomes → sends history = outcomes.filterMap replyTo := by
  constructor
  · have occurs : (serviceLoop port stack).CanReach anyKernel
        (fun last => (∃ msg, last.1 = .top msg) ∧ receives last.2 = outcomes)
        (.starting (serviceLoop port stack).start, []) := by
      apply Server.CanReach.trans (canReach_started (anyKernel_console []) rfl)
      rintro ⟨config, history⟩ ⟨place, none⟩
      dsimp only at place none
      subst place
      have further := outcomes_occur port stack stack history outcomes
      rwa [none] at further
    obtain ⟨⟨config, history⟩, reached, ⟨msg, place⟩, received⟩ := occurs
    dsimp only at place received
    subst place
    exact ⟨msg, history, reached, received⟩
  · intro msg history reached received
    have nothing : Settled [] := rfl
    have settled : Settled history :=
      (replies_rule port).serviceLoop_safe stack nothing reached
    rw [settled, received]

end Julius
