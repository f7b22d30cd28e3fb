import Julius.Libc.Delivery

set_option autoImplicit false

/- Receives with `julius_mach_msg` into buffers of any size: what the room behind the header
decides. -/
namespace Julius

open Interact

/-- The trap behind a receive of `rcvSize` bytes. -/
def recvTrapOf (port : MachPort) (rcvSize : BitVec 32) (out : MachMsgHeader) : Trap :=
  .machMsg out machRcvMsg 0 rcvSize port machMsgTimeoutNone

/-- A call made by anyone: `julius_send_simple`, or `julius_mach_msg` for a receive. -/
inductive SizedStep (trailer : Nat) (port : MachPort) (rcvSize : BitVec 32) :
    PortQueue → PortCall → PortQueue → Prop
  | send {s t : PortQueue} {msgId : BitVec 32} {kr : KernReturn}
      (run : Exec (xnuPort trailer) (juliusSendSimple port msgId) s (.ok kr) t) :
      SizedStep trailer port rcvSize s (.send msgId kr) t
  | recv {s t : PortQueue} {out header : MachMsgHeader} {kr : KernReturn}
      (run : Exec (xnuPort trailer)
        (juliusMachMsg out machRcvMsg 0 rcvSize port machMsgTimeoutNone) s (.ok (kr, header)) t) :
      SizedStep trailer port rcvSize s (.recv kr header.msghId) t

/-- Any number of callers on one port, whose receives all offer `rcvSize` bytes. -/
def sizedCalls (trailer : Nat) (port : MachPort) (rcvSize : BitVec 32) : LTS PortQueue PortCall :=
  ⟨SizedStep trailer port rcvSize⟩

/-- The buffer holds a bare header and the trailer. -/
def HasRoom (trailer : Nat) (rcvSize : BitVec 32) : Prop :=
  sizeofMachMsgHeader.toNat + trailer ≤ rcvSize.toNat

instance (trailer : Nat) (rcvSize : BitVec 32) : Decidable (HasRoom trailer rcvSize) :=
  inferInstanceAs (Decidable (_ ≤ _))

def PortQueue.ids (s : PortQueue) : List (BitVec 32) := s.queue.map MachMsgHeader.msghId

section

variable {trailer : Nat} {port : MachPort} {rcvSize : BitVec 32} {s t : PortQueue}

theorem sentIds_send (msgId : BitVec 32) (kr : KernReturn) (rest : List (PortCall × PortQueue)) :
    sentIds ((.send msgId kr, t) :: rest) =
      (PortCall.send msgId kr).sentId.toList ++ sentIds rest := by
  cases sent : (PortCall.send msgId kr).sentId <;> simp [sentIds, sent]

theorem receivedIds_failed {msgId : BitVec 32} {kr : KernReturn} (failure : kr ≠ kernSuccess)
    (rest : List (PortCall × PortQueue)) :
    receivedIds ((.recv kr msgId, t) :: rest) = receivedIds rest := by
  have missed : (PortCall.recv kr msgId).receivedId = none := if_neg failure
  rw [receivedIds, List.filterMap_cons, missed]
  rfl

/-- A send puts its message behind the others, or leaves the port as it is. -/
theorem send_queues {msgId : BitVec 32} {kr : KernReturn} (bare : s.Bare)
    (run : Exec (xnuPort trailer) (juliusSendSimple port msgId) s (.ok kr) t) :
    t.Bare ∧ t.destroyed = s.destroyed ∧
      t.ids = s.ids ++ (PortCall.send msgId kr).sentId.toList := by
  have kept := (send_spec bare run).1
  rw [juliusSendSimple_eq] at run
  obtain ⟨answer, answered, rfl⟩ := run.of_query (xnuPort_still trailer)
  refine ⟨kept, ?_⟩
  cases xnuPort_send.mp answered with
  | queued =>
      have sent : (PortCall.send msgId kernSuccess).sentId = some msgId := by
        simp [PortCall.sentId]
      exact ⟨rfl, by rw [sent, PortQueue.ids, List.map_append]; rfl⟩
  | failed failure =>
      have unsent : (PortCall.send msgId _).sentId = none := if_neg failure
      exact ⟨rfl, by rw [unsent, Option.toList_none, List.append_nil]⟩

/-- What a receive does to a port of bare headers: it takes the first one if there is room for
it, destroys it if there is none, or fails and leaves the port as it is. -/
theorem sized_recv {out header : MachMsgHeader} {kr : KernReturn} (bare : s.Bare)
    (run : Exec (xnuPort trailer)
      (juliusMachMsg out machRcvMsg 0 rcvSize port machMsgTimeoutNone) s (.ok (kr, header)) t) :
    t.Bare ∧
      ((HasRoom trailer rcvSize ∧ kr = kernSuccess ∧ s.ids = header.msghId :: t.ids ∧
          t.destroyed = s.destroyed) ∨
        (¬ HasRoom trailer rcvSize ∧ kr ≠ kernSuccess ∧
          s.destroyed ++ s.ids = t.destroyed ++ t.ids) ∨
        (kr ≠ kernSuccess ∧ t = s)) := by
  have header_size : ∀ {m rest}, s.queue = m :: rest →
      m.msghSize.toNat = sizeofMachMsgHeader.toNat :=
    fun {m _} first => congrArg BitVec.toNat (bare m (first ▸ List.mem_cons_self))
  have shorter : ∀ {m rest}, s.queue = m :: rest → ∀ lost, PortQueue.Bare ⟨rest, lost⟩ :=
    fun first _ other member => bare other (first ▸ List.mem_cons_of_mem _ member)
  have asked : Exec (xnuPort trailer) (.ask (recvTrapOf port rcvSize out)
      (fun answer => (.ret answer : Libc (KernReturn × MachMsgHeader)))) s (.ok (kr, header)) t := run
  obtain ⟨answer, answered, same⟩ := asked.of_query (xnuPort_still trailer)
  cases same
  have received : PortReceive trailer s machRcvMsg rcvSize (kr, header) t := by
    have noSend : ¬ machRcvMsg &&& machSendMsg ≠ 0 := by decide
    have taken : (if machRcvMsg &&& machSendMsg ≠ 0 then PortSend s out 0 (kr, header) t
      else PortReceive trailer s machRcvMsg rcvSize (kr, header) t) := answered
    rwa [if_neg noSend] at taken
  cases received with
  | delivered first fits =>
      refine ⟨shorter first _, Or.inl ⟨?_, rfl, ?_, rfl⟩⟩
      · unfold HasRoom
        rw [← header_size first]
        exact fits
      · rw [PortQueue.ids, first]
        rfl
  | @tooLarge m header rest first exceeds dropped =>
      refine ⟨shorter first _, Or.inr (Or.inl ⟨?_, by decide, ?_⟩)⟩
      · unfold HasRoom
        rw [← header_size first]
        exact Nat.not_le_of_lt exceeds
      · show s.destroyed ++ s.ids = (s.destroyed ++ [m.msghId]) ++ rest.map MachMsgHeader.msghId
        rw [PortQueue.ids, first, List.map_cons, List.append_assoc]
        rfl
  | large first exceeds retained => exact absurd retained (by decide)
  | interrupted failure => exact ⟨bare, Or.inr (Or.inr ⟨failure, rfl⟩)⟩

/-- With room, what is received and what is still queued make up what was queued and sent. -/
theorem sizedCalls_delivers (room : HasRoom trailer rcvSize) (run : List (PortCall × PortQueue))
    (bare : s.Bare) (valid : (sizedCalls trailer port rcvSize).IsRun s run) :
    receivedIds run ++ (LTS.final s run).ids = s.ids ++ sentIds run ∧
      (LTS.final s run).destroyed = s.destroyed := by
  induction run generalizing s with
  | nil => exact ⟨(List.append_nil _).symm, rfl⟩
  | cons move rest ih =>
      obtain ⟨call, t⟩ := move
      obtain ⟨step, later⟩ := valid
      cases step with
      | @send _ msgId kr run =>
          obtain ⟨bare', destroyed, queued⟩ := send_queues bare run
          obtain ⟨order, none⟩ := ih bare' later
          refine ⟨?_, none.trans destroyed⟩
          rw [LTS.final_cons, sentIds_send, ← List.append_assoc, ← queued]
          exact order
      | @recv _ out header kr run =>
          obtain ⟨bare', taken⟩ := sized_recv bare run
          obtain ⟨order, none⟩ := ih bare' later
          rcases taken with ⟨_, rfl, first, same⟩ | ⟨cramped, _⟩ | ⟨failure, rfl⟩
          · refine ⟨?_, none.trans same⟩
            rw [first, List.cons_append]
            exact congrArg (header.msghId :: ·) order
          · exact absurd room cramped
          · rw [receivedIds_failed failure]
            exact ⟨order, none⟩

/-- Without it nothing is received, and what was sent is destroyed or still queued. -/
theorem sizedCalls_destroys (cramped : ¬ HasRoom trailer rcvSize)
    (run : List (PortCall × PortQueue)) (bare : s.Bare)
    (valid : (sizedCalls trailer port rcvSize).IsRun s run) :
    receivedIds run = [] ∧ (LTS.final s run).destroyed ++ (LTS.final s run).ids =
      s.destroyed ++ s.ids ++ sentIds run := by
  induction run generalizing s with
  | nil => exact ⟨rfl, (List.append_nil _).symm⟩
  | cons move rest ih =>
      obtain ⟨call, t⟩ := move
      obtain ⟨step, later⟩ := valid
      cases step with
      | @send _ msgId kr run =>
          obtain ⟨bare', destroyed, queued⟩ := send_queues bare run
          obtain ⟨none, order⟩ := ih bare' later
          refine ⟨none, ?_⟩
          rw [LTS.final_cons, order, destroyed, queued, sentIds_send]
          simp only [List.append_assoc]
      | @recv _ out header kr run =>
          obtain ⟨bare', taken⟩ := sized_recv bare run
          obtain ⟨none, order⟩ := ih bare' later
          have failure : kr ≠ kernSuccess := by
            rcases taken with ⟨room, _⟩ | ⟨_, failure, _⟩ | ⟨failure, _⟩
            · exact absurd room cramped
            · exact failure
            · exact failure
          have kept : s.destroyed ++ s.ids = t.destroyed ++ t.ids := by
            rcases taken with ⟨room, _⟩ | ⟨_, _, kept⟩ | ⟨_, rfl⟩
            · exact absurd room cramped
            · exact kept
            · rfl
          rw [receivedIds_failed failure, LTS.final_cons, order, kept]
          exact ⟨none, rfl⟩

end

/-- On one port, with any number of senders and receivers in any order: if the receives leave
room for the trailer, each message sent is received once, in the order of the sends, or still
queued, and none is destroyed; if they do not, none is received, and each is destroyed or
still queued. -/
theorem sizedCalls_delivery (trailer : Nat) (port : MachPort) (rcvSize : BitVec 32)
    (run : List (PortCall × PortQueue))
    (valid : (sizedCalls trailer port rcvSize).IsRun ⟨[], []⟩ run) :
    (HasRoom trailer rcvSize → sentIds run = receivedIds run ++ (LTS.final ⟨[], []⟩ run).ids ∧
        (LTS.final ⟨[], []⟩ run).destroyed = []) ∧
      (¬ HasRoom trailer rcvSize → receivedIds run = [] ∧
        sentIds run = (LTS.final ⟨[], []⟩ run).destroyed ++ (LTS.final ⟨[], []⟩ run).ids) := by
  have bare : PortQueue.Bare ⟨[], []⟩ := fun m member => absurd member List.not_mem_nil
  constructor
  · intro room
    obtain ⟨order, none⟩ := sizedCalls_delivers room run bare valid
    exact ⟨order.symm, none⟩
  · intro cramped
    obtain ⟨none, order⟩ := sizedCalls_destroys cramped run bare valid
    exact ⟨none, order.symm⟩

/-- Two messages into buffers with room for a trailer of eight bytes: one is received. -/
theorem sizedCalls_delivery_two : ∃ run,
    (sizedCalls 8 0x203 32).IsRun ⟨[], []⟩ run ∧ sentIds run = [7, 9] ∧ receivedIds run = [7] ∧
      (LTS.final ⟨[], []⟩ run).ids = [9] ∧ (LTS.final ⟨[], []⟩ run).destroyed = [] := by
  have send : ∀ (s : PortQueue) msgId, SizedStep 8 0x203 32 s (.send msgId kernSuccess)
      { s with queue := s.queue ++ [simpleHeader 0x203 msgId] } := fun s msgId =>
    .send (.ask .refl (xnuPort_send.mpr (@PortSend.queued _ _ _ (simpleHeader 0x203 msgId))) .ret)
  have fits : (simpleHeader 0x203 7).msghSize.toNat + 8 ≤ (32 : BitVec 32).toNat := by decide
  have recv : SizedStep 8 0x203 32 ⟨[simpleHeader 0x203 7, simpleHeader 0x203 9], []⟩
      (.recv kernSuccess 7) ⟨[simpleHeader 0x203 9], []⟩ :=
    @SizedStep.recv _ _ _ _ _ (simpleHeader 0 0) (simpleHeader 0x203 7) _
      (.ask .refl (@PortReceive.delivered _ _ _ _ _ _ rfl fits) .ret)
  have valid : (sizedCalls 8 0x203 32).IsRun ⟨[], []⟩
      [(.send 7 kernSuccess, _), (.send 9 kernSuccess, _), (.recv kernSuccess 7, _)] :=
    ⟨send _ 7, send _ 9, recv, trivial⟩
  have delivered := (sizedCalls_delivery 8 0x203 32 _ valid).1 (by decide)
  exact ⟨_, valid, rfl, rfl, rfl, delivered.2⟩

end Julius
