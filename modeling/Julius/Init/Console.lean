import Julius.Init.Replies
import Julius.Libc.Digits

set_option autoImplicit false

/- What the service loop prints, and what can be read back from it. -/
namespace Julius

open Interact

/-- The characters written to the serial console. -/
def Event.printed : Event → List Char
  | ⟨.write fd text, _⟩ => if fd = 2 then text.toList else []
  | _ => []

def consoleText (history : List Event) : List Char := history.flatMap Event.printed

/-- What `julius_put_hex` prints. -/
def hexText (v : Word) : List Char := (putHexText v (fun _ => '\x00')).1.toList

/-- What the loop prints about the outcome of a receive. -/
def entryText (outcome : KernReturn × MachMsgHeader) : List Char :=
  if outcome.1 ≠ kernSuccess then
    "init: mach_msg recv error, kr=".toList ++ hexText (outcome.1.setWidth 64) ++ "\r\n".toList
  else
    "init: received msg id=".toList ++ hexText (outcome.2.msghId.setWidth 64) ++
      " from port=".toList ++ hexText (outcome.2.msghRemotePort.setWidth 64) ++ "\r\n".toList ++
      if outcome.2.msghId = juliusMsgPing then "init: PING received, sending PONG\r\n".toList
      else "init: unknown message, ignoring\r\n".toList

def openingText : List Char :=
  "init: entering service loop (waiting for Mach messages)\r\n".toList

/-- What can be told of a receive by looking at the console. -/
inductive Entry
  | failed (kr : KernReturn)
  | message (msgId : BitVec 32) (remotePort : MachPort)
  deriving DecidableEq, Repr

def Entry.of (outcome : KernReturn × MachMsgHeader) : Entry :=
  if outcome.1 ≠ kernSuccess then .failed outcome.1
  else .message outcome.2.msghId outcome.2.msghRemotePort

/-- Skips a text that must come next. -/
def expect (text s : List Char) : Option (List Char) :=
  if text <+: s then some (s.drop text.length) else none

/-- Reads `0x` and a numeral, as far as it goes. -/
def readHex (s : List Char) : Option (BitVec 32 × List Char) := do
  let s ← expect "0x".toList s
  let numeral := s.takeWhile (fun c => digits.contains c)
  return (BitVec.ofNat 32 (Numeral.decode digits numeral), s.drop numeral.length)

/-- Reads what the loop printed about one receive. -/
def readEntry (s : List Char) : Option (Entry × List Char) :=
  match expect "init: mach_msg recv error, kr=".toList s with
  | some s => do
      let (kr, s) ← readHex s
      let s ← expect "\r\n".toList s
      return (.failed kr, s)
  | none => do
      let s ← expect "init: received msg id=".toList s
      let (msgId, s) ← readHex s
      let s ← expect " from port=".toList s
      let (remotePort, s) ← readHex s
      let s ← expect "\r\n".toList s
      let s ← (expect "init: PING received, sending PONG\r\n".toList s).or
        (expect "init: unknown message, ignoring\r\n".toList s)
      return (.message msgId remotePort, s)

def readEntries : Nat → List Char → Option (List Entry)
  | _, [] => some []
  | 0, _ :: _ => none
  | limit + 1, s => do
      let (entry, s) ← readEntry s
      let entries ← readEntries limit s
      return entry :: entries

/-- Reads a console back. -/
def readConsole (text : List Char) : Option (List Entry) := do
  let s ← expect openingText text
  readEntries s.length s

theorem expect_append (text rest : List Char) : expect text (text ++ rest) = some rest := by
  rw [expect, if_pos (List.prefix_append text rest), List.drop_left]

theorem hexText_eq (v : Word) : ∃ numeral, hexText v = "0x".toList ++ numeral ∧
    Numeral.Shortest digits numeral v.toNat := by
  obtain ⟨numeral, text, shortest⟩ := putHexText_numeral v (fun _ => '\x00')
  refine ⟨numeral, ?_, shortest⟩
  rw [hexText, text, String.toList_append]
  exact congrArg ("0x".toList ++ ·) String.toList_ofList

/-- A value of 32 bits comes back from what was printed, whatever follows it, unless that
starts with a digit. -/
theorem readHex_append (v : BitVec 32) {rest : List Char}
    (stops : ∀ c ∈ rest.head?, digits.contains c = false) :
    readHex (hexText (v.setWidth 64) ++ rest) = some (v, rest) := by
  obtain ⟨numeral, text, shortest⟩ := hexText_eq (v.setWidth 64)
  have inside : ∀ c ∈ numeral, digits.contains c = true :=
    fun c member => List.contains_iff_mem.mpr (shortest.digits c member)
  have behind : rest.takeWhile (fun c => digits.contains c) = [] := by
    cases rest with
    | nil => rfl
    | cons c rest => exact List.takeWhile_cons_of_neg (Bool.eq_false_iff.mp (stops c rfl))
  have read : (numeral ++ rest).takeWhile (fun c => digits.contains c) = numeral := by
    rw [List.takeWhile_append_of_pos inside, behind, List.append_nil]
  have value : BitVec.ofNat 32 (Numeral.decode digits numeral) = v := by
    rw [shortest.decodes, BitVec.toNat_setWidth, Nat.mod_eq_of_lt (by omega), BitVec.ofNat_toNat,
      BitVec.setWidth_eq]
  rw [text, List.append_assoc, readHex, expect_append]
  show some (BitVec.ofNat 32 (Numeral.decode digits _), (numeral ++ rest).drop _) = _
  rw [read, value, List.drop_left]

theorem expect_error_received (rest : List Char) :
    expect "init: mach_msg recv error, kr=".toList ("init: received msg id=".toList ++ rest) =
      none := rfl

theorem expect_pong_unknown (rest : List Char) :
    expect "init: PING received, sending PONG\r\n".toList
      ("init: unknown message, ignoring\r\n".toList ++ rest) = none := rfl

/-- What was printed about one receive is read back, whatever was printed after it. -/
theorem readEntry_append (outcome : KernReturn × MachMsgHeader) (rest : List Char) :
    readEntry (entryText outcome ++ rest) = some (Entry.of outcome, rest) := by
  have lineEnd : ∀ (s : List Char), ∀ c ∈ ("\r\n".toList ++ s).head?, digits.contains c = false := by
    rintro s c ⟨⟩
    decide
  have space : ∀ (s : List Char), ∀ c ∈ (" from port=".toList ++ s).head?,
      digits.contains c = false := by
    rintro s c ⟨⟩
    decide
  unfold entryText Entry.of
  by_cases failed : outcome.1 ≠ kernSuccess
  · rw [if_pos failed, if_pos failed, List.append_assoc, List.append_assoc, readEntry, expect_append]
    dsimp only
    rw [readHex_append _ (lineEnd rest)]
    simp only [Option.bind_eq_bind, Option.bind_some, expect_append, Option.pure_def]
  · rw [if_neg failed, if_neg failed]
    simp only [List.append_assoc]
    rw [readEntry, expect_error_received]
    simp only [Option.bind_eq_bind, Option.bind_some, expect_append, readHex_append _ (space _),
      readHex_append _ (lineEnd _)]
    by_cases ping : outcome.2.msghId = juliusMsgPing
    · rw [if_pos ping, expect_append]
      rfl
    · rw [if_neg ping, expect_pong_unknown, expect_append]
      rfl

theorem entryText_ne_nil (outcome : KernReturn × MachMsgHeader) : entryText outcome ≠ [] := by
  unfold entryText
  split
  · exact List.cons_ne_nil 'i' _
  · exact List.cons_ne_nil 'i' _

theorem readEntries_cons (limit : Nat) (c : Char) (s : List Char) :
    readEntries (limit + 1) (c :: s) =
      (readEntry (c :: s)).bind (fun found =>
        (readEntries limit found.2).bind (fun entries => some (found.1 :: entries))) := rfl

theorem readEntries_flatMap (outcomes : List (KernReturn × MachMsgHeader)) {limit : Nat}
    (enough : outcomes.length ≤ limit) :
    readEntries limit (outcomes.flatMap entryText) = some (outcomes.map Entry.of) := by
  induction outcomes generalizing limit with
  | nil =>
      unfold readEntries
      rfl
  | cons outcome rest ih =>
      obtain ⟨limit, rfl⟩ := Nat.exists_eq_succ_of_ne_zero
        (Nat.ne_of_gt (Nat.lt_of_lt_of_le (Nat.succ_pos _) enough))
      rw [List.flatMap_cons]
      cases shape : entryText outcome ++ rest.flatMap entryText with
      | nil => exact absurd (List.append_eq_nil_iff.mp shape).1 (entryText_ne_nil outcome)
      | cons c s =>
          rw [readEntries_cons, ← shape, readEntry_append, Option.bind_some,
            ih (Nat.le_of_succ_le_succ enough)]
          rfl

theorem length_le_flatMap (outcomes : List (KernReturn × MachMsgHeader)) :
    outcomes.length ≤ (outcomes.flatMap entryText).length := by
  induction outcomes with
  | nil => exact Nat.le_refl _
  | cons outcome rest ih =>
      have filled := List.length_pos_iff.mpr (entryText_ne_nil outcome)
      rw [List.flatMap_cons, List.length_append, List.length_cons]
      omega

theorem readConsole_entries (outcomes : List (KernReturn × MachMsgHeader)) :
    readConsole (openingText ++ outcomes.flatMap entryText) = some (outcomes.map Entry.of) := by
  rw [readConsole, expect_append]
  simp only [Option.bind_eq_bind, Option.bind_some]
  exact readEntries_flatMap outcomes (length_le_flatMap outcomes)

/-- The console shows `text`, and the receives so far had these outcomes. -/
def Told (text : List Char) (outcomes : List (KernReturn × MachMsgHeader))
    (history : List Event) : Prop :=
  consoleText history = text ∧ receives history = outcomes

section

variable {α : Type} {post : Except Panic α → List Event → Prop} {text : List Char}
  {outcomes : List (KernReturn × MachMsgHeader)} {history : List Event}

theorem consoleText_append (history : List Event) (event : Event) :
    consoleText (history ++ [event]) = consoleText history ++ event.printed := by
  rw [consoleText, List.flatMap_append, List.flatMap_singleton]
  rfl

/-- Printing shows on the console and nowhere else. -/
theorem wp_puts (s : String) {next : BitVec 64 → Libc α} (start : Told text outcomes history)
    (rest : ∀ count after, Told (text ++ s.toList) outcomes after →
      (next count).wp anyKernel (fun _ _ => True) post after) :
    ((juliusPuts s).bind next).wp anyKernel (fun _ _ => True) post history := by
  apply (Program.wp_ask_of_still anyKernel_still _ _ _).mpr
  refine ⟨trivial, ?_⟩
  rintro (count : BitVec 64) after rfl
  apply rest
  constructor
  · rw [consoleText_append, start.1]
    rfl
  · rw [receives_append, start.2]
    exact List.append_nil _

theorem wp_putsHex (v : Word) {next : Unit → Libc α} (start : Told text outcomes history)
    (rest : ∀ after, Told (text ++ hexText v) outcomes after →
      (next ()).wp anyKernel (fun _ _ => True) post after) :
    ((juliusPutHex v).bind next).wp anyKernel (fun _ _ => True) post history := by
  rw [juliusPutHex_eq v (fun _ => '\x00'), Program.bind_assoc]
  exact wp_puts _ start (fun _ after told => rest after told)

/-- A send shows nowhere. -/
theorem told_send {remote : MachPort} {msgId : BitVec 32} {answer : KernReturn × MachMsgHeader}
    (start : Told text outcomes history) :
    Told text outcomes (history ++ [⟨sendTrap remote msgId, answer⟩]) := by
  constructor
  · rw [consoleText_append, start.1]
    exact List.append_nil _
  · rw [receives_append, start.2]
    exact List.append_nil _

theorem wp_dispatch_told (header : MachMsgHeader) {post : Except Panic Unit → List Event → Prop}
    (start : Told text outcomes history)
    (settled : ∀ after, Told (text ++
      if header.msghId = juliusMsgPing then "init: PING received, sending PONG\r\n".toList
      else "init: unknown message, ignoring\r\n".toList) outcomes after → post (.ok ()) after) :
    (dispatch header).wp anyKernel (fun _ _ => True) post history := by
  unfold dispatch
  simp only [Program.bind_eq, Program.pure_eq]
  by_cases ping : header.msghId = juliusMsgPing
  · rw [if_pos ping] at settled ⊢
    apply wp_puts _ start
    intro _ after told
    by_cases named : header.msghRemotePort ≠ machPortNull
    · rw [if_pos named, juliusSendSimple_eq]
      apply (Program.wp_ask_of_still anyKernel_still _ _ _).mpr
      refine ⟨trivial, ?_⟩
      rintro answer later rfl
      exact settled _ (told_send told)
    · rw [if_neg named]
      exact settled after told
  · rw [if_neg ping] at settled ⊢
    apply wp_puts _ start
    intro _ after told
    exact settled after told

/-- The console shows all receives so far. -/
def Logged (history : List Event) : Prop :=
  consoleText history = openingText ++ (receives history).flatMap entryText

/-- A pass adds the text of the receive it makes. -/
theorem wp_pass_logged (port : MachPort) (msg : JuliusSimpleMsg) (logged : Logged history) :
    (servicePass port msg).wp anyKernel (fun _ _ => True)
      (Server.onAgain (fun _ after => Logged after) (fun _ _ => False)) history := by
  rw [servicePass_eq]
  apply (Program.wp_ask_of_still anyKernel_still _ _ _).mpr
  refine ⟨trivial, ?_⟩
  rintro (outcome : KernReturn × MachMsgHeader) _ rfl
  have start : Told (consoleText history) (receives history ++ [outcome])
      (history ++ [⟨recvTrap port msg, outcome⟩]) := by
    constructor
    · rw [consoleText_append]
      exact List.append_nil _
    · rw [receives_append]
      rfl
  have shown : ∀ after, Told (consoleText history ++ entryText outcome)
      (receives history ++ [outcome]) after → Logged after := by
    intro after told
    rw [Logged, told.1, told.2, logged, List.flatMap_append, List.flatMap_singleton,
      List.append_assoc]
  unfold received
  simp only [Program.bind_eq, Program.pure_eq]
  by_cases failed : outcome.1 ≠ kernSuccess
  · rw [entryText, if_pos failed] at shown
    rw [if_pos failed]
    apply wp_puts _ start
    intro _ after told
    apply wp_putsHex _ told
    intro after told
    apply wp_puts _ told
    intro _ after told
    simp only [List.append_assoc] at told shown
    exact shown after told
  · rw [entryText, if_neg failed] at shown
    rw [if_neg failed]
    apply wp_puts _ start
    intro _ after told
    apply wp_putsHex _ told
    intro after told
    apply wp_puts _ told
    intro _ after told
    apply wp_putsHex _ told
    intro after told
    apply wp_puts _ told
    intro _ after told
    rw [Program.wp_bind]
    apply wp_dispatch_told outcome.2 told
    intro after told
    simp only [List.append_assoc] at told shown
    exact shown after told

end

/-- The console of the service loop can be read back: whatever the receives return, at the top
of every iteration it tells the error code of each one that failed, and the id and the reply
port of each message received, in their order. -/
theorem serviceLoop_console (port : MachPort) (stack msg : JuliusSimpleMsg)
    (history : List Event)
    (reached : (serviceLoop port stack).Reachable anyKernel [] (.top msg, history)) :
    readConsole (consoleText history) = some ((receives history).map Entry.of) := by
  have opened : (serviceLoop port stack).start.wp anyKernel (fun _ _ => True)
      (Server.onStarted (fun _ after => Logged after) (fun _ _ => False)) [] := by
    have start : Told [] [] [] := ⟨rfl, rfl⟩
    apply wp_puts _ start
    intro _ after told
    show Logged after
    rw [Logged, told.1, told.2]
    rfl
  have logged : Logged history :=
    Server.Reachable.safe (fun _ s t moved => absurd moved (anyKernel_still s t))
      (fun _ _ _ _ never => never) (fun _ _ _ _ never => never) opened
      (fun msg _ held => wp_pass_logged port msg held) reached
  rw [logged]
  exact readConsole_entries (receives history)

/-- An error, a PING with a reply port and an unknown id, as the console tells of them. -/
theorem serviceLoop_console_three : ∃ msg history,
    (serviceLoop 0x203 ⟨simpleHeader 0 0⟩).Reachable anyKernel [] (.top msg, history) ∧
      readConsole (consoleText history) =
        some [.failed 0x10004004, .message juliusMsgPing 5, .message 7 0] := by
  obtain ⟨⟨msg, history, reached, received⟩, _⟩ := serviceLoop_settled 0x203 ⟨simpleHeader 0 0⟩
    [(0x10004004, simpleHeader 0 0), (kernSuccess, simpleHeader 5 juliusMsgPing),
      (kernSuccess, simpleHeader 0 7)]
  have read := serviceLoop_console 0x203 ⟨simpleHeader 0 0⟩ msg history reached
  rw [received] at read
  exact ⟨msg, history, reached, read⟩

end Julius
