import Julius.Kext.Sending
import Julius.Libc.Abi
import Julius.Tools.PanicReport

set_option autoImplicit false

/- A log on its way over the serial line: what put_string sends of a text, and what
tools/panic-parse.py reads of it. -/
namespace Julius

open Interact

/-- The bytes among the writes to the registers that go out. -/
def wireBytes (writes : List (Reg × Reg)) : List Byte :=
  (writes.filter (fun write => write.1 = pl011DR)).map (fun write => write.2.setWidth 8)

/-- The lines that the tool reads of the bytes it receives. -/
def receivedLines (bytes : List Byte) : Option (List Str) :=
  (textOf bytes).map (fun text => readlines (universalNewlines text.toList))

/-- `expand` on characters. -/
def expandText (s : Str) : Str := s.flatMap (fun c => if c = '\n' then ['\r', c] else [c])

/-- A CR that ends a line by itself. -/
def lineEnd (c : Char) : Char := if c = '\r' then '\n' else c

theorem expand_append (first second : List Byte) :
    expand (first ++ second) = expand first ++ expand second := by
  induction first with
  | nil => rfl
  | cons c first ih =>
      rw [List.cons_append, expand, expand, ih]
      split <;> rfl

theorem expand_other {bytes : List Byte} (other : ∀ byte ∈ bytes, byte ≠ lineFeed) :
    expand bytes = bytes := by
  induction bytes with
  | nil => rfl
  | cons c bytes ih =>
      rw [expand, if_neg (other c List.mem_cons_self),
        ih (fun byte member => other byte (List.mem_cons_of_mem _ member))]

/-- The CRs that the driver adds to the bytes are CRs of the text: no other character has an LF
among its bytes. -/
theorem expand_textBytes (s : Str) :
    expand (textBytes (String.ofList s)) = textBytes (String.ofList (expandText s)) := by
  rw [textBytes_flatMap, textBytes_flatMap, String.toList_ofList, String.toList_ofList]
  induction s with
  | nil => rfl
  | cons c s ih =>
      rw [List.flatMap_cons, expand_append, ih, expandText, expandText, List.flatMap_cons,
        List.flatMap_append]
      congr 1
      by_cases newline : c = '\n'
      · rw [if_pos newline, newline]
        decide
      · rw [if_neg newline, List.flatMap_singleton]
        apply expand_other
        intro byte member
        obtain ⟨unit, inside, rfl⟩ := List.mem_map.mp member
        have other : c.toNat ≠ 10 := fun same => newline (Char.toNat_inj.mp same)
        exact fun same =>
          utf8EncodeChar_ascii (by decide) other unit inside (congrArg BitVec.toNat same)

/-- The CR that the driver puts in front of an LF is read as one line end with it. -/
theorem newlines_expandText (behindCr : Bool) (s : Str) :
    newlines behindCr (expandText s) = s.map lineEnd := by
  induction s generalizing behindCr with
  | nil => rfl
  | cons c s ih =>
      rw [expandText, List.flatMap_cons, List.map_cons]
      by_cases newline : c = '\n'
      · rw [if_pos newline, newline]
        show '\n' :: newlines false (expandText s) = _
        rw [ih]
        rfl
      · rw [if_neg newline]
        show newlines behindCr (c :: expandText s) = _
        rw [newlines, lineEnd]
        by_cases return_ : c = '\r'
        · rw [if_pos return_, if_pos return_, ih]
        · rw [if_neg return_, if_neg (fun both => newline both.1), if_neg return_, ih]

theorem wireBytes_sent (bytes : List Byte) :
    wireBytes (bytes.map (fun c => (pl011DR, c.setWidth 32))) = bytes := by
  have all : (bytes.map (fun c => ((pl011DR, c.setWidth 32) : Reg × Reg))).filter
      (fun write => write.1 = pl011DR) = bytes.map (fun c => (pl011DR, c.setWidth 32)) := by
    apply List.filter_eq_self.mpr
    intro write member
    obtain ⟨c, _, rfl⟩ := List.mem_map.mp member
    exact decide_eq_true rfl
  have back : (fun write : Reg × Reg => write.2.setWidth 8) ∘
      (fun c : Byte => ((pl011DR, c.setWidth 32) : Reg × Reg)) = id := by
    funext c
    exact BitVec.setWidth_setWidth_of_le c (by decide)
  rw [wireBytes, all, List.map_map, back, List.map_id]

/-- `put_string` on one text after the other. -/
def putStrings (regs : Word) : List String → Kext Unit
  | [] => return
  | text :: rest => do
      putString regs (textBytes text)
      putStrings regs rest

theorem putAll_append (regs : Word) (first second : List Byte) :
    putAll regs (first ++ second) = (do putAll regs first; putAll regs second) := by
  induction first with
  | nil => rfl
  | cons c first ih =>
      rw [List.cons_append, putAll, putAll, ih]
      exact (Program.bind_assoc _ _ _).symm

theorem putStrings_eq (regs : Word) (texts : List String) :
    putStrings regs texts =
      putAll regs (expand (textBytes (String.ofList (texts.flatMap String.toList)))) := by
  induction texts with
  | nil => rfl
  | cons text rest ih =>
      have joined : textBytes (String.ofList ((text :: rest).flatMap String.toList)) =
          textBytes text ++ textBytes (String.ofList (rest.flatMap String.toList)) := by
        rw [textBytes_flatMap, textBytes_flatMap, textBytes_flatMap, String.toList_ofList,
          String.toList_ofList, List.flatMap_cons, List.flatMap_append]
      rw [putStrings, joined, expand_append, putAll_append, putString_eq, ih]

section

variable {reads : Nat → Reg} {regs : Word}

/-- Whatever texts `put_string` sends one after the other, if no byte times out the tool reads
the lines of all of them, with no character changed and no line added for the CRs of the driver.
A CR of a text itself ends a line, too, so that one before an LF leaves an empty line behind
it. -/
theorem receivedLines_putStrings (mapped : regs ≠ 0) (texts : List String)
    (onTime : ∀ call ∈ putCalls regs reads .start
      (expand (textBytes (String.ofList (texts.flatMap String.toList)))), ¬ call.TimedOut reads) :
    let run := runDevice reads (putStrings regs texts) .start
    run.1 = .ok () ∧ receivedLines (wireBytes (writesOf run.2.events)) =
      some (readlines ((texts.flatMap String.toList).map lineEnd)) := by
  intro run
  generalize spelled : texts.flatMap String.toList = s at onTime ⊢
  have program : putStrings regs texts = putAll regs (expand (textBytes (String.ofList s))) :=
    spelled ▸ putStrings_eq regs texts
  obtain ⟨returned, written⟩ :=
    @run_putAll reads regs mapped (expand (textBytes (String.ofList s))) .start
  rw [List.filter_eq_self.mpr (by simpa using onTime), ← program] at written
  rw [← program] at returned
  refine ⟨returned, ?_⟩
  have sent : writesOf run.2.events =
      (expand (textBytes (String.ofList s))).map (fun c => (pl011DR, c.setWidth 32)) := by
    refine written.trans ?_
    conv_rhs => rw [← @putCalls_bytes reads regs .start
      (expand (textBytes (String.ofList s))), List.map_map]
    rfl
  rw [sent, wireBytes_sent, expand_textBytes, receivedLines, textOf_textBytes, Option.map_some,
    String.toList_ofList, universalNewlines, newlines_expandText]

end

/-- The message with which the driver starts, between two lines of a log. -/
theorem receivedLines_putStrings_started :
    receivedLines (wireBytes (writesOf (runDevice (fun _ => 0)
        (putStrings 0x1000 ["on\n", "\r\n[JuliusSerial] ready.\r\n", "€\n"]) .start).2.events)) =
      some ["on\n".toList, "\n".toList, "\n".toList, "[JuliusSerial] ready.\n".toList,
        "\n".toList, "€\n".toList] := by
  have mapped : (0x1000 : Word) ≠ 0 := by decide
  have room : txFull 0 = false := by decide
  have received := (@receivedLines_putStrings (fun _ => 0) 0x1000 mapped
    ["on\n", "\r\n[JuliusSerial] ready.\r\n", "€\n"]
    (fun call _ late => absurd (late 0 (by decide)) (Bool.eq_false_iff.mp room))).2
  exact received.trans (by decide +kernel)

end Julius
