import Mathlib.Data.List.Infix
import Mathlib.Data.List.DropRight
import Julius.Lib.Sections

set_option autoImplicit false

/- tools/panic-parse.py: the line loop of `parse_panic_log`. -/
namespace Julius

/-- A Python `str`: its code points. -/
abbrev Str := List Char

/-- `str.isspace` of one character; `\s` matches the same characters. -/
def isSpace (c : Char) : Bool :=
  let n := c.toNat
  (9 ≤ n && n ≤ 13) || (0x1c ≤ n && n ≤ 0x20) || n = 0x85 || n = 0xa0 || n = 0x1680 ||
    (0x2000 ≤ n && n ≤ 0x200a) || n = 0x2028 || n = 0x2029 || n = 0x202f || n = 0x205f || n = 0x3000

def rstrip (s : Str) : Str := s.rdropWhile isSpace

def strip (s : Str) : Str := (s.dropWhile isSpace).rdropWhile isSpace

/-- `str.lower`, as far as it makes ASCII letters: those of A to Z, the Kelvin sign's,
and that of the dotted capital I with its dot. -/
def lower (s : Str) : Str :=
  s.flatMap (fun c =>
    if c = '\u212a' then ['k'] else if c = '\u0130' then ['i', '\u0307'] else [c.toLower])

/-- `part in s` -/
def contains (s : Str) (part : String) : Bool := decide (part.toList <:+: s)

/-- `[0-9a-fA-F]` -/
def isHexDigit (c : Char) : Bool :=
  ('0' ≤ c && c ≤ '9') || ('a' ≤ c && c ≤ 'f') || ('A' ≤ c && c ≤ 'F')

/-- `(0x[0-9a-fA-F]{8,16})\s*:\s*`, with the address it captures and what follows. No
other way to match is left: neither `\s` nor `:` is a digit. -/
def matchAddress : Str → Option (Str × Str)
  | '0' :: 'x' :: rest =>
      let digits := rest.takeWhile isHexDigit
      if 8 ≤ digits.length ∧ digits.length ≤ 16 then
        match (rest.dropWhile isHexDigit).dropWhile isSpace with
        | ':' :: rest => some ('0' :: 'x' :: digits, rest.dropWhile isSpace)
        | _ => none
      else none
  | _ => none

/-- `(?:\+0x[0-9a-fA-F]+)?$`, on a string that does not end in a newline. -/
def matchOffset : Str → Bool
  | [] => true
  | '+' :: '0' :: 'x' :: digit :: digits => (digit :: digits).all isHexDigit
  | _ => false

/-- `(.+?)(?:\+0x[0-9a-fA-F]+)?$`: what `.+?` captures, the shortest possible. -/
def matchSymbol : Str → Option Str
  | [] => none
  | c :: rest =>
      if c = '\n' then none
      else if matchOffset rest then some [c]
      else (matchSymbol rest).map (c :: ·)

/-- `BACKTRACE_RE.match`, on a stripped line. -/
def backtraceRe (s : Str) : Option (Str × Str) := do
  let (addr, rest) ← matchAddress s
  let sym ← matchSymbol rest
  return (addr, sym)

/-- `[a-zA-Z0-9._-]` -/
def isKextChar (c : Char) : Bool :=
  c.isAlphanum || c = '.' || c = '_' || c = '-'

/-- `\s+` -/
def matchSpaces (s : Str) : Option Str :=
  if (s.takeWhile isSpace).isEmpty then none else some (s.dropWhile isSpace)

/-- `KEXT_RE` at the start of the string. -/
def kextReAt : Str → Option (Str × Str)
  | 'c' :: 'o' :: 'm' :: '.' :: rest => do
      let name := rest.takeWhile isKextChar
      if name.isEmpty then none
      match ← matchSpaces (rest.dropWhile isKextChar) with
      | '@' :: rest =>
          match ← matchSpaces rest with
          | '0' :: 'x' :: rest =>
              let digits := rest.takeWhile isHexDigit
              if digits.isEmpty then none
              return ("com.".toList ++ name, "0x".toList ++ digits)
          | _ => none
      | _ => none
  | _ => none

/-- `KEXT_RE.search` -/
def kextRe : Str → Option (Str × Str)
  | [] => none
  | c :: rest => kextReAt (c :: rest) <|> kextRe rest

/-- `KNOWN_PANICS` -/
def knownPanics : List (String × String) := [
  ("page fault in kernel mode", "Null pointer or unmapped memory dereference."),
  ("Unresolved kernel trap",
    "A kext called a symbol not present in XNU. Check OSBundleLibraries versions."),
  ("launchd died", "PID 1 exited. julius-init must never return from julius_start()."),
  ("No init process found", "Kernel could not exec /sbin/init. Check ramdisk and init= boot arg."),
  ("Root device not found", "Kernel cannot mount root filesystem. Use rd=md0 with a ramdisk."),
  ("Kernel trap at", "Hardware exception in kernel mode (GPF, invalid opcode, etc.)."),
  ("spinlock timeout",
    "A spinlock was held too long. Likely infinite loop or deadlock in driver."),
  ("stack overflow",
    "Kernel stack overflowed. Reduce recursion depth or increase stack size."),
  ("zone map exhausted",
    "Kernel memory allocator ran out of zone memory. Possible memory leak."),
  ("assertion failed",
    "A kernel assertion (assert() / KERNEL_DEBUG_CONSTANT) triggered.")]

def findKnownPanic (text : Str) : Option String :=
  (knownPanics.find? (fun (key, _) => decide (lower key.toList <:+: lower text))).map Prod.snd

/-- The variables of the line loop. -/
structure PanicLog where
  inBacktrace : Bool
  panicSummary : List String
  backtraceFrames : List (Str × Str)
  kextList : List (Str × Str)
  rawPanicText : List Str
  deriving DecidableEq, Repr

namespace PanicLog

def empty : PanicLog := ⟨false, [], [], [], []⟩

/-- `"panic(" in line.lower() or "kernel panic" in line.lower()` -/
def startsPanic (line : Str) : Bool :=
  contains (lower line) "panic(" || contains (lower line) "kernel panic"

/-- `"Backtrace" in line or "backtrace" in line` -/
def startsBacktrace (line : Str) : Bool := contains line "Backtrace" || contains line "backtrace"

/-- The frame on a line of a backtrace section. -/
def frameOf (line : Str) : Option (Str × Str) :=
  (backtraceRe (strip line)).map (fun (addr, sym) => (addr, strip sym))

/-- A panic line starts the collection of panic text and leaves the backtrace. -/
def detectPanic (log : PanicLog) (line : Str) : PanicLog :=
  if startsPanic line then
    { log with rawPanicText := log.rawPanicText ++ [line], inBacktrace := false }
  else log

def collectText (log : PanicLog) (line : Str) : PanicLog :=
  if !log.rawPanicText.isEmpty && !log.inBacktrace then
    { log with
      rawPanicText := log.rawPanicText ++ [line]
      panicSummary := log.panicSummary ++ (findKnownPanic line).toList }
  else log

/-- A line of a backtrace section. -/
def parseFrame (log : PanicLog) (line : Str) : PanicLog :=
  let log := match frameOf line with
    | some frame => { log with backtraceFrames := log.backtraceFrames ++ [frame] }
    | none => log
  let log := match kextRe line with
    | some kext => { log with kextList := log.kextList ++ [kext] }
    | none => log
  if (strip line).isEmpty && !log.backtraceFrames.isEmpty then { log with inBacktrace := false }
  else log

/-- The body of the loop. -/
def parseLine (log : PanicLog) (line : Str) : PanicLog :=
  let line := rstrip line
  let log := (log.detectPanic line).collectText line
  if startsBacktrace line then { log with inBacktrace := true }
  else if log.inBacktrace then log.parseFrame line
  else log

end PanicLog

/-- What the line loop of `parse_panic_log` leaves for the report. -/
def parsePanicLog (lines : List Str) : PanicLog := lines.foldl PanicLog.parseLine .empty

/-- A log as a sequence of backtrace sections. -/
def panicSections : Sections Str (Str × Str) where
  interrupts line := PanicLog.startsPanic (rstrip line)
  header line := PanicLog.startsBacktrace (rstrip line)
  item line := PanicLog.frameOf (rstrip line)
  blank line := (strip (rstrip line)).isEmpty

theorem blank_noFrame (line : Str) (blank : panicSections.blank line = true) :
    panicSections.item line = none := by
  have empty : strip (rstrip line) = [] := List.isEmpty_iff.mp blank
  show PanicLog.frameOf (rstrip line) = none
  unfold PanicLog.frameOf
  rw [empty]
  rfl

namespace PanicLog

variable (log : PanicLog) (line : Str)

@[simp] theorem detectPanic_frames :
    (log.detectPanic line).backtraceFrames = log.backtraceFrames := by
  unfold detectPanic
  split <;> rfl

@[simp] theorem detectPanic_inBacktrace :
    (log.detectPanic line).inBacktrace = (log.inBacktrace && !startsPanic line) := by
  unfold detectPanic
  by_cases starts : startsPanic line
  · simp [starts]
  · simp [starts]

@[simp] theorem collectText_frames :
    (log.collectText line).backtraceFrames = log.backtraceFrames := by
  unfold collectText
  split <;> rfl

@[simp] theorem collectText_inBacktrace :
    (log.collectText line).inBacktrace = log.inBacktrace := by
  unfold collectText
  split <;> rfl

theorem parseFrame_frames : (log.parseFrame line).backtraceFrames =
    log.backtraceFrames ++ (frameOf line).toList := by
  unfold parseFrame
  cases frameOf line <;> cases kextRe line <;> simp <;> split <;> rfl

theorem parseFrame_inBacktrace : (log.parseFrame line).inBacktrace =
    if (strip line).isEmpty && !(log.backtraceFrames ++ (frameOf line).toList).isEmpty then false
    else log.inBacktrace := by
  unfold parseFrame
  cases frameOf line with
  | none =>
      rw [Option.toList_none, List.append_nil]
      cases kextRe line <;> exact apply_ite inBacktrace _ _ _
  | some frame => cases kextRe line <;> exact apply_ite inBacktrace _ _ _

/-- The frames and whether a section is open. -/
def sections (log : PanicLog) : List (Str × Str) × Bool := (log.backtraceFrames, log.inBacktrace)

theorem parseLine_sections :
    (log.parseLine line).sections = panicSections.step log.sections line := by
  unfold parseLine Sections.step sections
  dsimp only
  by_cases header : startsBacktrace (rstrip line)
  · rw [if_pos header, if_pos (show panicSections.header line = true from header)]
    simp
  · rw [if_neg header, if_neg (show ¬ panicSections.header line = true from header)]
    by_cases reads : log.inBacktrace && !startsPanic (rstrip line)
    · rw [if_pos (show log.inBacktrace && !panicSections.interrupts line from reads)]
      rw [if_pos (by simpa using reads)]
      rw [parseFrame_frames, parseFrame_inBacktrace, collectText_frames, detectPanic_frames,
        collectText_inBacktrace, detectPanic_inBacktrace, reads]
      apply Prod.ext
      · rfl
      · show (if (strip (rstrip line)).isEmpty &&
            !(log.backtraceFrames ++ (frameOf (rstrip line)).toList).isEmpty then false else true) =
          !((strip (rstrip line)).isEmpty &&
            !(log.backtraceFrames ++ (frameOf (rstrip line)).toList).isEmpty)
        split
        · rename_i ends
          rw [ends]
          rfl
        · rename_i goesOn
          rw [Bool.eq_false_iff.mpr goesOn]
          rfl
    · rw [if_neg (show ¬ (log.inBacktrace && !panicSections.interrupts line) from reads)]
      rw [if_neg (by simpa using reads)]
      simp only [collectText_frames, detectPanic_frames, collectText_inBacktrace,
        detectPanic_inBacktrace]
      rw [Bool.eq_false_iff.mpr reads]

theorem parsePanicLog_sections (lines : List Str) :
    (parsePanicLog lines).sections = panicSections.read lines :=
  (List.foldl_hom sections (fun log line => (parseLine_sections log line).symm)).symm

end PanicLog

/-- Looks for the first frame of a log: whether there is one, and whether a blank line
stands between it and the header of its section. -/
def firstFrame (lines : List Str) : Option Bool := panicSections.firstItem false false lines

/-- The second report loses a frame: the blank line after its header closes the section
because the first report had a frame. -/
theorem second_report_loses : ∃ first second : List Str,
    (parsePanicLog first).inBacktrace = false ∧
      (parsePanicLog (first ++ second)).backtraceFrames ≠
        (parsePanicLog first).backtraceFrames ++ (parsePanicLog second).backtraceFrames :=
  ⟨["Backtrace:".toList, "0xffffff8000200000 : _panic".toList, []],
    ["Backtrace:".toList, [], "0xffffff8000300000 : _trap".toList],
    by decide +kernel, by decide +kernel⟩

/-- The frames of a log in two parts are those of the parts just if the first part has
none, or the first one of the second part has no blank line before it in its section. -/
theorem parsePanicLog_append (first second : List Str)
    (outside : (parsePanicLog first).inBacktrace = false) :
    (parsePanicLog (first ++ second)).backtraceFrames =
        (parsePanicLog first).backtraceFrames ++ (parsePanicLog second).backtraceFrames ↔
      firstFrame first = none ∨ firstFrame second ≠ some true := by
  have frames : ∀ lines, (parsePanicLog lines).backtraceFrames = (panicSections.read lines).1 :=
    fun lines => congrArg Prod.fst (PanicLog.parsePanicLog_sections lines)
  have closed : (panicSections.read first).2 = false :=
    (congrArg Prod.snd (PanicLog.parsePanicLog_sections first)).symm.trans outside
  rw [frames, frames, frames]
  exact panicSections.read_append blank_noFrame first second closed

/-- Two reports without blank lines after their headers. -/
theorem parsePanicLog_append_reports :
    let first := ["Backtrace:".toList, "0xffffff8000200000 : _panic+0x10".toList, []]
    let second := ["Panic(CPU 0)".toList, "Backtrace:".toList, "0xffffff8000300000 : _trap".toList]
    (parsePanicLog (first ++ second)).backtraceFrames =
      (parsePanicLog first).backtraceFrames ++ (parsePanicLog second).backtraceFrames := by
  intro first second
  have outside : (parsePanicLog first).inBacktrace = false := by decide +kernel
  exact (parsePanicLog_append first second outside).mpr (.inr (by decide +kernel))

end Julius
