import Julius.Lib.Listing
import Julius.Lib.Numeral
import Julius.Tools.PanicFrames
import Julius.Tools.PanicText
import Julius.Tools.PanicRegex

set_option autoImplicit false

/- The report of tools/panic-parse.py: how the frames get their symbols, and what is printed of
a log. -/
namespace Julius

/-- The characters that a text file is read with: a CR, an LF and a CR LF all end a line.
`behindCr` tells that the last character was a CR. -/
def newlines (behindCr : Bool) : Str → Str
  | [] => []
  | c :: rest =>
      if c = '\r' then '\n' :: newlines true rest
      else if c = '\n' ∧ behindCr then newlines false rest
      else c :: newlines false rest

def universalNewlines (s : Str) : Str := newlines false s

/-- `readlines()`: the lines of a text, each with the newline that ends it. -/
def readlines : Str → List Str
  | [] => []
  | c :: rest =>
      if c = '\n' then [c] :: readlines rest
      else match readlines rest with
        | [] => [[c]]
        | line :: lines => (c :: line) :: lines

def red : Str := "\x1b[91m".toList
def yellow : Str := "\x1b[93m".toList
def green : Str := "\x1b[92m".toList
def cyan : Str := "\x1b[96m".toList
def bold : Str := "\x1b[1m".toList
def reset : Str := "\x1b[0m".toList

/-- `tty` is what `sys.stdout.isatty()` says. -/
def colour (tty : Bool) (text code : Str) : Str := if tty then code ++ text ++ reset else text

/-- What comes of `subprocess.run`: the return code and the output, or one of the two exceptions
that are caught. -/
inductive Ran where
  | finished (returncode : Int) (stdout : Str)
  | fileNotFound
  | timeoutExpired

/-- The machine the tool runs on, asked for the frame of a number. -/
structure Host where
  pathExists : Nat → Str → Bool
  run : Nat → List Str → Ran

/-- `int(address_hex, 16)`, behind the `0x` -/
def addressValue (addressHex : Str) : Nat :=
  Numeral.decode "0123456789abcdef".toList (lower (addressHex.drop 2))

/-- `hex(addr)` -/
def hex (addr : Nat) : Str := "0x".toList ++ Nat.toDigits 16 addr

def atosCommand (symbolFile addr : Str) : List Str :=
  ["atos".toList, "-o".toList, symbolFile, "-arch".toList, "x86_64".toList, addr]

/-- What atos makes of an address: one that it does not know it prints unchanged. -/
def atosSymbol (host : Host) (i : Nat) (addr symbolFile : Str) : Option Str :=
  match host.run i (atosCommand symbolFile addr) with
  | .finished 0 stdout =>
      let sym := strip stdout
      if !sym.isEmpty && sym ≠ addr then some sym else none
  | _ => none

def llvmCommand (symbolFile addr : Str) : List Str :=
  ["llvm-symbolizer".toList, "--obj".toList, symbolFile, addr]

/-- What llvm-symbolizer makes of an address: the first line. -/
def llvmSymbol (host : Host) (i : Nat) (addr symbolFile : Str) : Option Str :=
  match host.run i (llvmCommand symbolFile addr) with
  | .finished 0 stdout =>
      if (strip stdout).isEmpty then none else some ((strip stdout).takeWhile (· ≠ '\n'))
  | _ => none

def symbolize (host : Host) (i : Nat) (addressHex symbolFile : Str) : Option Str :=
  let addr := hex (addressValue addressHex)
  atosSymbol host i addr symbolFile <|> llvmSymbol host i addr symbolFile

/-- The symbol that takes the place of the one in the log: there is a symbol file, and the
symbol found in it is not empty. -/
def resolve (host : Host) (symbolFile : Option Str) (i : Nat) (addr : Str) : Option Str := do
  let file ← symbolFile
  if !file.isEmpty && host.pathExists i file then
    (symbolize host i addr file).filter (fun resolved => !resolved.isEmpty)
  else none

namespace PanicLog

section Report

variable (tty : Bool) (host : Host) (symbolFile : Option Str)

/-- The first lines: the banner between two empty lines. -/
def banner : List Str := [
  [],
  colour tty (List.replicate 60 '═') bold,
  colour tty "  JULIUS OS — KERNEL PANIC REPORT".toList (bold ++ red),
  colour tty (List.replicate 60 '═') bold,
  []]

def messageLine (l : Str) : Str := "  ".toList ++ colour tty l red

def diagnosisLine (s : Str) : Str :=
  "  ".toList ++ colour tty "→".toList yellow ++ " ".toList ++ s

/-- `{i:<3}` -/
def leftAligned (width : Nat) (s : Str) : Str := s ++ List.replicate (width - s.length) ' '

def symStr (i : Nat) (addr sym : Str) : Str :=
  match resolve host symbolFile i addr with
  | some resolved => colour tty resolved green
  | none => sym

def frameLine (frame : (Str × Str) × Nat) : Str :=
  let ((addr, sym), i) := frame
  let frameColour := if i = 0 then cyan else reset
  "  #".toList ++ leftAligned 3 (Nat.toDigits 10 i) ++ " ".toList ++ colour tty addr frameColour ++
    "  ".toList ++ symStr tty host symbolFile i addr sym

def kextLine (kext : Str × Str) : Str :=
  let (name, base) := kext
  let tag := if contains (lower name) "julius" then colour tty "JULIUS".toList green else []
  "  ".toList ++ base ++ "  ".toList ++ name ++ "  ".toList ++ tag

/-- `• Add …` and the other fixes. -/
def fixLine (fix : Str) : Str := "  ".toList ++ colour tty "•".toList yellow ++ " ".toList ++ fix

def commonFixes : List Str := [
  "Add 'keepsyms=1' to boot args for symbol names in panics".toList,
  "Run with --debug to attach LLDB: lldb build/out/kernel.development".toList,
  "Check kprintf output above the panic for the last known-good state".toList,
  "If PID 1 died: ensure julius_start() never returns".toList]

def fixes : List Str :=
  colour tty "Common fixes:".toList bold :: commonFixes.map (fixLine tty) ++ [[]]

def framesTitle (frames : Nat) : Str :=
  "Backtrace (".toList ++ Nat.toDigits 10 frames ++ " frames):".toList

/-- The lines that are printed for a log. The first five lines of text are some just if there
is any text. -/
def report (log : PanicLog) : List Str :=
  banner tty ++
    (Listing.block (colour tty "Panic message:".toList bold) [] (messageLine tty)
        (log.rawPanicText.take 5) ++
      (Listing.block (colour tty "Diagnosis:".toList bold) [] (diagnosisLine tty)
          (log.panicSummary.map String.toList) ++
        (Listing.block (colour tty (framesTitle log.backtraceFrames.length) bold) []
            (frameLine tty host symbolFile) log.backtraceFrames.zipIdx ++
          (Listing.block (colour tty "Loaded kexts:".toList bold) [] (kextLine tty) log.kextList ++
            fixes tty))))

end Report

end PanicLog

/-- What `parse_panic_log` writes to the standard output for the text of a log. -/
def panicReport (tty : Bool) (host : Host) (symbolFile : Option Str) (text : Str) : Str :=
  Listing.printed '\n' ((parsePanicLog (readlines text)).report tty host symbolFile)

/-- The lines of a text make up the text. -/
theorem readlines_flatten (text : Str) : (readlines text).flatten = text := by
  induction text with
  | nil => rfl
  | cons c text ih =>
      rw [readlines]
      split
      · rw [List.flatten_cons, ih]
        rfl
      · split
        · rename_i none
          rw [← ih, none]
          rfl
        · rename_i line lines more
          rw [← ih, more]
          rfl

/-- A line has a newline at its end or none. -/
theorem readlines_line {text line : Str} (member : line ∈ readlines text) :
    ∃ body ending : Str, line = body ++ ending ∧ '\n' ∉ body ∧ ∀ c ∈ ending, isSpace c = true := by
  induction text generalizing line with
  | nil => cases member
  | cons c text ih =>
      rw [readlines] at member
      split at member
      · rename_i newline
        rcases List.mem_cons.mp member with rfl | later
        · refine ⟨[], [c], rfl, List.not_mem_nil, fun d inside => ?_⟩
          rw [List.mem_singleton.mp inside, newline]
          decide
        · exact ih later
      · rename_i other
        split at member
        · rw [List.mem_singleton.mp member]
          exact ⟨[c], [], rfl, fun inside => other (List.mem_singleton.mp inside).symm, nofun⟩
        · rename_i first lines more
          rcases List.mem_cons.mp member with rfl | later
          · obtain ⟨body, ending, rfl, oneLine, blank⟩ := ih (more ▸ List.mem_cons_self)
            refine ⟨c :: body, ending, rfl, fun inside => ?_, blank⟩
            rcases List.mem_cons.mp inside with same | within
            · exact other same.symm
            · exact oneLine within
          · exact ih (more ▸ List.mem_cons_of_mem _ later)

/-- The loop strips the newline of every line. -/
theorem readlines_oneLine {text line : Str} (member : line ∈ readlines text) :
    '\n' ∉ rstrip line := by
  obtain ⟨body, ending, rfl, oneLine, blank⟩ := readlines_line member
  rw [rstrip_blank blank]
  exact fun inside => oneLine ((List.rdropWhile_prefix isSpace body).subset inside)

theorem matchAddress_address {s addr rest : Str} (matched : matchAddress s = some (addr, rest)) :
    addr ≠ [] ∧ ∀ c ∈ addr, isAddressChar c = true := by
  unfold matchAddress at matched
  split at matched
  · rename_i tail
    dsimp only at matched
    split at matched
    · split at matched
      · obtain ⟨rfl, _⟩ := Prod.mk.inj (Option.some.inj matched)
        refine ⟨List.cons_ne_nil _ _, fun c member => ?_⟩
        rcases List.mem_cons.mp member with rfl | later
        · decide
        · rcases List.mem_cons.mp later with rfl | digit
          · decide
          · exact (Bool.or_eq_true _ _).mpr (Or.inl (List.mem_takeWhile_imp digit))
      · cases matched
    · cases matched
  · cases matched

/-- The address of a frame is a text of address characters. -/
theorem frameOf_address {line addr sym : Str} (found : PanicLog.frameOf line = some (addr, sym)) :
    addr ≠ [] ∧ ∀ c ∈ addr, isAddressChar c = true := by
  obtain ⟨⟨addr', captured⟩, matched, shown⟩ := Option.map_eq_some_iff.mp found
  obtain ⟨rfl, _⟩ := Prod.mk.inj shown
  obtain ⟨⟨first, rest⟩, address, further⟩ := Option.bind_eq_some_iff.mp matched
  obtain ⟨symbol, _, same⟩ := Option.bind_eq_some_iff.mp further
  obtain ⟨rfl, _⟩ := Prod.mk.inj (Option.some.inj same)
  exact matchAddress_address address

theorem kextBase_address {s base : Str} (found : kextBase s = some base) :
    base ≠ [] ∧ ∀ c ∈ base, isAddressChar c = true := by
  obtain ⟨after, _, further⟩ := Option.bind_eq_some_iff.mp found
  split at further
  · rename_i rest
    dsimp only at further
    split at further
    · cases further
    · rw [← Option.some.inj further]
      refine ⟨List.cons_ne_nil _ _, fun c member => ?_⟩
      rcases List.mem_append.mp member with mark | digit
      · exact List.all_eq_true.mp (by decide : "0x".toList.all isAddressChar = true) c mark
      · exact (Bool.or_eq_true _ _).mpr (Or.inl (List.mem_takeWhile_imp digit))
  · cases further

/-- A kext has a name of name characters and a base that is an address. -/
theorem kextRe_parts {line name base : Str} (found : kextRe line = some (name, base)) :
    (∀ c ∈ name, isKextChar c = true) ∧ base ≠ [] ∧ ∀ c ∈ base, isAddressChar c = true := by
  induction line with
  | nil => cases found
  | cons c line ih =>
      rw [kextRe] at found
      rcases Option.or_eq_some_iff.mp ((Option.orElse_eq_or ..).symm.trans found) with
        here | ⟨_, later⟩
      · unfold kextReAt at here
        split at here
        · rename_i rest whole
          have captured := (kextReAt_eq rest).symm.trans here
          split at captured
          · cases captured
          · split at captured
            · obtain ⟨base', address, same⟩ := Option.map_eq_some_iff.mp captured
              obtain ⟨rfl, rfl⟩ := Prod.mk.inj same
              refine ⟨fun d member => ?_, kextBase_address address⟩
              rcases List.mem_append.mp member with mark | named
              · exact List.all_eq_true.mp (by decide : "com.".toList.all isKextChar = true) d mark
              · exact List.mem_takeWhile_imp named
            · cases captured
        · cases here
      · exact ih later

namespace PanicLog

/-- All texts of a log are made of characters with a property, and its addresses and names as
the patterns have them. -/
structure Made (property : Char → Prop) (log : PanicLog) : Prop where
  text : ∀ l ∈ log.rawPanicText, ∀ c ∈ l, property c
  summary : ∀ s ∈ log.panicSummary, s ∈ knownPanics.map Prod.snd
  addrs : ∀ frame ∈ log.backtraceFrames, frame.1 ≠ [] ∧ ∀ c ∈ frame.1, isAddressChar c = true
  syms : ∀ frame ∈ log.backtraceFrames, ∀ c ∈ frame.2, property c
  names : ∀ kext ∈ log.kextList, ∀ c ∈ kext.1, isKextChar c = true
  bases : ∀ kext ∈ log.kextList, kext.2 ≠ [] ∧ ∀ c ∈ kext.2, isAddressChar c = true

variable {property : Char → Prop} {log : PanicLog} {line : Str}

theorem findKnownPanic_known {text : Str} {explanation : String}
    (found : findKnownPanic text = some explanation) : explanation ∈ knownPanics.map Prod.snd := by
  obtain ⟨entry, known, rfl⟩ := Option.map_eq_some_iff.mp found
  exact List.mem_map_of_mem (List.mem_of_find?_eq_some known)

theorem parseFrame_kexts (log : PanicLog) (line : Str) :
    (log.parseFrame line).kextList = log.kextList ++ (kextRe line).toList := by
  unfold PanicLog.parseFrame
  cases frameOf line <;> cases kextRe line <;> simp <;> split <;> rfl

theorem Made.parseFrame (made : log.Made property) (plain : ∀ c ∈ line, property c) :
    (log.parseFrame line).Made property := by
  obtain ⟨text, summary⟩ := log.parseFrame_texts line
  have framed : ∀ frame ∈ (log.parseFrame line).backtraceFrames,
      frame ∈ log.backtraceFrames ∨ frameOf line = some frame := by
    intro frame member
    rw [log.parseFrame_frames line] at member
    exact (List.mem_append.mp member).imp_right Option.mem_toList.mp
  have loaded : ∀ kext ∈ (log.parseFrame line).kextList,
      kext ∈ log.kextList ∨ kextRe line = some kext := by
    intro kext member
    rw [log.parseFrame_kexts line] at member
    exact (List.mem_append.mp member).imp_right Option.mem_toList.mp
  refine ⟨text ▸ made.text, summary ▸ made.summary, ?_, ?_, ?_, ?_⟩
  · intro frame member
    exact (framed frame member).elim (made.addrs frame) frameOf_address
  · intro frame member
    rcases framed frame member with old | found
    · exact made.syms frame old
    · exact fun c inside => plain c ((frameOf_within found).subset inside)
  · intro kext member
    exact (loaded kext member).elim (made.names kext) (fun found => (kextRe_parts found).1)
  · intro kext member
    exact (loaded kext member).elim (made.bases kext) (fun found => (kextRe_parts found).2)

theorem Made.parseLine (made : log.Made property) (plain : ∀ c ∈ rstrip line, property c) :
    (log.parseLine line).Made property := by
  have detected : (log.detectPanic (rstrip line)).Made property := by
    unfold detectPanic
    split
    · refine { made with text := fun l member => ?_ }
      rcases List.mem_append.mp member with old | new
      · exact made.text l old
      · exact List.mem_singleton.mp new ▸ plain
    · exact made
  have collected : ((log.detectPanic (rstrip line)).collectText (rstrip line)).Made property := by
    unfold collectText
    split
    · refine { detected with text := fun l member => ?_, summary := fun s member => ?_ }
      · rcases List.mem_append.mp member with old | new
        · exact detected.text l old
        · exact List.mem_singleton.mp new ▸ plain
      · rcases List.mem_append.mp member with old | new
        · exact detected.summary s old
        · exact findKnownPanic_known (Option.mem_toList.mp new)
    · exact detected
  unfold PanicLog.parseLine
  dsimp only
  split
  · exact { collected with }
  · split
    · exact collected.parseFrame plain
    · exact collected

theorem Made.parsePanicLog {lines : List Str}
    (plain : ∀ line ∈ lines, ∀ c ∈ rstrip line, property c) :
    (parsePanicLog lines).Made property := by
  have run : ∀ (lines : List Str) (log : PanicLog), log.Made property →
      (∀ line ∈ lines, ∀ c ∈ rstrip line, property c) →
      (lines.foldl PanicLog.parseLine log).Made property := by
    intro lines
    induction lines with
    | nil => exact fun log made _ => made
    | cons line lines ih =>
        intro log made plain
        exact ih (log.parseLine line) (made.parseLine (plain line List.mem_cons_self))
          (fun line member => plain line (List.mem_cons_of_mem _ member))
  exact run lines .empty ⟨nofun, nofun, nofun, nofun, nofun, nofun⟩ plain

end PanicLog

end Julius
