import Julius.Tools.PanicReport

set_option autoImplicit false

/- The report of tools/panic-parse.py can be read back to what it shows of the log, and its
colours hide nothing. -/
namespace Julius

/-- What a report shows of a log. -/
structure Shown where
  message : List Str
  diagnosis : List Str
  frames : List (Str × Str)
  kexts : List (Str × Str)
  deriving DecidableEq

/-- A frame with the symbol it is shown with. -/
def shownFrame (host : Host) (symbolFile : Option Str) (frame : (Str × Str) × Nat) : Str × Str :=
  (frame.1.1, (resolve host symbolFile frame.2 frame.1.1).getD frame.1.2)

/-- The first five lines of the text, and all the rest. -/
def shownOf (host : Host) (symbolFile : Option Str) (log : PanicLog) : Shown where
  message := log.rawPanicText.take 5
  diagnosis := log.panicSummary.map String.toList
  frames := log.backtraceFrames.zipIdx.map (shownFrame host symbolFile)
  kexts := log.kextList

section Reading

/-- What stands behind a mark at the start of a line. -/
def behind (mark s : Str) : Option Str := if mark <+: s then some (s.drop mark.length) else none

def isBlank (c : Char) : Bool := c = ' '

/-- The first word of a line and what is behind it. -/
def firstWord (s : Str) : Str × Str := s.span (fun c => !isBlank c)

/-- A frame, from behind its number on. -/
def readFrame (l : Str) : Option (Str × Str) := do
  let numbered ← behind "  #".toList l
  let (addr, rest) := firstWord ((numbered.dropWhile Char.isDigit).dropWhile isBlank)
  let sym ← behind "  ".toList rest
  return (addr, sym)

def readKext (l : Str) : Option (Str × Str) := do
  let (base, rest) := firstWord (← behind "  ".toList l)
  let (name, _) := firstWord (← behind "  ".toList rest)
  return (name, base)

def messageReader : Listing.Reader Str Str where
  title l := l = "Panic message:".toList
  stop := List.isEmpty
  item := behind "  ".toList

def diagnosisReader : Listing.Reader Str Str where
  title l := l = "Diagnosis:".toList
  stop := List.isEmpty
  item := behind "  → ".toList

def frameReader : Listing.Reader Str (Str × Str) where
  title l := "Backtrace (".toList.isPrefixOf l
  stop := List.isEmpty
  item := readFrame

def kextReader : Listing.Reader Str (Str × Str) where
  title l := l = "Loaded kexts:".toList
  stop := List.isEmpty
  item := readKext

/-- Reads a report without colours: its blocks, behind the banner. -/
def readReport (report : Str) : Option Shown := do
  let (message, rest) ← messageReader.read ((report.splitOn '\n').drop 5)
  let (diagnosis, rest) ← diagnosisReader.read rest
  let (frames, rest) ← frameReader.read rest
  let (kexts, _) ← kextReader.read rest
  return { message, diagnosis, frames, kexts }

end Reading

@[simp] theorem colour_plain (text code : Str) : colour false text code = text := rfl

@[simp] theorem behind_append (mark s : Str) : behind mark (mark ++ s) = some s := by
  rw [behind, if_pos (List.prefix_append mark s), List.drop_left]

theorem firstWord_append {word rest : Str} (noBlank : ∀ c ∈ word, isBlank c = false) :
    firstWord (word ++ ' ' :: rest) = (word, ' ' :: rest) := by
  have whole : ∀ c ∈ word, (!isBlank c) = true := fun c member => by rw [noBlank c member]; rfl
  rw [firstWord, List.span_eq_takeWhile_dropWhile, List.takeWhile_append_of_pos whole,
    List.dropWhile_append_of_pos whole]
  exact Prod.ext (List.append_nil word) rfl

theorem isAddressChar_notSpace {c : Char} (address : isAddressChar c = true) :
    isSpace c = false := by
  rcases (Bool.or_eq_true _ _).mp address with digit | letter
  · exact Bool.eq_false_iff.mpr (isHexDigit_notSpace digit)
  · rw [of_decide_eq_true letter]
    decide

theorem isBlank_visible {c : Char} (visible : isSpace c = false) : isBlank c = false :=
  decide_eq_false (fun blank => by rw [blank] at visible; cases visible)

theorem leftAligned_digits (width i : Nat) {rest : Str} :
    (PanicLog.leftAligned width (Nat.toDigits 10 i) ++ ' ' :: rest).dropWhile Char.isDigit =
      List.replicate (width - (Nat.toDigits 10 i).length) ' ' ++ ' ' :: rest := by
  have digits : ∀ c ∈ Nat.toDigits 10 i, c.isDigit = true :=
    fun c member => Nat.isDigit_of_mem_toDigits (by decide) (by decide) member
  rw [PanicLog.leftAligned, List.append_assoc, List.dropWhile_append_of_pos digits]
  cases width - (Nat.toDigits 10 i).length with
  | zero => rfl
  | succ n => rfl

theorem frameLine_plain (host : Host) (symbolFile : Option Str) (addr sym : Str) (i : Nat) :
    PanicLog.frameLine false host symbolFile ((addr, sym), i) =
      "  #".toList ++ PanicLog.leftAligned 3 (Nat.toDigits 10 i) ++ " ".toList ++ addr ++
        "  ".toList ++ PanicLog.symStr false host symbolFile i addr sym := rfl

theorem kextLine_plain (name base : Str) : PanicLog.kextLine false (name, base) =
    "  ".toList ++ base ++ "  ".toList ++ name ++ "  ".toList ++
      (if contains (lower name) "julius" then "JULIUS".toList else []) := rfl

/-- A frame line is read back to the address and the symbol it shows. -/
theorem readFrame_frameLine (host : Host) (symbolFile : Option Str) {addr sym : Str} {i : Nat}
    (filled : addr ≠ []) (address : ∀ c ∈ addr, isAddressChar c = true) :
    readFrame (PanicLog.frameLine false host symbolFile ((addr, sym), i)) =
      some (shownFrame host symbolFile ((addr, sym), i)) := by
  have noBlank : ∀ c ∈ addr, isBlank c = false :=
    fun c member => isBlank_visible (isAddressChar_notSpace (address c member))
  have shown : PanicLog.symStr false host symbolFile i addr sym =
      (resolve host symbolFile i addr).getD sym := by
    rw [PanicLog.symStr]
    cases resolve host symbolFile i addr <;> rfl
  have line : PanicLog.frameLine false host symbolFile ((addr, sym), i) =
      "  #".toList ++ (PanicLog.leftAligned 3 (Nat.toDigits 10 i) ++
        ' ' :: (addr ++ ' ' :: ' ' :: (resolve host symbolFile i addr).getD sym)) := by
    rw [frameLine_plain, shown]
    repeat rw [List.append_assoc]
    rfl
  have started : ((List.replicate (3 - (Nat.toDigits 10 i).length) ' ' ++ ' ' ::
      (addr ++ ' ' :: ' ' :: (resolve host symbolFile i addr).getD sym)).dropWhile isBlank) =
      addr ++ ' ' :: ' ' :: (resolve host symbolFile i addr).getD sym := by
    have blanks : ∀ c ∈ List.replicate (3 - (Nat.toDigits 10 i).length) ' ', isBlank c = true :=
      fun c member => by rw [List.eq_of_mem_replicate member]; rfl
    rw [List.dropWhile_append_of_pos blanks, List.dropWhile_cons_of_pos rfl]
    obtain ⟨first, rest, rfl⟩ := List.exists_cons_of_ne_nil filled
    rw [List.cons_append, List.dropWhile_cons_of_neg]
    rw [noBlank first List.mem_cons_self]
    exact Bool.false_ne_true
  rw [readFrame, line, behind_append]
  show (do
    let (addr, rest) := firstWord (((PanicLog.leftAligned 3 (Nat.toDigits 10 i) ++ ' ' :: (addr ++
      ' ' :: ' ' :: (resolve host symbolFile i addr).getD sym)).dropWhile Char.isDigit).dropWhile
        isBlank)
    let sym ← behind "  ".toList rest
    return (addr, sym)) = _
  rw [leftAligned_digits, started, firstWord_append noBlank]
  show (behind "  ".toList ("  ".toList ++ _)).bind _ = _
  rw [behind_append]
  rfl

theorem readKext_kextLine {name base : Str} (named : ∀ c ∈ name, isKextChar c = true)
    (address : ∀ c ∈ base, isAddressChar c = true) :
    readKext (PanicLog.kextLine false (name, base)) = some (name, base) := by
  have nameWhole : ∀ c ∈ name, isBlank c = false := fun c member =>
    isBlank_visible (Bool.eq_false_iff.mpr (isKextChar_notSpace (named c member)))
  have baseWhole : ∀ c ∈ base, isBlank c = false :=
    fun c member => isBlank_visible (isAddressChar_notSpace (address c member))
  obtain ⟨tag, line⟩ : ∃ tag, PanicLog.kextLine false (name, base) =
      "  ".toList ++ (base ++ ' ' :: ' ' :: (name ++ ' ' :: ' ' :: tag)) := by
    refine ⟨if contains (lower name) "julius" then "JULIUS".toList else [], ?_⟩
    rw [kextLine_plain]
    repeat rw [List.append_assoc]
    rfl
  rw [readKext, line, behind_append]
  show (do
    let (base, rest) := firstWord (base ++ ' ' :: ' ' :: (name ++ ' ' :: ' ' :: tag))
    let (name, _) := firstWord (← behind "  ".toList rest)
    return (name, base)) = _
  rw [firstWord_append baseWhole]
  show (behind "  ".toList ("  ".toList ++ _)).bind _ = _
  rw [behind_append]
  show some ((firstWord (name ++ ' ' :: ' ' :: tag)).1, base) = _
  rw [firstWord_append nameWhole]

/-- atos prints one line for an address. -/
def Host.OneLine (host : Host) : Prop :=
  ∀ i file addr returncode stdout,
    host.run i (atosCommand file addr) = .finished returncode stdout → '\n' ∉ strip stdout

/-- A symbol is what atos printed, or the first line of llvm-symbolizer. -/
theorem resolve_printed {host : Host} {symbolFile : Option Str} {i : Nat} {addr resolved : Str}
    (found : resolve host symbolFile i addr = some resolved) :
    ∃ file hexAddr stdout,
      (host.run i (atosCommand file hexAddr) = .finished 0 stdout ∧ resolved = strip stdout) ∨
      (host.run i (llvmCommand file hexAddr) = .finished 0 stdout ∧
        resolved = (strip stdout).takeWhile (· ≠ '\n')) := by
  obtain ⟨file, _, inFile⟩ := Option.bind_eq_some_iff.mp found
  split at inFile
  · have symbol := (Option.filter_eq_some_iff.mp inFile).1
    rcases Option.or_eq_some_iff.mp ((Option.orElse_eq_or ..).symm.trans symbol) with
      atos | ⟨_, llvm⟩
    · unfold atosSymbol at atos
      split at atos
      · rename_i stdout ran
        dsimp only at atos
        split at atos
        · exact ⟨file, _, stdout, Or.inl ⟨ran, (Option.some.inj atos).symm⟩⟩
        · cases atos
      · cases atos
    · unfold llvmSymbol at llvm
      split at llvm
      · rename_i stdout ran
        split at llvm
        · cases llvm
        · exact ⟨file, _, stdout, Or.inr ⟨ran, (Option.some.inj llvm).symm⟩⟩
      · cases llvm
  · cases inFile

theorem resolve_oneLine {host : Host} (oneLine : host.OneLine) {symbolFile : Option Str} {i : Nat}
    {addr resolved : Str} (found : resolve host symbolFile i addr = some resolved) :
    '\n' ∉ resolved := by
  obtain ⟨file, hexAddr, stdout, ⟨ran, rfl⟩ | ⟨ran, rfl⟩⟩ := resolve_printed found
  · exact oneLine i file hexAddr 0 stdout ran
  · exact fun inside => absurd (List.mem_takeWhile_imp inside) (by decide)

theorem knownPanics_plain : ∀ s ∈ knownPanics.map Prod.snd, ∀ c ∈ s.toList,
    c ≠ '\n' ∧ c ≠ '\x1b' := by
  have table : (knownPanics.map Prod.snd).all
      (fun s => s.toList.all (fun c => c ≠ '\n' && c ≠ '\x1b')) = true := by
    unfold knownPanics
    simp only [List.map_cons, List.map_nil, List.all_cons, List.all_nil]
    repeat rw [String.toList_ofList]
    decide +kernel
  intro s member c inside
  have plain := List.all_eq_true.mp (List.all_eq_true.mp table s member) c inside
  exact ⟨of_decide_eq_true ((Bool.and_eq_true _ _).mp plain).1,
    of_decide_eq_true ((Bool.and_eq_true _ _).mp plain).2⟩

namespace PanicLog

variable {host : Host} {symbolFile : Option Str} {log : PanicLog}

/-- The lines of a report behind the banner are those of its blocks. -/
theorem drop_banner (rest : List Str) : (banner false ++ rest).drop 5 = rest := rfl

variable {rest : List Str}

theorem read_messages {texts : List Str} (other : ∀ l ∈ rest.head?, messageReader.title l = false) :
    messageReader.read
        (Listing.block "Panic message:".toList [] (messageLine false) texts ++ rest) =
      some (texts, rest) := by
  have reads : ∀ l ∈ texts, messageReader.Reads (messageLine false) id l :=
    fun l _ => ⟨rfl, behind_append "  ".toList l⟩
  rw [messageReader.read_block (decide_eq_true rfl) rfl reads other, List.map_id]

theorem read_diagnoses {explanations : List Str}
    (other : ∀ l ∈ rest.head?, diagnosisReader.title l = false) :
    diagnosisReader.read
        (Listing.block "Diagnosis:".toList [] (diagnosisLine false) explanations ++ rest) =
      some (explanations, rest) := by
  have reads : ∀ s ∈ explanations, diagnosisReader.Reads (diagnosisLine false) id s :=
    fun s _ => ⟨rfl, behind_append "  → ".toList s⟩
  rw [diagnosisReader.read_block (decide_eq_true rfl) rfl reads other, List.map_id]

theorem read_frames {frames : List ((Str × Str) × Nat)} {n : Nat}
    (addrs : ∀ frame ∈ frames, frame.1.1 ≠ [] ∧ ∀ c ∈ frame.1.1, isAddressChar c = true)
    (other : ∀ l ∈ rest.head?, frameReader.title l = false) :
    frameReader.read
        (Listing.block (framesTitle n) [] (frameLine false host symbolFile) frames ++ rest) =
      some (frames.map (shownFrame host symbolFile), rest) := by
  have titled : frameReader.title (framesTitle n) = true :=
    List.isPrefixOf_iff_prefix.mpr ⟨Nat.toDigits 10 n ++ " frames):".toList, rfl⟩
  have reads : ∀ frame ∈ frames,
      frameReader.Reads (frameLine false host symbolFile) (shownFrame host symbolFile) frame :=
    fun frame member => ⟨rfl, readFrame_frameLine host symbolFile (addrs frame member).1
      (addrs frame member).2⟩
  exact frameReader.read_block titled rfl reads other

theorem read_kexts {kexts : List (Str × Str)} (names : ∀ kext ∈ kexts, ∀ c ∈ kext.1, isKextChar c)
    (bases : ∀ kext ∈ kexts, kext.2 ≠ [] ∧ ∀ c ∈ kext.2, isAddressChar c = true)
    (other : ∀ l ∈ rest.head?, kextReader.title l = false) :
    kextReader.read (Listing.block "Loaded kexts:".toList [] (kextLine false) kexts ++ rest) =
      some (kexts, rest) := by
  have reads : ∀ kext ∈ kexts, kextReader.Reads (kextLine false) id kext :=
    fun kext member => ⟨rfl, readKext_kextLine (names kext member) (bases kext member).2⟩
  rw [kextReader.read_block (decide_eq_true rfl) rfl reads other, List.map_id]

theorem other_fixes {seen : Type} {R : Listing.Reader Str seen}
    (differs : R.title "Common fixes:".toList = false) :
    ∀ l ∈ (fixes false ++ [[]]).head?, R.title l = false :=
  fun _ first => Option.some.inj first ▸ differs

/-- No line of a report has a newline in it. -/
theorem report_oneLine (oneLine : host.OneLine) (made : log.Made (· ≠ '\n')) :
    ∀ l ∈ log.report false host symbolFile, '\n' ∉ l := by
  have free : ∀ {s : Str}, (∀ c ∈ s, isSpace c = false) → '\n' ∉ s :=
    fun visible inside => absurd (visible '\n' inside) (by decide)
  have numeral : ∀ n, '\n' ∉ Nat.toDigits 10 n := fun n inside =>
    absurd (Nat.isDigit_of_mem_toDigits (by decide) (by decide) inside) (by decide)
  intro l member
  rw [report] at member
  simp only [List.mem_append, colour_plain] at member
  rcases member with first | message | diagnosis | frame | kext | last
  · have table : (banner false).all (fun l => '\n' ∉ l) = true := by decide +kernel
    exact of_decide_eq_true (List.all_eq_true.mp table l first)
  · rcases Listing.mem_block message with rfl | rfl | ⟨line, among, rfl⟩
    · decide
    · exact List.not_mem_nil
    · have plain := made.text line (List.take_subset 5 _ among)
      rw [messageLine, colour_plain, List.mem_append]
      exact not_or.mpr ⟨by decide, fun inside => plain _ inside rfl⟩
  · rcases Listing.mem_block diagnosis with rfl | rfl | ⟨explanation, among, rfl⟩
    · decide
    · exact List.not_mem_nil
    · obtain ⟨s, known, rfl⟩ := List.mem_map.mp among
      rw [diagnosisLine, colour_plain, List.mem_append]
      exact not_or.mpr ⟨by decide,
        fun inside => (knownPanics_plain s (made.summary s known) _ inside).1 rfl⟩
  · rcases Listing.mem_block frame with rfl | rfl | ⟨⟨⟨addr, sym⟩, i⟩, among, rfl⟩
    · exact List.not_mem_append (List.not_mem_append (by decide) (numeral _)) (by decide)
    · exact List.not_mem_nil
    · have member := List.fst_mem_of_mem_zipIdx among
      have index : '\n' ∉ leftAligned 3 (Nat.toDigits 10 i) :=
        List.not_mem_append (numeral i)
          (fun blank => absurd (List.eq_of_mem_replicate blank) (by decide))
      have shown : '\n' ∉ symStr false host symbolFile i addr sym := by
        unfold symStr
        split
        · rename_i resolved found
          exact resolve_oneLine oneLine found
        · exact fun inside => made.syms _ member _ inside rfl
      have address := free (fun c inside =>
        isAddressChar_notSpace ((made.addrs _ member).2 c inside))
      rw [frameLine_plain]
      exact List.not_mem_append (List.not_mem_append (List.not_mem_append (List.not_mem_append
        (List.not_mem_append (by decide) index) (by decide)) address) (by decide)) shown
  · rcases Listing.mem_block kext with rfl | rfl | ⟨⟨name, base⟩, among, rfl⟩
    · decide
    · exact List.not_mem_nil
    · have based := free (fun c inside => isAddressChar_notSpace ((made.bases _ among).2 c inside))
      have named := free (fun c inside =>
        Bool.eq_false_iff.mpr (isKextChar_notSpace (made.names _ among c inside)))
      have tag : '\n' ∉ if contains (lower name) "julius" then "JULIUS".toList else [] := by
        split
        · decide
        · exact List.not_mem_nil
      rw [kextLine_plain]
      exact List.not_mem_append (List.not_mem_append (List.not_mem_append (List.not_mem_append
        (List.not_mem_append (by decide) based) (by decide)) named) (by decide)) tag
  · have table : (fixes false).all (fun l => '\n' ∉ l) = true := by
      simp only [fixes, commonFixes, fixLine, colour_plain, List.map_cons, List.map_nil]
      repeat rw [String.toList_ofList]
      decide +kernel
    exact of_decide_eq_true (List.all_eq_true.mp table l last)

/-- What is printed of a log, without colours, can be read back. -/
theorem readReport_printed (oneLine : host.OneLine) (made : log.Made (· ≠ '\n')) :
    readReport (Listing.printed '\n' (log.report false host symbolFile)) =
      some (shownOf host symbolFile log) := by
  have addrs : ∀ frame ∈ log.backtraceFrames.zipIdx, frame.1.1 ≠ [] ∧
      ∀ c ∈ frame.1.1, isAddressChar c = true :=
    fun frame member => made.addrs frame.1 (List.fst_mem_of_mem_zipIdx member)
  unfold readReport
  rw [Listing.splitOn_printed (report_oneLine oneLine made), report]
  simp only [List.append_assoc, colour_plain, drop_banner]
  have framesTitle_ne : ∀ {s : Str}, s.head? ≠ some 'B' →
      framesTitle log.backtraceFrames.length ≠ s := by
    rintro s differs rfl
    exact differs rfl
  rw [read_messages (messageReader.other_block (by decide) (messageReader.other_block
    (decide_eq_false (framesTitle_ne (by decide))) (messageReader.other_block (by decide)
      (other_fixes (by decide))))), Option.bind_eq_bind, Option.bind_some]
  dsimp only
  rw [read_diagnoses (diagnosisReader.other_block
    (decide_eq_false (framesTitle_ne (by decide))) (diagnosisReader.other_block (by decide)
      (other_fixes (by decide)))), Option.bind_eq_bind, Option.bind_some]
  dsimp only
  rw [read_frames addrs (frameReader.other_block (by decide) (other_fixes (by decide))),
    Option.bind_some]
  dsimp only
  rw [read_kexts made.names made.bases (other_fixes (by decide)), Option.bind_some]
  rfl

theorem parsePanicLog_made (text : Str) : (parsePanicLog (readlines text)).Made (· ≠ '\n') := by
  apply Made.parsePanicLog
  intro line member c inside newline
  exact readlines_oneLine member (newline ▸ inside)

end PanicLog

/-- The report of every log, without colours, can be read back: the text, the diagnosis, the
frames with their symbols and the kexts. -/
theorem readReport_panicReport (host : Host) (symbolFile : Option Str) (text : Str)
    (oneLine : host.OneLine) :
    readReport (panicReport false host symbolFile text) =
      some (shownOf host symbolFile (parsePanicLog (readlines text))) :=
  PanicLog.readReport_printed oneLine (PanicLog.parsePanicLog_made text)

theorem mem_toDigits_hex {n : Nat} {c : Char} (digit : c ∈ Nat.toDigits 16 n) :
    c ∈ "0123456789abcdef".toList := by
  have small : ∀ m < 16, m.digitChar ∈ "0123456789abcdef".toList := by decide
  induction n using Nat.strongRecOn with
  | ind n ih =>
      rw [Nat.toDigits_eq_if (by decide)] at digit
      split at digit
      · rename_i below
        rw [List.mem_singleton.mp digit]
        exact small n below
      · rename_i more
        rcases List.mem_append.mp digit with high | low
        · exact ih (n / 16) (Nat.div_lt_self (by omega) (by decide)) high
        · rw [List.mem_singleton.mp low]
          exact small _ (Nat.mod_lt n (by decide))

/-- An address is printed in hexadecimal digits and an `x`. -/
theorem mem_hex {n : Nat} {c : Char} (printed : c ∈ hex n) : c ∈ "0123456789abcdefx".toList := by
  rcases List.mem_append.mp printed with front | digit
  · exact (by decide : "0x".toList ⊆ "0123456789abcdefx".toList) front
  · exact List.mem_append_left "x".toList (mem_toDigits_hex digit)

/-- A machine whose atos knows one address, and prints any other as it is; llvm-symbolizer is
not there. -/
def firstSymbolHost : Host where
  pathExists _ _ := true
  run _ command :=
    let addr := command.getLastD []
    if command.head? = some "atos".toList then
      .finished 0 (if addr = "0xffffff8000200000".toList then "_panic (in kernel)\n".toList
        else hex (addressValue addr) ++ ['\n'])
    else .fileNotFound

theorem firstSymbolHost_printed {i : Nat} {command : List Str} {returncode : Int} {stdout : Str}
    (ran : firstSymbolHost.run i command = .finished returncode stdout) :
    stdout = "_panic (in kernel)\n".toList ∨ ∃ n, stdout = hex n ++ ['\n'] := by
  unfold firstSymbolHost at ran
  dsimp only at ran
  split at ran
  · obtain ⟨_, rfl⟩ := Ran.finished.inj ran
    split
    · exact Or.inl rfl
    · exact Or.inr ⟨_, rfl⟩
  · cases ran

theorem firstSymbolHost_oneLine : firstSymbolHost.OneLine := by
  intro i file addr returncode stdout ran
  rcases firstSymbolHost_printed ran with rfl | ⟨n, rfl⟩
  · decide
  · intro newline
    have blank : ∀ c ∈ ['\n'], isSpace c = true := List.all_eq_true.mp (by decide)
    have front : strip (hex n ++ ['\n']) = rstrip (hex n ++ ['\n']) := rfl
    rw [front, rstrip_blank blank] at newline
    have inside : '\n' ∈ hex n := (List.rdropWhile_prefix isSpace (hex n)).subset newline
    exact absurd (mem_hex inside) (by decide)

theorem readReport_panicReport_two :
    readReport (panicReport false firstSymbolHost (some "kernel".toList)
        "panic(cpu 0)\nBacktrace:\n0xffffff8000200000 : _p\n0xffffff8000200010 : _q+0x1\n".toList) =
      some {
        message := ["panic(cpu 0)".toList, "panic(cpu 0)".toList, "Backtrace:".toList]
        diagnosis := []
        frames := [("0xffffff8000200000".toList, "_panic (in kernel)".toList),
          ("0xffffff8000200010".toList, "_q".toList)]
        kexts := [] } := by
  rw [readReport_panicReport firstSymbolHost _ _ firstSymbolHost_oneLine]
  decide +kernel

section Colours

/-- The sequences that set a colour: from the escape character to an `m`. -/
def ansi : Listing.Escapes Char where
  begins := '\x1b'
  ends := 'm'

/-- No subprocess writes an escape character. -/
def Host.NoEscape (host : Host) : Prop :=
  ∀ i command returncode stdout,
    host.run i command = .finished returncode stdout → '\x1b' ∉ stdout

theorem resolve_noEscape {host : Host} (noEscape : host.NoEscape) {symbolFile : Option Str}
    {i : Nat} {addr resolved : Str} (found : resolve host symbolFile i addr = some resolved) :
    '\x1b' ∉ resolved := by
  obtain ⟨file, hexAddr, stdout, ⟨ran, rfl⟩ | ⟨ran, rfl⟩⟩ := resolve_printed found
  · exact fun inside => noEscape i _ 0 stdout ran ((strip_within stdout).subset inside)
  · exact fun inside => noEscape i _ 0 stdout ran
      ((strip_within stdout).subset ((List.takeWhile_prefix _).subset inside))

theorem ansi_code {code : Str} (number : Str) (goesOn : 'm' ∉ number)
    (written : code = '\x1b' :: number ++ ['m']) : ansi.Shows code [] :=
  written ▸ Listing.Escapes.shows_sequence (fun c inside same =>
    goesOn ((show c = 'm' from same) ▸ inside))

theorem ansi_free {text : Str} (free : '\x1b' ∉ text) : ansi.Shows text text :=
  Listing.Escapes.shows_free (fun c member same => free ((show c = '\x1b' from same) ▸ member))

theorem ansi_colours : ansi.Shows red [] ∧ ansi.Shows yellow [] ∧ ansi.Shows green [] ∧
    ansi.Shows cyan [] ∧ ansi.Shows bold [] ∧ ansi.Shows reset [] :=
  ⟨ansi_code "[91".toList (by decide) rfl, ansi_code "[93".toList (by decide) rfl,
    ansi_code "[92".toList (by decide) rfl, ansi_code "[96".toList (by decide) rfl,
    ansi_code "[1".toList (by decide) rfl, ansi_code "[0".toList (by decide) rfl⟩

/-- A coloured text shows the text. -/
theorem colour_shows {text code : Str} (free : '\x1b' ∉ text) (coded : ansi.Shows code []) :
    ansi.Shows (colour true text code) (colour false text code) := by
  have shown := (coded.append (ansi_free free)).append ansi_colours.2.2.2.2.2
  rwa [List.nil_append, List.append_nil] at shown

namespace PanicLog

variable {host : Host} {symbolFile : Option Str} {log : PanicLog}

theorem banner_shows : List.Forall₂ ansi.Shows (banner true) (banner false) := by
  obtain ⟨red, _, _, _, bold, _⟩ := ansi_colours
  have plain : '\x1b' ∉ List.replicate 60 '═' :=
    fun inside => absurd (List.eq_of_mem_replicate inside) (by decide)
  have rule := colour_shows plain bold
  exact .cons (ansi_free List.not_mem_nil) (.cons rule
    (.cons (colour_shows (by decide) (bold.append red)) (.cons rule
      (.cons (ansi_free List.not_mem_nil) .nil))))

/-- What stands behind a coloured mark. -/
theorem marked_shows {mark rest : Str} (free : '\x1b' ∉ mark) (plain : '\x1b' ∉ rest) :
    ansi.Shows ("  ".toList ++ colour true mark yellow ++ " ".toList ++ rest)
      ("  ".toList ++ colour false mark yellow ++ " ".toList ++ rest) :=
  (((ansi_free (by decide)).append (colour_shows free ansi_colours.2.1)).append
    (ansi_free (by decide))).append (ansi_free plain)

theorem frameLine_shows (noEscape : host.NoEscape) {addr sym : Str} (i : Nat)
    (address : ∀ c ∈ addr, isAddressChar c = true) (plain : '\x1b' ∉ sym) :
    ansi.Shows (frameLine true host symbolFile ((addr, sym), i))
      (frameLine false host symbolFile ((addr, sym), i)) := by
  obtain ⟨_, _, green, cyan, _, reset⟩ := ansi_colours
  have index : '\x1b' ∉ leftAligned 3 (Nat.toDigits 10 i) := by
    refine List.not_mem_append (fun digit => ?_) (fun blank => ?_)
    · exact absurd (Nat.isDigit_of_mem_toDigits (by decide) (by decide) digit) (by decide)
    · exact absurd (List.eq_of_mem_replicate blank) (by decide)
  have free : '\x1b' ∉ addr := fun inside => absurd (address _ inside) (by decide)
  have coded : ansi.Shows (if i = 0 then Julius.cyan else Julius.reset) [] := by
    split
    · exact cyan
    · exact reset
  have symbol : ansi.Shows (symStr true host symbolFile i addr sym)
      (symStr false host symbolFile i addr sym) := by
    unfold symStr
    split
    · rename_i resolved found
      exact colour_shows (resolve_noEscape noEscape found) green
    · exact ansi_free plain
  exact (((((ansi_free (by decide)).append (ansi_free index)).append (ansi_free (by decide))).append
    (colour_shows free coded)).append (ansi_free (by decide))).append symbol

theorem kextLine_shows {name base : Str} (named : ∀ c ∈ name, isKextChar c = true)
    (address : ∀ c ∈ base, isAddressChar c = true) :
    ansi.Shows (kextLine true (name, base)) (kextLine false (name, base)) := by
  have based : '\x1b' ∉ base := fun inside => absurd (address _ inside) (by decide)
  have free : '\x1b' ∉ name := fun inside => absurd (named _ inside) (by decide)
  have tag : ansi.Shows
      (if contains (lower name) "julius" then colour true "JULIUS".toList green else [])
      (if contains (lower name) "julius" then colour false "JULIUS".toList green else []) := by
    split
    · exact colour_shows (by decide) ansi_colours.2.2.1
    · exact ansi_free List.not_mem_nil
  exact (((((ansi_free (by decide)).append (ansi_free based)).append (ansi_free (by decide))).append
    (ansi_free free)).append (ansi_free (by decide))).append tag

theorem fixes_shows : List.Forall₂ ansi.Shows (fixes true) (fixes false) := by
  have table : commonFixes.all (fun fix => '\x1b' ∉ fix) = true := by
    unfold commonFixes
    repeat rw [String.toList_ofList]
    decide +kernel
  have lines : List.Forall₂ ansi.Shows (commonFixes.map (fixLine true))
      (commonFixes.map (fixLine false)) :=
    List.forall₂_map_left_iff.mpr (List.forall₂_map_right_iff.mpr (List.forall₂_same.mpr
      (fun fix among => marked_shows (by decide)
        (of_decide_eq_true (List.all_eq_true.mp table fix among)))))
  exact List.rel_append (.cons (colour_shows (by decide) ansi_colours.2.2.2.2.1) lines)
    (.cons (ansi_free List.not_mem_nil) .nil)

/-- Each line of a coloured report shows that of the plain one. -/
theorem report_shows (noEscape : host.NoEscape) (made : log.Made (· ≠ '\x1b')) :
    List.Forall₂ ansi.Shows (log.report true host symbolFile)
      (log.report false host symbolFile) := by
  obtain ⟨red, _, _, _, bold, _⟩ := ansi_colours
  have empty : ansi.Shows [] [] := ansi_free List.not_mem_nil
  have title : ∀ text : Str, '\x1b' ∉ text → ansi.Shows (colour true text Julius.bold)
      (colour false text Julius.bold) := fun text free => colour_shows free bold
  refine List.rel_append banner_shows (List.rel_append ?_ (List.rel_append ?_
    (List.rel_append ?_ (List.rel_append ?_ fixes_shows))))
  · refine Listing.Escapes.shows_block (title _ (by decide)) empty (fun l among => ?_)
    have free : '\x1b' ∉ l := fun inside => made.text l (List.take_subset 5 _ among) _ inside rfl
    exact (ansi_free (by decide)).append (colour_shows free red)
  · refine Listing.Escapes.shows_block (title _ (by decide)) empty (fun explanation among => ?_)
    obtain ⟨s, known, rfl⟩ := List.mem_map.mp among
    exact marked_shows (by decide)
      (fun inside => (knownPanics_plain s (made.summary s known) _ inside).2 rfl)
  · have titled : '\x1b' ∉ framesTitle log.backtraceFrames.length := by
      refine List.not_mem_append (List.not_mem_append (by decide) (fun digit => ?_)) (by decide)
      exact absurd (Nat.isDigit_of_mem_toDigits (by decide) (by decide) digit) (by decide)
    refine Listing.Escapes.shows_block (title _ titled) empty (fun frame among => ?_)
    have member := List.fst_mem_of_mem_zipIdx among
    exact frameLine_shows noEscape frame.2 (made.addrs _ member).2
      (fun inside => made.syms _ member _ inside rfl)
  · refine Listing.Escapes.shows_block (title _ (by decide)) empty (fun kext among => ?_)
    exact kextLine_shows (made.names kext among) (made.bases kext among).2

end PanicLog

/-- A report in colours shows what the plain report is: nothing is lost with the escape
sequences, when no text has an escape character of its own. -/
theorem panicReport_colours (host : Host) (symbolFile : Option Str) (text : Str)
    (noEscape : host.NoEscape) (plain : '\x1b' ∉ text) :
    ansi.shown false (panicReport true host symbolFile text) =
      panicReport false host symbolFile text := by
  have made : (parsePanicLog (readlines text)).Made (· ≠ '\x1b') := by
    apply PanicLog.Made.parsePanicLog
    rintro line member c inside rfl
    have within : line ⊆ text := by
      rw [← readlines_flatten text]
      exact fun d inner => List.mem_flatten.mpr ⟨line, member, inner⟩
    exact plain (within ((List.rdropWhile_prefix isSpace line).subset inside))
  exact (Listing.Escapes.shows_printed (by decide) (PanicLog.report_shows noEscape made)).shown

theorem panicReport_colours_two :
    let text := "panic(cpu 0)\nBacktrace:\n0xffffff8000200000 : _p\n0xffffff8000200010 : _q\n".toList
    ansi.shown false (panicReport true firstSymbolHost (some "kernel".toList) text) =
      panicReport false firstSymbolHost (some "kernel".toList) text := by
  intro text
  have noEscape : firstSymbolHost.NoEscape := by
    intro i command returncode stdout ran
    rcases firstSymbolHost_printed ran with rfl | ⟨n, rfl⟩
    · decide
    · intro inside
      rcases List.mem_append.mp inside with printed | newline
      · exact absurd (mem_hex printed) (by decide)
      · exact absurd newline (by decide)
  exact panicReport_colours firstSymbolHost (some "kernel".toList) text noEscape (by decide)

end Colours

end Julius
