import Julius.Tools.PanicConsole
import Julius.Tools.PanicReadback

set_option autoImplicit false

/- The log of a boot that ends in a panic: the output of julius-init, and behind it the report of
the kernel, from the middle of a line on where init had not ended its own. -/
namespace Julius

open Interact

theorem rstrip_behind {cut line : Str} (filled : rstrip line ≠ []) :
    rstrip (cut ++ line) = cut ++ rstrip line := by
  have parts : line = rstrip line ++ line.rtakeWhile isSpace :=
    List.rdropWhile_append_rtakeWhile.symm
  have blank : ∀ c ∈ line.rtakeWhile isSpace, isSpace c = true :=
    fun c member => List.mem_rtakeWhile_imp member
  have ends : rstrip (rstrip line) = rstrip line := List.rdropWhile_idempotent isSpace line
  calc rstrip (cut ++ line)
      = rstrip (cut ++ rstrip line ++ line.rtakeWhile isSpace) := by
        rw [List.append_assoc, ← parts]
    _ = rstrip (cut ++ rstrip line) := rstrip_blank blank
    _ = cut ++ rstrip line := rstrip_append filled ends

/-- The line ends of a text do not change those of the text behind it, unless it begins with an
LF. -/
theorem newlines_append (behindCr : Bool) (first : Str) {second : Str}
    (begins : ∀ c ∈ second.head?, c ≠ '\n') :
    newlines behindCr (first ++ second) = newlines behindCr first ++ newlines false second := by
  induction first generalizing behindCr with
  | nil =>
      cases second with
      | nil => rfl
      | cons c second =>
          have other : c ≠ '\n' := begins c rfl
          have inside : ∀ behindCr, newlines behindCr (c :: second) =
              if c = '\r' then '\n' :: newlines true second else c :: newlines false second := by
            intro behindCr
            have plain : ¬ (c = '\n' ∧ behindCr = true) := fun both => other both.1
            rw [newlines, if_neg plain]
          exact (inside behindCr).trans (inside false).symm
  | cons c first ih =>
      rw [List.cons_append, newlines, newlines, ih, ih]
      split
      · rfl
      · split <;> rfl

/-- What a text has of the line it ends in. -/
def lastLine (s : Str) : Str := s.rtakeWhile (· ≠ '\n')

theorem lastLine_eq {whole : Str} (ended : whole = [] ∨ whole.getLast? = some '\n') {cut : Str}
    (unbroken : '\n' ∉ cut) : lastLine (whole ++ cut) = cut := by
  have stays : ∀ c ∈ cut.reverse, decide (c ≠ '\n') = true := by
    intro c member
    exact decide_eq_true (fun newline => unbroken (newline ▸ List.mem_reverse.mp member))
  have stops : whole.reverse.takeWhile (· ≠ '\n') = [] := by
    rcases ended with rfl | newline
    · rfl
    · rw [← List.head?_reverse] at newline
      obtain ⟨front, reversed⟩ := List.head?_eq_some_iff.mp newline
      rw [reversed]
      rfl
  rw [lastLine, List.rtakeWhile, List.reverse_append, List.takeWhile_append_of_pos stays, stops,
    List.append_nil, List.reverse_reverse]

/-- The lines of a text with another one behind it: all but the last are its own, and the last
one goes on. -/
theorem readlines_append (first second : Str) : ∃ whole : List Str,
    first = whole.flatten ++ lastLine first ∧ '\n' ∉ lastLine first ∧
      readlines (first ++ second) = whole ++ readlines (lastLine first ++ second) := by
  suffices parted : ∃ (whole : List Str) (cut : Str), first = whole.flatten ++ cut ∧
      (whole = [] ∨ whole.flatten.getLast? = some '\n') ∧ '\n' ∉ cut ∧
      readlines (first ++ second) = whole ++ readlines (cut ++ second) by
    obtain ⟨whole, cut, parts, ended, unbroken, lines⟩ := parted
    have last : lastLine first = cut :=
      parts ▸ lastLine_eq (ended.imp_left (fun none => by rw [none]; rfl)) unbroken
    rw [last]
    exact ⟨whole, parts, unbroken, lines⟩
  induction first with
  | nil => exact ⟨[], [], rfl, Or.inl rfl, List.not_mem_nil, rfl⟩
  | cons c first ih =>
      obtain ⟨whole, cut, parts, ended, unbroken, lines⟩ := ih
      by_cases newline : c = '\n'
      · refine ⟨[c] :: whole, cut, ?_, Or.inr ?_, unbroken, ?_⟩
        · rw [parts]
          rfl
        · rw [List.flatten_cons, List.singleton_append, List.getLast?_cons, newline]
          rcases ended with rfl | newline
          · rfl
          · rw [newline]
            rfl
        · rw [List.cons_append, readlines, if_pos newline, lines]
          rfl
      · cases whole with
        | nil =>
            refine ⟨[], c :: cut, ?_, Or.inl rfl, ?_, ?_⟩
            · rw [parts]
              rfl
            · exact List.not_mem_cons_of_ne_of_not_mem (Ne.symm newline) unbroken
            · rw [parts]
              rfl
        | cons line whole =>
            refine ⟨(c :: line) :: whole, cut, ?_, Or.inr ?_, unbroken, ?_⟩
            · rw [parts]
              rfl
            · have last := ended.resolve_left (List.cons_ne_nil _ _)
              rw [List.flatten_cons, List.cons_append, ← List.flatten_cons, List.getLast?_cons, last]
              rfl
            · rw [List.cons_append, readlines, if_neg newline, lines]
              rfl

/-- What stands before a text without a newline is the start of its first line. -/
theorem readlines_cut {cut second line : Str} {lines : List Str} (unbroken : '\n' ∉ cut)
    (more : readlines second = line :: lines) :
    readlines (cut ++ second) = (cut ++ line) :: lines := by
  induction cut with
  | nil => exact more
  | cons c cut ih =>
      have here : c ≠ '\n' := Ne.symm (List.ne_of_not_mem_cons unbroken)
      rw [List.cons_append, readlines, if_neg here, ih (List.not_mem_of_not_mem_cons unbroken)]
      rfl

/-- A word without the first letter of `back` does not begin in front of it. -/
theorem contains_apart {front back : Str} {c : Char} {part : String} (absent : c ∉ part.toList)
    (found : contains (front ++ c :: back) part = true) :
    contains front part = true ∨ contains (c :: back) part = true := by
  rcases infix_apart absent (of_decide_eq_true found) with before | behind
  · exact Or.inl (decide_eq_true before)
  · exact Or.inr (decide_eq_true (List.infix_cons behind))

namespace PanicReport

variable (report : PanicReport)

theorem panicLine_filled : rstrip report.panicLine ≠ [] := by
  intro empty
  have starts := report.starts
  rw [empty] at starts
  exact absurd starts (by decide)

/-- The report with its panic line in the middle of another line. -/
def behind (cut : Str) : PanicReport where
  panicLine := cut ++ report.panicLine
  description := report.description
  headerEnding := report.headerEnding
  frames := report.frames
  blankLine := report.blankLine
  starts := by
    rw [rstrip_behind report.panicLine_filled]
    exact startsPanic_part (List.suffix_append cut _).isInfix report.starts
  noBacktrace := report.noBacktrace
  headerBlank := report.headerBlank
  filled := report.filled
  blank := report.blank

/-- The panic line is one of XNU. -/
def Named : Prop := "panic(".toList <+: report.panicLine

variable {report} {cut : Str}

/-- A line cut off in front of the panic does not make a header of it. -/
theorem behind_header (named : report.Named) (quiet : PanicLog.startsBacktrace cut = false)
    (header : panicSections.header (cut ++ report.panicLine) = true) :
    panicSections.header report.panicLine = true := by
  obtain ⟨rest, line⟩ : ∃ rest, rstrip report.panicLine = 'p' :: rest := by
    obtain ⟨tail, whole⟩ := named
    cases stripped : rstrip report.panicLine with
    | nil => exact absurd stripped report.panicLine_filled
    | cons c rest =>
        have starts : c :: rest <+: 'p' :: ("anic(".toList ++ tail) := by
          rw [← stripped]
          show rstrip report.panicLine <+: "panic(".toList ++ tail
          rw [whole]
          exact List.rdropWhile_prefix isSpace report.panicLine
        exact ⟨rest, by rw [(List.cons_prefix_cons.mp starts).1]⟩
  obtain ⟨noCapital, noSmall⟩ := Bool.or_eq_false_iff.mp quiet
  have found : PanicLog.startsBacktrace (cut ++ 'p' :: rest) = true := by
    rw [← line, ← rstrip_behind report.panicLine_filled]
    exact header
  show PanicLog.startsBacktrace (rstrip report.panicLine) = true
  rw [line]
  refine (Bool.or_eq_true _ _).mpr (((Bool.or_eq_true _ _).mp found).imp ?_ ?_)
  · intro capital
    exact (contains_apart (by decide) capital).resolve_left (Bool.eq_false_iff.mp noCapital)
  · intro small
    exact (contains_apart (by decide) small).resolve_left (Bool.eq_false_iff.mp noSmall)

theorem behind_alone (named : report.Named) (quiet : PanicLog.startsBacktrace cut = false)
    (alone : ¬ panicSections.SectionItem report.front) :
    ¬ panicSections.SectionItem (report.behind cut).front := by
  intro ahead
  apply alone
  rcases (panicSections.sectionItem_cons _ _).mp ahead with ⟨header, item⟩ | later
  · exact (panicSections.sectionItem_cons _ _).mpr (Or.inl ⟨behind_header named quiet header, item⟩)
  · exact (panicSections.sectionItem_cons _ _).mpr (Or.inr later)

/-- With nothing in the way the frames are those of the backtrace. -/
theorem frames_collected (apart : report.SymbolsApart)
    (alone : ¬ panicSections.SectionItem report.front) :
    (parsePanicLog report.lines).backtraceFrames = report.frames.map PanicFrame.pair := by
  have before : (panicSections.read report.front).1 = [] := by
    rw [panicSections.read_eq]
    by_contra items
    rcases (panicSections.collect_ne_nil_iff false report.front).mp items with ⟨opened, _⟩ | item
    · cases opened
    · exact alone item
  rw [report.frames_eq, report.collect_frames apart, before]
  rfl

/-- The text begins with the panic line, twice. -/
theorem text_begins :
    [rstrip report.panicLine, rstrip report.panicLine] <+:
      (parsePanicLog report.lines).rawPanicText := by
  have first : (PanicLog.empty.parseLine report.panicLine).rawPanicText =
      [rstrip report.panicLine, rstrip report.panicLine] := by
    have starts : isPanicLine report.panicLine = true := report.starts
    rw [(PanicLog.parseLine_adds _ _).1, starts, Bool.or_true, if_pos rfl, PanicLog.shown,
      if_pos report.starts]
    rfl
  rw [← first]
  exact PanicLog.foldl_keeps _ _

/-- Its text begins with the panic, not with a line end. -/
theorem begins {text : Str} (spelled : readlines (universalNewlines text) = report.lines)
    (named : report.Named) : ∀ c ∈ text.head?, c ≠ '\n' := by
  rintro c first rfl
  cases text with
  | nil => cases first
  | cons d rest =>
      obtain rfl := Option.some.inj first
      have blank : readlines (universalNewlines ('\n' :: rest)) =
          ['\n'] :: readlines (newlines false rest) := rfl
      obtain ⟨line, _⟩ := List.cons.inj (blank.symm.trans spelled)
      rw [Named, ← line] at named
      exact absurd named (by decide)

end PanicReport

/-- On the log of a boot the report of the tool shows all frames of the kernel's backtrace, in
order and with their symbols, whatever PID 1 printed and wherever the panic cut it off; what PID 1
had printed of its last line stands in front of the panic line. -/
theorem panicReport_boot (host : Host) (symbolFile : Option Str) (oneLine : host.OneLine)
    (memory : Memory) (stack : JuliusSimpleMsg)
    {place : Server.Config Trap Trap.Answer Panic (InitState × JuliusSimpleMsg) × List Event}
    (reached : (juliusStart memory stack).Reachable anyKernel [] place)
    (report : PanicReport) {text : Str}
    (spelled : readlines (universalNewlines text) = report.lines) (named : report.Named)
    (apart : report.SymbolsApart) (alone : ¬ panicSections.SectionItem report.front) :
    ∃ shown,
      readReport (panicReport false host symbolFile
        (universalNewlines (consoleText place.2 ++ text))) = some shown ∧
      shown.frames =
        (report.frames.map PanicFrame.pair).zipIdx.map (shownFrame host symbolFile) ∧
      shown.message.take 2 = List.replicate 2
        (lastLine (universalNewlines (consoleText place.2)) ++ rstrip report.panicLine) := by
  have console := (consoleText_quiet memory stack reached).universalNewlines
  have joined : universalNewlines (consoleText place.2 ++ text) =
      universalNewlines (consoleText place.2) ++ universalNewlines text :=
    newlines_append false _ (PanicReport.begins spelled named)
  rw [joined]
  generalize universalNewlines (consoleText place.2) = printed at console ⊢
  obtain ⟨whole, parts, unbroken, lines⟩ := readlines_append printed (universalNewlines text)
  generalize lastLine printed = cut at parts unbroken lines ⊢
  have tail : cut <:+ printed := ⟨whole.flatten, parts.symm⟩
  have nothing : ∀ line ∈ whole, isPanicLine line = false ∧ isHeaderLine line = false := by
    intro line member
    have within : line <:+: printed := by
      rw [parts]
      exact (List.infix_of_mem_flatten member).trans (List.prefix_append _ _).isInfix
    exact console.line ((List.rdropWhile_prefix isSpace line).isInfix.trans within)
  have parsed : parsePanicLog (readlines (printed ++ universalNewlines text)) =
      parsePanicLog (report.behind cut).lines := by
    rw [lines, readlines_cut unbroken spelled]
    unfold parsePanicLog
    rw [List.foldl_append, PanicLog.foldl_nothing nothing]
    rfl
  have collected : (parsePanicLog (report.behind cut).lines).backtraceFrames =
      report.frames.map PanicFrame.pair :=
    @PanicReport.frames_collected (report.behind cut) apart
      (PanicReport.behind_alone named (console.line tail.isInfix).2 alone)
  obtain ⟨more, first⟩ := @PanicReport.text_begins (report.behind cut)
  refine ⟨_, PanicLog.readReport_printed oneLine (PanicLog.parsePanicLog_made _), ?_, ?_⟩
  · rw [parsed, shownOf, collected]
  · rw [parsed, shownOf, ← first]
    show [rstrip (cut ++ report.panicLine), rstrip (cut ++ report.panicLine)] = _
    rw [rstrip_behind report.panicLine_filled]
    rfl

/-- The kernel panics in the middle of a line of PID 1, in two frames. -/
theorem panicReport_boot_zone :
    let history : List Event := [⟨.write 2 banner, (0 : Word)⟩,
      ⟨.write 2 "init: PID 1 starting\r\n", (0 : Word)⟩, ⟨.taskSelf, (0x103 : MachPort)⟩,
      ⟨.vmAllocate 0x103 0 heapInitialSize vmFlagsAnywhere, (kernSuccess, (0x100000 : Word))⟩,
      ⟨.write 2 "mem: heap initialised at ", (0 : Word)⟩]
    let text := ("panic(cpu 0 caller 0xffffff8000200000): zone\n" ++
      "Backtrace:\n0xffffff8000200000 : _panic+0x1d\n0xffffff8000200010 : _zalloc+0x44\n\n").toList
    (∃ config, (juliusStart (fun _ => 0) ⟨simpleHeader 0 0⟩).Reachable anyKernel []
      (config, history)) ∧
    ∃ shown,
      readReport (panicReport false firstSymbolHost (some "kernel".toList)
        (universalNewlines (consoleText history ++ text))) = some shown ∧
      shown.frames = [("0xffffff8000200000".toList, "_panic (in kernel)".toList),
        ("0xffffff8000200010".toList, "_zalloc".toList)] ∧
      shown.message.take 2 = List.replicate 2
        "mem: heap initialised at panic(cpu 0 caller 0xffffff8000200000): zone".toList := by
  intro history text
  have told : ∀ (before : List Event) (trap : Trap) (answer : trap.Answer),
      anyKernel.answers before trap answer (before ++ [⟨trap, answer⟩]) := fun _ _ _ => rfl
  have reached :
      (juliusStart (fun _ => 0) ⟨simpleHeader 0 0⟩).Reachable anyKernel [] (_, history) :=
    .tail (.tail (.tail (.tail (.tail .refl
      (.startAsk (told _ (.write 2 banner) (0 : Word))))
      (.startAsk (told _ (.write 2 "init: PID 1 starting\r\n") (0 : Word))))
      (.startAsk (told _ .taskSelf (0x103 : MachPort))))
      (.startAsk (told _ (.vmAllocate 0x103 0 heapInitialSize vmFlagsAnywhere)
        (kernSuccess, (0x100000 : Word)))))
      (.startAsk (told _ (.write 2 "mem: heap initialised at ") (0 : Word)))
  let caller : PanicFrame :=
    .ofSymbol "_zalloc".toList (by decide) (by decide) (by decide) (by decide)
  let report : PanicReport :=
    { panicLine := "panic(cpu 0 caller 0xffffff8000200000): zone\n".toList
      description := []
      headerEnding := ['\n']
      frames := [.ofSymbol "_panic".toList (by decide) (by decide) (by decide) (by decide),
        { caller with
          digits := "ffffff8000200010".toList
          offset := some "44".toList
          hex := List.all_eq_true.mp (by decide)
          long := by decide
          short := by decide
          offsetHex := by
            rintro ds ⟨⟩
            exact ⟨by decide, List.all_eq_true.mp (by decide)⟩ }]
      blankLine := ['\n']
      starts := by decide +kernel
      noBacktrace := List.forall_mem_nil _
      headerBlank := List.all_eq_true.mp (by decide)
      filled := List.cons_ne_nil _ _
      blank := List.all_eq_true.mp (by decide) }
  have apart : report.SymbolsApart := by
    intro f member
    rcases List.mem_cons.mp member with rfl | last
    · decide +kernel
    · rw [List.mem_singleton.mp last]
      decide +kernel
  have alone : ¬ panicSections.SectionItem report.front := by
    intro item
    have collected := (panicSections.collect_ne_nil_iff false report.front).mpr (Or.inr item)
    exact collected (by decide +kernel)
  obtain ⟨shown, read, frames, message⟩ := panicReport_boot firstSymbolHost (some "kernel".toList)
    firstSymbolHost_oneLine (fun _ => 0) ⟨simpleHeader 0 0⟩ reached report
    (show readlines (universalNewlines text) = report.lines by decide +kernel)
    (List.isPrefixOf_iff_prefix.mp (by decide)) apart alone
  have stripped : rstrip report.panicLine =
      "panic(cpu 0 caller 0xffffff8000200000): zone".toList := by decide +kernel
  have cut : lastLine (universalNewlines (consoleText history)) =
      "mem: heap initialised at ".toList := by
    have whole : newlines false (banner.toList ++ "init: PID 1 starting\r\n".toList) =
        newlines false banner.toList ++ "init: PID 1 starting\n".toList :=
      newlines_append false banner.toList (by rintro _ ⟨⟩; decide)
    have spoken : ∀ text : String, Event.printed ⟨.write 2 text, (0 : Word)⟩ = text.toList :=
      fun _ => rfl
    have silent : Event.printed ⟨.taskSelf, (0x103 : MachPort)⟩ = [] ∧
        Event.printed ⟨.vmAllocate 0x103 0 heapInitialSize vmFlagsAnywhere,
          (kernSuccess, (0x100000 : Word))⟩ = [] := ⟨rfl, rfl⟩
    have console : consoleText history = banner.toList ++ "init: PID 1 starting\r\n".toList ++
        "mem: heap initialised at ".toList := by
      simp only [history, consoleText, List.flatMap_cons, List.flatMap_nil, spoken, silent.1,
        silent.2, List.nil_append, List.append_nil, List.append_assoc]
    rw [console, universalNewlines, newlines_append false _ (by rintro _ ⟨⟩; decide), whole]
    exact lastLine_eq (Or.inr (List.getLast?_append_of_ne_nil _ (by decide))) (by decide)
  refine ⟨⟨_, reached⟩, shown, read, frames.trans (by decide +kernel), ?_⟩
  rw [message, stripped, cut]
  decide +kernel

end Julius
