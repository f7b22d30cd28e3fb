import Julius.Tools.PanicParse

set_option autoImplicit false

/- The panic text and the diagnosis: which lines of a log tools/panic-parse.py takes for the
description of a panic. -/
namespace Julius

/-- A line of the log that starts a panic. -/
def isPanicLine (line : Str) : Bool := PanicLog.startsPanic (rstrip line)

/-- A line of the log that opens a backtrace section. -/
def isHeaderLine (line : Str) : Bool := PanicLog.startsBacktrace (rstrip line)

namespace PanicLog

variable (log : PanicLog) (line : Str)

/-- Whether the loop is collecting the description of a panic. -/
def collecting (log : PanicLog) : Bool := !log.rawPanicText.isEmpty && !log.inBacktrace

/-- How a line of a description shows up in the text: a panic line passes two tests. -/
def shown (line : Str) : List Str := if startsPanic line then [line, line] else [line]

theorem mem_shown : line ∈ shown line := by
  unfold shown
  split <;> exact List.mem_cons_self

theorem collectText_eq : log.collectText line =
    if log.collecting then
      { log with
        rawPanicText := log.rawPanicText ++ [line]
        panicSummary := log.panicSummary ++ (findKnownPanic line).toList }
    else log := rfl

theorem parseFrame_texts : (log.parseFrame line).rawPanicText = log.rawPanicText ∧
    (log.parseFrame line).panicSummary = log.panicSummary := by
  unfold parseFrame
  cases frameOf line <;> cases kextRe line <;> dsimp only <;> split <;> exact ⟨rfl, rfl⟩

/-- Only the first two tests of the loop add to the text and the diagnosis. -/
theorem parseLine_texts :
    (log.parseLine line).rawPanicText =
        ((log.detectPanic (rstrip line)).collectText (rstrip line)).rawPanicText ∧
      (log.parseLine line).panicSummary =
        ((log.detectPanic (rstrip line)).collectText (rstrip line)).panicSummary := by
  unfold parseLine
  dsimp only
  split
  · exact ⟨rfl, rfl⟩
  · split
    · exact parseFrame_texts _ _
    · exact ⟨rfl, rfl⟩

/-- What a line adds to the text and the diagnosis. -/
theorem parseLine_adds :
    (log.parseLine line).rawPanicText = log.rawPanicText ++
        (if log.collecting || isPanicLine line then shown (rstrip line) else []) ∧
      (log.parseLine line).panicSummary = log.panicSummary ++
        (if log.collecting || isPanicLine line then (findKnownPanic (rstrip line)).toList
          else []) := by
  obtain ⟨text, summary⟩ := log.parseLine_texts line
  rw [text, summary, shown]
  cases starts : isPanicLine line with
  | true =>
      have starts : startsPanic (rstrip line) = true := starts
      have detected : (log.detectPanic (rstrip line)).collecting = true := by
        simp [detectPanic, collecting, starts]
      rw [collectText_eq, if_pos detected, Bool.or_true, if_pos rfl, if_pos starts, if_pos rfl]
      simp [detectPanic, starts]
  | false =>
      have other : startsPanic (rstrip line) = false := starts
      have same : log.detectPanic (rstrip line) = log := by
        rw [detectPanic, other, if_neg Bool.false_ne_true]
      rw [same, collectText_eq, Bool.or_false, other, if_neg Bool.false_ne_true]
      split
      · exact ⟨rfl, rfl⟩
      · exact ⟨(List.append_nil _).symm, (List.append_nil _).symm⟩

/-- The lines collected between them change nothing about the panic lines in the text: each
one is there twice. -/
theorem foldl_countP (lines : List Str) :
    (lines.foldl parseLine log).rawPanicText.countP startsPanic =
      log.rawPanicText.countP startsPanic + 2 * lines.countP isPanicLine := by
  induction lines generalizing log with
  | nil => rfl
  | cons line lines ih =>
      rw [List.foldl_cons, ih, (log.parseLine_adds line).1, List.countP_append, List.countP_cons]
      cases starts : isPanicLine line with
      | true =>
          have twice : shown (rstrip line) = [rstrip line, rstrip line] := if_pos starts
          have counted : startsPanic (rstrip line) = true := starts
          rw [Bool.or_true, if_pos rfl, if_pos rfl, twice]
          simp only [List.countP_cons_of_pos counted, List.countP_nil]
          omega
      | false =>
          have once : shown (rstrip line) = [rstrip line] := if_neg (Bool.eq_false_iff.mp starts)
          have uncounted : [rstrip line].countP startsPanic = 0 :=
            (List.countP_cons_of_neg (Bool.eq_false_iff.mp starts)).trans List.countP_nil
          rw [Bool.or_false, once, if_neg Bool.false_ne_true]
          split
          · rw [uncounted]
            rfl
          · rfl

/-- What is in the text stays there. -/
theorem foldl_keeps (lines : List Str) :
    log.rawPanicText <+: (lines.foldl parseLine log).rawPanicText := by
  induction lines generalizing log with
  | nil => exact List.prefix_refl _
  | cons line lines ih =>
      exact List.IsPrefix.trans ⟨_, (log.parseLine_adds line).1.symm⟩ (ih (log.parseLine line))

theorem foldl_panics {lines : List Str} (member : line ∈ lines)
    (starts : isPanicLine line = true) :
    rstrip line ∈ (lines.foldl parseLine log).rawPanicText := by
  obtain ⟨before, after, rfl⟩ := List.append_of_mem member
  rw [List.foldl_append, List.foldl_cons]
  apply (foldl_keeps _ after).subset
  rw [(parseLine_adds _ line).1, starts, Bool.or_true, if_pos rfl]
  exact List.mem_append_right _ (mem_shown _)

/-- Before the first panic line nothing is collected. -/
theorem foldl_quiet {lines : List Str} (quiet : ∀ line ∈ lines, isPanicLine line = false)
    (empty : log.rawPanicText = []) :
    (lines.foldl parseLine log).rawPanicText = [] ∧
      (lines.foldl parseLine log).panicSummary = log.panicSummary := by
  induction lines generalizing log with
  | nil => exact ⟨empty, rfl⟩
  | cons line lines ih =>
      have idle : log.collecting = false := by rw [collecting, empty]; rfl
      obtain ⟨text, summary⟩ := log.parseLine_adds line
      rw [idle, quiet line List.mem_cons_self, Bool.or_false, if_neg Bool.false_ne_true,
        List.append_nil] at text summary
      obtain ⟨none, same⟩ := ih (log.parseLine line)
        (fun line member => quiet line (List.mem_cons_of_mem _ member)) (text.trans empty)
      exact ⟨none, same.trans summary⟩

end PanicLog

/-- The lines of a log that may describe a panic, stripped as the loop does: all but those
behind a backtrace header and before the next panic line. `inside` tells that no header has
been passed. -/
def descriptionLines (inside : Bool) : List Str → List Str
  | [] => []
  | line :: rest =>
      let inside := inside || isPanicLine line
      let later := descriptionLines (inside && !isHeaderLine line) rest
      if inside then rstrip line :: later else later

/-- The panic text has lines of descriptions only, each once and in their order, and all panic
lines; the diagnosis explains lines of descriptions only. -/
structure PanicTextRight (lines : List Str) : Prop where
  text : List.Sublist (parsePanicLog lines).rawPanicText (descriptionLines true lines)
  panics : ∀ line ∈ lines, isPanicLine line = true →
    rstrip line ∈ (parsePanicLog lines).rawPanicText
  summary : List.Sublist (parsePanicLog lines).panicSummary
    ((descriptionLines true lines).filterMap findKnownPanic)

theorem descriptionLines_countP (inside : Bool) (lines : List Str) :
    (descriptionLines inside lines).countP PanicLog.startsPanic ≤ lines.countP isPanicLine := by
  induction lines generalizing inside with
  | nil => exact Nat.le_refl _
  | cons line lines ih =>
      rw [descriptionLines]
      have further := ih ((inside || isPanicLine line) && !isHeaderLine line)
      split
      · rw [List.countP_cons, List.countP_cons]
        exact Nat.add_le_add_right further _
      · rw [List.countP_cons]
        omega

/-- The blank line behind a backtrace lets the output that follows into the panic text, and
into the diagnosis. -/
theorem output_diagnosed :
    let lines := ["panic(cpu 0): zone".toList, "Backtrace:".toList,
      "0xffffff8000200000 : _panic".toList, [], "disk0: spinlock timeout 5 s".toList]
    ¬ PanicTextRight lines ∧
      (parsePanicLog lines).rawPanicText =
        ["panic(cpu 0): zone".toList, "panic(cpu 0): zone".toList, "Backtrace:".toList,
          "disk0: spinlock timeout 5 s".toList] ∧
      (parsePanicLog lines).panicSummary =
        ["A spinlock was held too long. Likely infinite loop or deadlock in driver."] := by
  intro lines
  have read : parsePanicLog lines =
      { inBacktrace := false
        panicSummary :=
          ["A spinlock was held too long. Likely infinite loop or deadlock in driver."]
        backtraceFrames := [("0xffffff8000200000".toList, "_panic".toList)]
        kextList := []
        rawPanicText := ["panic(cpu 0): zone".toList, "panic(cpu 0): zone".toList,
          "Backtrace:".toList, "disk0: spinlock timeout 5 s".toList] } := by
    decide +kernel
  refine ⟨?_, by rw [read], by rw [read]⟩
  intro right
  have longer := right.text.length_le
  rw [read, show (descriptionLines true lines).length = 2 by decide +kernel] at longer
  exact absurd longer (by decide)

/-- Text and diagnosis are right just for the logs without a panic: the text has every panic
line twice. -/
theorem panicTextRight_iff (lines : List Str) :
    PanicTextRight lines ↔ ∀ line ∈ lines, isPanicLine line = false := by
  constructor
  · intro right
    have counted : (parsePanicLog lines).rawPanicText.countP PanicLog.startsPanic =
        0 + 2 * lines.countP isPanicLine := PanicLog.foldl_countP .empty lines
    have fewer := right.text.countP_le (p := PanicLog.startsPanic)
    have described := descriptionLines_countP true lines
    have none : lines.countP isPanicLine = 0 := by omega
    exact fun line member => Bool.eq_false_iff.mpr (List.countP_eq_zero.mp none line member)
  · intro quiet
    obtain ⟨text, summary⟩ := PanicLog.foldl_quiet .empty quiet rfl
    refine ⟨?_, fun line => PanicLog.foldl_panics .empty line, ?_⟩
    · rw [show (parsePanicLog lines).rawPanicText = [] from text]
      exact List.nil_sublist _
    · rw [show (parsePanicLog lines).panicSummary = [] from summary]
      exact List.nil_sublist _

namespace PanicLog

variable (log : PanicLog) (line : Str)

theorem parseLine_isEmpty : (log.parseLine line).rawPanicText.isEmpty =
    (log.rawPanicText.isEmpty && !isPanicLine line) := by
  rw [(log.parseLine_adds line).1, shown, collecting, isPanicLine]
  cases log.rawPanicText <;> cases startsPanic (rstrip line) <;> rfl

theorem parseLine_inBacktrace : (log.parseLine line).inBacktrace =
    (isHeaderLine line || (log.inBacktrace && !isPanicLine line &&
      !(panicSections.blank line &&
        !(log.backtraceFrames ++ (panicSections.item line).toList).isEmpty))) :=
  (congrArg Prod.snd (log.parseLine_sections line)).trans (panicSections.step_inside _ _)

/-- A line that is not blank leaves a section open. -/
theorem parseLine_collecting (filled : panicSections.blank line = false) :
    (log.parseLine line).collecting =
      ((log.collecting || isPanicLine line) && !isHeaderLine line) := by
  rw [collecting, log.parseLine_isEmpty, log.parseLine_inBacktrace, filled, Bool.false_and,
    Bool.not_false, Bool.and_true, collecting]
  cases log.rawPanicText.isEmpty <;> cases log.inBacktrace <;> cases isPanicLine line <;>
    cases isHeaderLine line <;> rfl

theorem foldl_filled {lines : List Str}
    (filled : ∀ line ∈ lines, panicSections.blank line = false) :
    (lines.foldl parseLine log).rawPanicText =
        log.rawPanicText ++ (descriptionLines log.collecting lines).flatMap shown ∧
      (lines.foldl parseLine log).panicSummary = log.panicSummary ++
        (descriptionLines log.collecting lines).filterMap findKnownPanic := by
  induction lines generalizing log with
  | nil => exact ⟨(List.append_nil _).symm, (List.append_nil _).symm⟩
  | cons line lines ih =>
      obtain ⟨text, summary⟩ := ih (log.parseLine line)
        (fun line member => filled line (List.mem_cons_of_mem _ member))
      obtain ⟨here, explained⟩ := log.parseLine_adds line
      rw [List.foldl_cons, text, summary, here, explained,
        log.parseLine_collecting line (filled line List.mem_cons_self), List.append_assoc,
        List.append_assoc, descriptionLines]
      cases log.collecting || isPanicLine line with
      | true =>
          refine ⟨rfl, congrArg (log.panicSummary ++ ·) ?_⟩
          rw [if_pos rfl, if_pos rfl, List.filterMap_cons]
          cases findKnownPanic (rstrip line) <;> rfl
      | false => exact ⟨rfl, rfl⟩

/-- Outside a section all lines are collected, until the next header. -/
theorem foldl_output {lines : List Str} (collects : log.collecting = true)
    (output : ∀ line ∈ lines, isPanicLine line = false ∧ isHeaderLine line = false) :
    (lines.foldl parseLine log).rawPanicText = log.rawPanicText ++ lines.map rstrip ∧
      (lines.foldl parseLine log).panicSummary =
        log.panicSummary ++ (lines.map rstrip).filterMap findKnownPanic := by
  induction lines generalizing log with
  | nil => exact ⟨(List.append_nil _).symm, (List.append_nil _).symm⟩
  | cons line lines ih =>
      obtain ⟨other, plain⟩ := output line List.mem_cons_self
      obtain ⟨begun, closed⟩ := (Bool.and_eq_true _ _).mp collects
      have stays : (log.parseLine line).inBacktrace = false := by
        rw [log.parseLine_inBacktrace, plain, (Bool.not_eq_true' _).mp closed]
        rfl
      have further : (log.parseLine line).collecting = true := by
        rw [collecting, log.parseLine_isEmpty, stays, other, Bool.not_false, Bool.and_true,
          Bool.and_true, begun]
      obtain ⟨text, summary⟩ := ih (log.parseLine line) further
        (fun line member => output line (List.mem_cons_of_mem _ member))
      obtain ⟨here, explained⟩ := log.parseLine_adds line
      have once : shown (rstrip line) = [rstrip line] := if_neg (Bool.eq_false_iff.mp other)
      rw [List.foldl_cons, text, summary, here, explained, collects, Bool.true_or, if_pos rfl,
        if_pos rfl, once, List.append_assoc, List.append_assoc]
      refine ⟨rfl, congrArg (log.panicSummary ++ ·) ?_⟩
      rw [List.map_cons, List.filterMap_cons]
      cases findKnownPanic (rstrip line) <;> rfl

/-- The blank line that ends a backtrace lets in everything that follows it, up to the next
header. -/
theorem foldl_behind_backtrace {blankLine : Str} {lines : List Str}
    (reading : log.inBacktrace = true) (begun : log.rawPanicText ≠ [])
    (frames : log.backtraceFrames ≠ []) (blank : rstrip blankLine = [])
    (output : ∀ line ∈ lines, isPanicLine line = false ∧ isHeaderLine line = false) :
    ((blankLine :: lines).foldl parseLine log).rawPanicText =
        log.rawPanicText ++ lines.map rstrip ∧
      ((blankLine :: lines).foldl parseLine log).panicSummary =
        log.panicSummary ++ (lines.map rstrip).filterMap findKnownPanic := by
  have other : isPanicLine blankLine = false := by rw [isPanicLine, blank]; decide
  have idle : log.collecting = false := by rw [collecting, reading, Bool.not_true, Bool.and_false]
  obtain ⟨here, explained⟩ := log.parseLine_adds blankLine
  rw [idle, other, Bool.or_false, if_neg Bool.false_ne_true, List.append_nil] at here explained
  have closed : (log.parseLine blankLine).inBacktrace = false := by
    have plain : isHeaderLine blankLine = false := by rw [isHeaderLine, blank]; decide
    have ends : panicSections.blank blankLine = true := by
      show (strip (rstrip blankLine)).isEmpty = true
      rw [blank]
      rfl
    rw [log.parseLine_inBacktrace, plain, ends]
    simp [frames]
  have collects : (log.parseLine blankLine).collecting = true := by
    rw [collecting, here, closed]
    simpa using begun
  obtain ⟨text, summary⟩ := (log.parseLine blankLine).foldl_output collects output
  rw [List.foldl_cons, text, summary, here, explained]
  exact ⟨rfl, rfl⟩

end PanicLog

/-- In a log without blank lines the text is that of the descriptions, with each panic line
twice, and the diagnosis explains exactly their lines. -/
theorem parsePanicLog_filled {lines : List Str}
    (filled : ∀ line ∈ lines, panicSections.blank line = false) :
    (parsePanicLog lines).rawPanicText = (descriptionLines false lines).flatMap PanicLog.shown ∧
      (parsePanicLog lines).panicSummary =
        (descriptionLines false lines).filterMap findKnownPanic :=
  PanicLog.foldl_filled .empty filled

theorem parsePanicLog_filled_two :
    let lines := ["boot".toList, "panic(cpu 0): zone map exhausted".toList, "CPU 1".toList,
      "Backtrace:".toList, "0xffffff8000200000 : _panic".toList, "Kernel panic again".toList]
    (parsePanicLog lines).rawPanicText =
        ["panic(cpu 0): zone map exhausted".toList, "panic(cpu 0): zone map exhausted".toList,
          "CPU 1".toList, "Backtrace:".toList, "Kernel panic again".toList,
          "Kernel panic again".toList] ∧
      (parsePanicLog lines).panicSummary =
        ["Kernel memory allocator ran out of zone memory. Possible memory leak."] := by
  intro lines
  have filled : ∀ line ∈ lines, panicSections.blank line = false := by decide +kernel
  obtain ⟨text, summary⟩ := parsePanicLog_filled filled
  exact ⟨text.trans (by decide +kernel), summary.trans (by decide +kernel)⟩

end Julius
