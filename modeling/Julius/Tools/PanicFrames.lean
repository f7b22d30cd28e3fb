import Julius.Tools.PanicParse

set_option autoImplicit false

/- The frames of a panic report: what tools/panic-parse.py collects of its backtrace. -/
namespace Julius

/-- A word that the line loop looks for, as far as it can tell a symbol from the rest of a
frame line. -/
structure Keyword (part : Str) : Prop where
  colon : ':' ∉ part
  plus : '+' ∉ part
  start : part.head? ≠ some ' '
  marked : ∃ c ∈ part, isHexDigit c = false ∧ c ≠ 'x' ∧ c ≠ ' '

/-- A word without `c` lies on one side of every `c`. -/
theorem infix_apart {part left right : Str} {c : Char} (absent : c ∉ part)
    (found : part <:+: left ++ c :: right) : part <:+: left ∨ part <:+: right := by
  rcases List.infix_append_iff_ne_nil.mp found with
    before | behind | ⟨front, back, -, filled, rfl, -, begins⟩
  · exact Or.inl before
  · rcases List.infix_cons_iff.mp behind with here | later
    · cases part with
      | nil => exact Or.inl (List.nil_infix)
      | cons d part =>
          obtain ⟨rfl, _⟩ := List.cons_prefix_cons.mp here
          exact absurd List.mem_cons_self absent
    · exact Or.inr later
  · cases back with
    | nil => exact absurd rfl filled
    | cons d back =>
        obtain ⟨rfl, _⟩ := List.cons_prefix_cons.mp begins
        exact absurd (List.mem_append_right _ List.mem_cons_self) absent

/-- The characters of an address. -/
def isAddressChar (c : Char) : Bool := isHexDigit c || c = 'x'

/-- A keyword on a frame line is one in its symbol. -/
theorem Keyword.in_symbol {part addr sym offset : Str} (keyword : Keyword part)
    (address : ∀ c ∈ addr, isAddressChar c = true)
    (shape : offset = [] ∨ ∃ rest, offset = '+' :: rest ∧ ∀ c ∈ rest, isAddressChar c = true) :
    part <:+: addr ++ ' ' :: ':' :: ' ' :: (sym ++ offset) ↔ part <:+: sym := by
  obtain ⟨mark, member, digit, letter, space⟩ := keyword.marked
  have unplain : ∀ s : Str, (∀ c ∈ s, isAddressChar c = true) → mark ∉ s := by
    intro s plain within
    have marked := plain mark within
    simp only [isAddressChar, digit, letter, Bool.false_or, decide_false,
      Bool.false_eq_true] at marked
  constructor
  · intro found
    rw [show addr ++ ' ' :: ':' :: ' ' :: (sym ++ offset) =
      (addr ++ [' ']) ++ ':' :: ' ' :: (sym ++ offset) by simp] at found
    rcases infix_apart keyword.colon found with before | behind
    · have inside := before.subset member
      rcases List.mem_append.mp inside with digits | blank
      · exact absurd digits (unplain addr address)
      · exact absurd (List.mem_singleton.mp blank) space
    · have within : part <:+: sym ++ offset := by
        rcases List.infix_cons_iff.mp behind with here | later
        · cases part with
          | nil => exact List.nil_infix
          | cons d part =>
              obtain ⟨rfl, _⟩ := List.cons_prefix_cons.mp here
              exact absurd rfl keyword.start
        · exact later
      rcases shape with rfl | ⟨rest, rfl, plain⟩
      · rwa [List.append_nil] at within
      · rcases infix_apart keyword.plus within with symbol | digits
        · exact symbol
        · exact absurd (digits.subset member) (unplain rest plain)
  · intro found
    have whole : sym <:+: addr ++ ' ' :: ':' :: ' ' :: (sym ++ offset) :=
      ⟨addr ++ [' ', ':', ' '], offset, by simp⟩
    exact found.trans whole

theorem isAddressChar_small {c : Char} (address : isAddressChar c = true) : c.toNat < 128 := by
  simp only [isAddressChar, isHexDigit, Bool.or_eq_true, Bool.and_eq_true, decide_eq_true_eq,
    Char.le_def, UInt32.le_iff_toNat_le] at address
  rcases address with ((⟨_, upper⟩ | ⟨_, upper⟩) | ⟨_, upper⟩) | rfl
  · exact Nat.lt_of_le_of_lt upper (by decide)
  · exact Nat.lt_of_le_of_lt upper (by decide)
  · exact Nat.lt_of_le_of_lt upper (by decide)
  · decide

theorem of_ascii {property : Char → Prop} (table : ∀ n : Fin 128, property (Char.ofNat n))
    {c : Char} (small : c.toNat < 128) : property c := by
  have found := table ⟨c.toNat, small⟩
  rwa [Char.ofNat_toNat] at found

theorem isHexDigit_notSpace {c : Char} (hex : isHexDigit c = true) : ¬ isSpace c = true := by
  have small := isAddressChar_small ((Bool.or_eq_true _ _).mpr (Or.inl hex))
  exact @of_ascii (fun c => isHexDigit c = true → ¬ isSpace c = true) (by decide) c small hex

theorem lower_append (left right : Str) : lower (left ++ right) = lower left ++ lower right :=
  List.flatMap_append

theorem lower_address {s : Str} (address : ∀ c ∈ s, isAddressChar c = true) :
    ∀ c ∈ lower s, isAddressChar c = true := by
  intro d member
  obtain ⟨c, inside, made⟩ := List.mem_flatMap.mp member
  have plain := address c inside
  have lowered := @of_ascii (fun c => isAddressChar c = true →
    (lower [c]).all isAddressChar = true) (by decide) c (isAddressChar_small plain) plain
  rw [lower, List.flatMap_singleton] at lowered
  exact List.all_eq_true.mp lowered d made

/-- A frame line `ADDR : SYM` or `ADDR : SYM+0xOFF`, with the space that ends it. -/
structure PanicFrame where
  digits : Str
  sym : Str
  offset : Option Str
  ending : Str
  hex : ∀ c ∈ digits, isHexDigit c = true
  long : 8 ≤ digits.length
  short : digits.length ≤ 16
  nonempty : sym ≠ []
  singleLine : '\n' ∉ sym
  stripped : strip sym = sym
  noOffset : ∀ front ds, ds ≠ [] → (∀ c ∈ ds, isHexDigit c = true) →
    sym ≠ front ++ '+' :: '0' :: 'x' :: ds
  offsetHex : ∀ ds ∈ offset, ds ≠ [] ∧ ∀ c ∈ ds, isHexDigit c = true
  blank : ∀ c ∈ ending, isSpace c = true

namespace PanicFrame

variable (f : PanicFrame)

def addr : Str := '0' :: 'x' :: f.digits

/-- `+0xOFF`, or nothing. -/
def suffix : Str :=
  match f.offset with
  | some ds => '+' :: '0' :: 'x' :: ds
  | none => []

/-- The line without its end. -/
def text : Str := f.addr ++ ' ' :: ':' :: ' ' :: (f.sym ++ f.suffix)

def line : Str := f.text ++ f.ending

/-- What the report is to show of the frame. -/
def pair : Str × Str := (f.addr, f.sym)

theorem addr_plain : ∀ c ∈ f.addr, isAddressChar c = true := by
  intro c member
  rcases List.mem_cons.mp member with rfl | rest
  · decide
  · rcases List.mem_cons.mp rest with rfl | digit
    · decide
    · exact (Bool.or_eq_true _ _).mpr (Or.inl (f.hex c digit))

theorem suffix_shape :
    f.suffix = [] ∨ ∃ rest, f.suffix = '+' :: rest ∧ ∀ c ∈ rest, isAddressChar c = true := by
  unfold suffix
  cases found : f.offset with
  | none => exact Or.inl rfl
  | some ds =>
      refine Or.inr ⟨_, rfl, ?_⟩
      intro c member
      rcases List.mem_cons.mp member with rfl | rest
      · decide
      · rcases List.mem_cons.mp rest with rfl | digit
        · decide
        · exact (Bool.or_eq_true _ _).mpr (Or.inl ((f.offsetHex ds found).2 c digit))

theorem contains_text {part : String} (keyword : Keyword part.toList) :
    contains f.text part = contains f.sym part :=
  decide_eq_decide.mpr (keyword.in_symbol f.addr_plain f.suffix_shape)

/-- Lower case leaves the shape of the line as it is. -/
theorem contains_lower_text {part : String} (keyword : Keyword part.toList) :
    contains (lower f.text) part = contains (lower f.sym) part := by
  have shape : lower f.suffix = [] ∨
      ∃ rest, lower f.suffix = '+' :: rest ∧ ∀ c ∈ rest, isAddressChar c = true := by
    rcases f.suffix_shape with empty | ⟨rest, begins, plain⟩
    · rw [empty]
      exact Or.inl rfl
    · rw [begins]
      exact Or.inr ⟨lower rest, rfl, lower_address plain⟩
  have whole : lower f.text =
      lower f.addr ++ ' ' :: ':' :: ' ' :: (lower f.sym ++ lower f.suffix) := by
    rw [← lower_append]
    exact lower_append f.addr (' ' :: ':' :: ' ' :: (f.sym ++ f.suffix))
  rw [whole]
  exact decide_eq_decide.mpr (keyword.in_symbol (lower_address f.addr_plain) shape)

/-- A line is taken for a header or a panic line just if its symbol is. -/
theorem startsBacktrace_text :
    PanicLog.startsBacktrace f.text = PanicLog.startsBacktrace f.sym := by
  unfold PanicLog.startsBacktrace
  rw [f.contains_text ⟨by decide, by decide, by decide, 'k', by decide⟩,
    f.contains_text ⟨by decide, by decide, by decide, 'k', by decide⟩]

theorem startsPanic_text : PanicLog.startsPanic f.text = PanicLog.startsPanic f.sym := by
  unfold PanicLog.startsPanic
  rw [f.contains_lower_text ⟨by decide, by decide, by decide, '(', by decide⟩,
    f.contains_lower_text ⟨by decide, by decide, by decide, 'k', by decide⟩]

end PanicFrame

theorem rstrip_blank {s ending : Str} (blank : ∀ c ∈ ending, isSpace c = true) :
    rstrip (s ++ ending) = rstrip s := by
  unfold rstrip List.rdropWhile
  rw [List.reverse_append,
    List.dropWhile_append_of_pos (fun c member => blank c (List.mem_reverse.mp member))]

/-- Text behind anything keeps its end. -/
theorem rstrip_append {front back : Str} (filled : back ≠ []) (ends : rstrip back = back) :
    rstrip (front ++ back) = front ++ back := by
  refine List.rdropWhile_eq_self_iff.mpr (fun _ => ?_)
  rw [List.getLast_append_of_ne_nil _ filled]
  exact List.rdropWhile_eq_self_iff.mp ends filled

theorem strip_parts {s : Str} (stripped : strip s = s) :
    s.dropWhile isSpace = s ∧ rstrip s = s := by
  have shorter := (List.rdropWhile_prefix isSpace (l := s.dropWhile isSpace)).length_le
  have same : s.dropWhile isSpace = s := by
    apply (List.dropWhile_suffix isSpace).eq_of_length_le
    exact (congrArg List.length stripped).symm.trans_le shorter
  have ends : strip s = rstrip s := congrArg rstrip same
  exact ⟨same, ends.symm.trans stripped⟩

theorem matchOffset_eq_true {s : Str} (found : matchOffset s = true) :
    s = [] ∨ ∃ ds, ds ≠ [] ∧ (∀ c ∈ ds, isHexDigit c = true) ∧ s = '+' :: '0' :: 'x' :: ds := by
  unfold matchOffset at found
  split at found
  · exact Or.inl rfl
  · rename_i digit digits
    exact Or.inr ⟨digit :: digits, List.cons_ne_nil _ _, List.all_eq_true.mp found, rfl⟩
  · cases found

theorem matchAddress_digits {digits rest : Str} (hex : ∀ c ∈ digits, isHexDigit c = true)
    (long : 8 ≤ digits.length) (short : digits.length ≤ 16) :
    matchAddress ('0' :: 'x' :: (digits ++ ' ' :: ':' :: rest)) =
      some ('0' :: 'x' :: digits, rest.dropWhile isSpace) := by
  have taken : (digits ++ ' ' :: ':' :: rest).takeWhile isHexDigit = digits := by
    rw [List.takeWhile_append_of_pos hex]
    exact List.append_nil _
  have behind : (digits ++ ' ' :: ':' :: rest).dropWhile isHexDigit = ' ' :: ':' :: rest :=
    List.dropWhile_append_of_pos hex
  rw [matchAddress, taken, behind, if_pos ⟨long, short⟩]
  rfl

/-- The shortest symbol is all of it, if none of its ends reads as an offset. -/
theorem matchSymbol_append {s offset : Str} (filled : s ≠ []) (singleLine : '\n' ∉ s)
    (last : matchOffset offset = true)
    (none : ∀ front back, back ≠ [] → s = front ++ back → matchOffset (back ++ offset) = false) :
    matchSymbol (s ++ offset) = some s := by
  induction s with
  | nil => exact absurd rfl filled
  | cons c s ih =>
      have first : c ≠ '\n' := fun same => singleLine (same ▸ List.mem_cons_self)
      rw [List.cons_append, matchSymbol, if_neg first]
      by_cases empty : s = []
      · rw [empty, List.nil_append, if_pos last]
      · rw [none [c] s empty rfl, if_neg Bool.false_ne_true,
          ih empty (fun later => singleLine (List.mem_cons_of_mem _ later))
            (fun front back filled split =>
              none (c :: front) back filled (congrArg (c :: ·) split))]
        rfl

namespace PanicFrame

variable (f : PanicFrame)

theorem matchOffset_suffix : matchOffset f.suffix = true := by
  unfold suffix
  cases found : f.offset with
  | none => rfl
  | some ds =>
      obtain ⟨filled, hex⟩ := f.offsetHex ds found
      cases ds with
      | nil => exact absurd rfl filled
      | cons d ds => exact List.all_eq_true.mpr hex

/-- No end of the symbol reads as an offset, with the offset behind it or alone. -/
theorem matchOffset_sym {front back : Str} (filled : back ≠ []) (split : f.sym = front ++ back) :
    matchOffset (back ++ f.suffix) = false := by
  rw [← Bool.not_eq_true]
  intro found
  rcases matchOffset_eq_true found with empty | ⟨ds, more, hex, shape⟩
  · exact filled (List.append_eq_nil_iff.mp empty).1
  · rcases f.suffix_shape with none | ⟨rest, begins, _⟩
    · rw [none, List.append_nil] at shape
      exact f.noOffset front ds more hex (split.trans (congrArg (front ++ ·) shape))
    · -- the `+` of the offset would stand among the digits
      cases back with
      | nil => exact filled rfl
      | cons b back =>
          rw [begins, List.cons_append] at shape
          have plus : '+' ∈ '0' :: 'x' :: ds :=
            (List.cons.inj shape).2 ▸ List.mem_append_right back List.mem_cons_self
          have digit : '+' ∈ ds := by simpa using plus
          exact absurd (hex '+' digit) (by decide)

theorem matchSymbol_text : matchSymbol (f.sym ++ f.suffix) = some f.sym :=
  matchSymbol_append f.nonempty f.singleLine f.matchOffset_suffix
    (fun _ _ => f.matchOffset_sym)

theorem matchAddress_text : matchAddress f.text = some (f.addr, f.sym ++ f.suffix) := by
  have start : (f.sym ++ f.suffix).dropWhile isSpace = f.sym ++ f.suffix := by
    have front := (strip_parts f.stripped).1
    cases found : f.sym with
    | nil => exact absurd found f.nonempty
    | cons c rest =>
        rw [found, List.dropWhile_cons] at front
        rw [List.cons_append, List.dropWhile_cons]
        by_cases space : isSpace c
        · rw [if_pos space] at front
          have longer := (List.dropWhile_suffix isSpace (l := rest)).length_le
          rw [front, List.length_cons] at longer
          omega
        · rw [if_neg space]
  have matched := @matchAddress_digits f.digits (' ' :: (f.sym ++ f.suffix)) f.hex f.long f.short
  rw [List.dropWhile_cons_of_pos (by decide), start] at matched
  exact matched

theorem strip_text : strip f.text = f.text ∧ rstrip f.text = f.text := by
  have ends : rstrip (f.sym ++ f.suffix) = f.sym ++ f.suffix := by
    unfold suffix
    cases found : f.offset with
    | none => rw [List.append_nil, (strip_parts f.stripped).2]
    | some ds =>
        obtain ⟨filled, hex⟩ := f.offsetHex ds found
        have last : rstrip ds = ds := List.rdropWhile_eq_self_iff.mpr
          (fun more => isHexDigit_notSpace (hex _ (List.getLast_mem more)))
        have whole := @rstrip_append (f.sym ++ ['+', '0', 'x']) ds filled last
        rw [List.append_assoc] at whole
        exact whole
  have filled : f.sym ++ f.suffix ≠ [] := fun empty =>
    f.nonempty (List.append_eq_nil_iff.mp empty).1
  have whole : rstrip f.text = f.text := by
    have kept := @rstrip_append (f.addr ++ [' ', ':', ' ']) _ filled ends
    rw [List.append_assoc] at kept
    exact kept
  exact ⟨whole, whole⟩

theorem rstrip_line : rstrip f.line = f.text :=
  (rstrip_blank f.blank).trans f.strip_text.2

/-- The symbol of a frame line is found as it stands there. -/
theorem frameOf_text : PanicLog.frameOf f.text = some f.pair := by
  unfold PanicLog.frameOf backtraceRe
  rw [f.strip_text.1, f.matchAddress_text]
  show Option.map _ ((matchSymbol (f.sym ++ f.suffix)).bind _) = _
  rw [f.matchSymbol_text]
  exact congrArg (fun sym => some (f.addr, sym)) f.stripped

end PanicFrame

theorem matchAddress_suffix {s addr rest : Str} (matched : matchAddress s = some (addr, rest)) :
    rest <:+ s := by
  unfold matchAddress at matched
  split at matched
  · rename_i tail
    dsimp only at matched
    split at matched
    · split at matched
      · rename_i after behind
        obtain ⟨_, rfl⟩ := Prod.mk.inj (Option.some.inj matched)
        have colon : ':' :: after <:+ tail := by
          rw [← behind]
          exact (List.dropWhile_suffix _).trans (List.dropWhile_suffix _)
        exact (List.dropWhile_suffix _).trans
          ((List.suffix_cons _ _).trans (colon.trans (List.suffix_append ['0', 'x'] tail)))
      · cases matched
    · cases matched
  · cases matched

theorem matchSymbol_front {s sym : Str} (matched : matchSymbol s = some sym) : sym <+: s := by
  induction s generalizing sym with
  | nil => cases matched
  | cons c s ih =>
      rw [matchSymbol] at matched
      split at matched
      · cases matched
      · split at matched
        · rw [← Option.some.inj matched]
          exact List.cons_prefix_cons.mpr ⟨rfl, List.nil_prefix⟩
        · obtain ⟨rest, found, rfl⟩ := Option.map_eq_some_iff.mp matched
          exact List.cons_prefix_cons.mpr ⟨rfl, ih found⟩

theorem strip_within (s : Str) : strip s <:+: s :=
  (List.rdropWhile_prefix isSpace _).isInfix.trans (List.dropWhile_suffix isSpace).isInfix

/-- The symbol of a frame is a part of its line. -/
theorem frameOf_within {line addr sym : Str} (found : PanicLog.frameOf line = some (addr, sym)) :
    sym <:+: line := by
  obtain ⟨⟨addr', captured⟩, matched, shown⟩ := Option.map_eq_some_iff.mp found
  obtain ⟨_, rfl⟩ := Prod.mk.inj shown
  obtain ⟨⟨first, rest⟩, address, further⟩ := Option.bind_eq_some_iff.mp matched
  obtain ⟨symbol, matchedSymbol, same⟩ := Option.bind_eq_some_iff.mp further
  obtain ⟨_, rfl⟩ := Prod.mk.inj (Option.some.inj same)
  exact (strip_within symbol).trans ((matchSymbol_front matchedSymbol).isInfix.trans
    ((matchAddress_suffix address).isInfix.trans (strip_within line)))

theorem contains_part {s line : Str} {part : String} (within : s <:+: line)
    (found : contains s part = true) : contains line part = true :=
  decide_eq_true ((of_decide_eq_true found).trans within)

theorem startsBacktrace_part {s line : Str} (within : s <:+: line)
    (starts : PanicLog.startsBacktrace s = true) : PanicLog.startsBacktrace line = true :=
  (Bool.or_eq_true _ _).mpr
    (((Bool.or_eq_true _ _).mp starts).imp (contains_part within) (contains_part within))

theorem startsPanic_part {s line : Str} (within : s <:+: line)
    (starts : PanicLog.startsPanic s = true) : PanicLog.startsPanic line = true := by
  have lowered : lower s <:+: lower line := within.flatMap _
  exact (Bool.or_eq_true _ _).mpr
    (((Bool.or_eq_true _ _).mp starts).imp (contains_part lowered) (contains_part lowered))

/-- A log of one panic: the panic line, its description, the header, the frames and a blank
line. -/
structure PanicReport where
  panicLine : Str
  description : List Str
  headerEnding : Str
  frames : List PanicFrame
  blankLine : Str
  starts : PanicLog.startsPanic (rstrip panicLine) = true
  noBacktrace : ∀ line ∈ description, contains line "backtrace" = false
  headerBlank : ∀ c ∈ headerEnding, isSpace c = true
  filled : frames ≠ []
  blank : ∀ c ∈ blankLine, isSpace c = true

namespace PanicReport

variable (report : PanicReport)

def header : Str := "Backtrace:".toList ++ report.headerEnding

/-- What stands before the backtrace. -/
def front : List Str := report.panicLine :: report.description

def lines : List Str :=
  report.front ++ report.header :: (report.frames.map PanicFrame.line ++ [report.blankLine])

/-- No symbol holds a word that the line loop looks for. -/
def SymbolsApart : Prop :=
  ∀ f ∈ report.frames,
    PanicLog.startsBacktrace f.sym = false ∧ PanicLog.startsPanic f.sym = false

theorem header_header : panicSections.header report.header = true := by
  have whole : rstrip report.header = "Backtrace:".toList := rstrip_blank report.headerBlank
  show PanicLog.startsBacktrace (rstrip report.header) = true
  rw [whole]
  decide

theorem blankLine_item : panicSections.item report.blankLine = none := by
  have empty : rstrip report.blankLine = [] := List.rdropWhile_eq_nil_iff.mpr report.blank
  show PanicLog.frameOf (rstrip report.blankLine) = none
  rw [empty]
  rfl

/-- The frames of the report are those that the lines before its header have, and then those
of its backtrace. -/
theorem frames_eq : (parsePanicLog report.lines).backtraceFrames =
    (panicSections.read report.front).1 ++
      panicSections.collect (!(panicSections.read report.front).1.isEmpty) true
        (report.frames.map PanicFrame.line ++ [report.blankLine]) := by
  have read := congrArg Prod.fst (PanicLog.parsePanicLog_sections report.lines)
  refine read.trans ?_
  rw [lines, panicSections.read_continue, panicSections.collect_header report.header_header]

/-- With no such word in any symbol all of the backtrace is collected. -/
theorem collect_frames (apart : report.SymbolsApart) (had : Bool) :
    panicSections.collect had true (report.frames.map PanicFrame.line ++ [report.blankLine]) =
      report.frames.map PanicFrame.pair := by
  refine panicSections.collect_items ?_ report.blankLine_item had
  intro f member
  obtain ⟨header, interrupts⟩ := apart f member
  have item : PanicLog.frameOf (rstrip f.line) = some f.pair := by
    rw [f.rstrip_line, f.frameOf_text]
  refine ⟨?_, ?_, ?_, item⟩
  · show PanicLog.startsBacktrace (rstrip f.line) = false
    rw [f.rstrip_line, f.startsBacktrace_text, header]
  · show PanicLog.startsPanic (rstrip f.line) = false
    rw [f.rstrip_line, f.startsPanic_text, interrupts]
  · rw [← Bool.not_eq_true]
    intro blank
    have missing := blank_noFrame f.line blank
    rw [show panicSections.item f.line = some f.pair from item] at missing
    cases missing

/-- A symbol that is collected holds no such word. -/
theorem frames_apart
    (collected : (parsePanicLog report.lines).backtraceFrames = report.frames.map PanicFrame.pair) :
    report.SymbolsApart := by
  intro f member
  have found : f.pair ∈ panicSections.collect false false report.lines := by
    rw [← panicSections.read_eq, ← congrArg Prod.fst (PanicLog.parsePanicLog_sections report.lines)]
    exact (congrArg (f.pair ∈ ·) collected).mpr (List.mem_map_of_mem member)
  obtain ⟨line, _, header, interrupts, item⟩ := panicSections.collect_mem found
  have within : f.sym <:+: rstrip line := frameOf_within item
  constructor
  · rw [← Bool.not_eq_true]
    intro starts
    exact Bool.false_ne_true (header.symm.trans (startsBacktrace_part within starts))
  · rw [← Bool.not_eq_true]
    intro starts
    exact Bool.false_ne_true (interrupts.symm.trans (startsPanic_part within starts))

end PanicReport

/-- A frame line with a symbol free of `+`. -/
def PanicFrame.ofSymbol (sym : Str) (nonempty : sym ≠ []) (singleLine : '\n' ∉ sym)
    (stripped : strip sym = sym) (plus : '+' ∉ sym) : PanicFrame where
  digits := "ffffff8000200000".toList
  sym := sym
  offset := some "1d".toList
  ending := ['\n']
  hex := List.all_eq_true.mp (by decide)
  long := by decide
  short := by decide
  nonempty := nonempty
  singleLine := singleLine
  stripped := stripped
  noOffset := by
    rintro front ds _ _ rfl
    exact plus (List.mem_append_right _ List.mem_cons_self)
  offsetHex := by
    rintro ds ⟨⟩
    exact ⟨by decide, List.all_eq_true.mp (by decide)⟩
  blank := List.all_eq_true.mp (by decide)

/-- The frame of a function whose name speaks of a backtrace is lost. -/
theorem backtrace_symbol_lost : ∃ report : PanicReport,
    report.lines = ["panic(cpu 0 caller 0xffffff8000200000): \"zone\"\n".toList,
      "Backtrace:\n".toList, "0xffffff8000200000 : _panic+0x1d\n".toList,
      "0xffffff8000200000 : _OSReportWithBacktrace+0x1d\n".toList, "\n".toList] ∧
    (parsePanicLog report.lines).backtraceFrames ≠ report.frames.map PanicFrame.pair := by
  let report : PanicReport :=
    { panicLine := "panic(cpu 0 caller 0xffffff8000200000): \"zone\"\n".toList
      description := []
      headerEnding := ['\n']
      frames := [.ofSymbol "_panic".toList (by decide) (by decide) (by decide) (by decide),
        .ofSymbol "_OSReportWithBacktrace".toList (by decide) (by decide) (by decide) (by decide)]
      blankLine := ['\n']
      starts := by decide +kernel
      noBacktrace := List.forall_mem_nil _
      headerBlank := List.all_eq_true.mp (by decide)
      filled := List.cons_ne_nil _ _
      blank := List.all_eq_true.mp (by decide) }
  exact ⟨report, by decide +kernel, by decide +kernel⟩

/-- The frames of a backtrace are all collected, in order and without their offsets, exactly
if no symbol holds one of the words that open or close a section, and no line before the
header reads as a frame of a section that an earlier line has opened. -/
theorem parsePanicLog_frames (report : PanicReport) :
    (parsePanicLog report.lines).backtraceFrames = report.frames.map PanicFrame.pair ↔
      report.SymbolsApart ∧ ¬ panicSections.SectionItem report.front := by
  have before : (panicSections.read report.front).1 = [] ↔
      ¬ panicSections.SectionItem report.front := by
    have found := panicSections.collect_ne_nil_iff false report.front
    rw [← panicSections.read_eq] at found
    simpa using not_congr found
  rw [← before]
  constructor
  · intro collected
    have apart := report.frames_apart collected
    refine ⟨apart, ?_⟩
    rw [report.frames_eq, report.collect_frames apart] at collected
    exact List.append_left_eq_self.mp collected
  · rintro ⟨apart, none⟩
    rw [report.frames_eq, report.collect_frames apart, none]
    rfl

end Julius

