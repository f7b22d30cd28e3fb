import Julius.Lib.Regex
import Julius.Tools.PanicFrames

set_option autoImplicit false

/- The regular expressions of tools/panic-parse.py, and the matchers that stand for them. -/
namespace Julius

open Regex (Pattern)

/-- `$`: at the end, or before a newline that ends the string. -/
def atDollar (s : Str) : Bool := decide (s = [] ∨ s = ['\n'])

/-- `.` -/
def isDot (c : Char) : Bool := decide (c ≠ '\n')

/-- `(?:\+0x[0-9a-fA-F]+)?$` -/
def offsetPattern : Pattern Char :=
  .seq (.maybe (.seq (.literal "+0x".toList) (.many true 1 none isHexDigit))) (.looks atDollar)

/-- `(.+?)(?:\+0x[0-9a-fA-F]+)?$` -/
def symbolPattern : Pattern Char := .seq (.group (.many false 1 none isDot)) offsetPattern

/-- `\s*:\s*` and the symbol -/
def colonPattern : Pattern Char :=
  .seq (.many true 0 none isSpace)
    (.seq (.one (fun c => decide (c = ':'))) (.seq (.many true 0 none isSpace) symbolPattern))

/-- `BACKTRACE_RE` -/
def backtracePattern : Pattern Char :=
  .seq (.group (.seq (.literal "0x".toList) (.many true 8 (some 16) isHexDigit))) colonPattern

/-- `\s+(0x[0-9a-fA-F]+)` -/
def basePattern : Pattern Char :=
  .seq (.many true 1 none isSpace)
    (.group (.seq (.literal "0x".toList) (.many true 1 none isHexDigit)))

/-- `KEXT_RE` -/
def kextPattern : Pattern Char :=
  .seq (.group (.seq (.literal "com.".toList) (.many true 1 none isKextChar)))
    (.seq (.many true 1 none isSpace) (.seq (.one (fun c => decide (c = '@'))) basePattern))

/-- `m.group(1)` and `m.group(2)` -/
def firstTwo : List Str → Option (Str × Str)
  | first :: second :: _ => some (first, second)
  | _ => none

/-- The last character of a text is no space. -/
def Trimmed (s : Str) : Prop := ∀ c ∈ s.getLast?, isSpace c = false

theorem Trimmed.of_suffix {s t : Str} (trimmed : Trimmed s) (ends : t <:+ s) : Trimmed t := by
  obtain ⟨front, rfl⟩ := ends
  intro c last
  apply trimmed c
  rw [List.getLast?_append, Option.mem_def.mp last]
  rfl

theorem Trimmed.empty {s : Str} (trimmed : Trimmed s) (blank : s.dropWhile isSpace = []) :
    s = [] := by
  by_contra filled
  have space := List.dropWhile_eq_nil_iff.mp blank _ (List.getLast_mem filled)
  rw [trimmed _ (List.getLast?_eq_some_getLast filled)] at space
  cases space

theorem strip_trimmed (line : Str) : Trimmed (strip line) := by
  intro c last
  have kept := @List.rdropWhile_last_not _ isSpace (line.dropWhile isSpace)
  obtain ⟨filled, same⟩ := List.mem_getLast?_eq_getLast last
  rw [same]
  exact Bool.eq_false_iff.mpr (kept filled)

theorem atDollar_trimmed {s : Str} (trimmed : Trimmed s) : atDollar s = decide (s = []) := by
  have newline : s ≠ ['\n'] := by
    rintro rfl
    exact absurd (trimmed '\n' rfl) (by decide)
  unfold atDollar
  exact decide_eq_decide.mpr ⟨fun either => either.resolve_right newline, Or.inl⟩

theorem looks_trimmed {s : Str} (trimmed : Trimmed s) :
    (Pattern.looks atDollar).results s = if s = [] then [([], [])] else [] := by
  rw [Pattern.results, atDollar_trimmed trimmed]
  by_cases empty : s = []
  · rw [if_pos (decide_eq_true empty), if_pos empty, empty]
  · rw [if_neg (fun same => empty (of_decide_eq_true same)), if_neg empty]

theorem isHexDigit_apart (c : Char) (s : Str) (hex : isHexDigit c = true) :
    (Pattern.looks atDollar).results (c :: s) = [] := by
  have more : atDollar (c :: s) = false := by
    have newline : c ≠ '\n' := by
      rintro rfl
      exact absurd hex (by decide)
    simp [atDollar, newline]
  rw [Pattern.results, more]
  rfl

theorem matchOffset_digits (digits : Str) : matchOffset ('+' :: '0' :: 'x' :: digits) =
    decide (1 ≤ (digits.takeWhile isHexDigit).length ∧ digits.dropWhile isHexDigit = []) := by
  cases digits with
  | nil => rfl
  | cons digit rest =>
      show (digit :: rest).all isHexDigit = _
      rw [Bool.eq_iff_iff, decide_eq_true_iff, List.all_eq_true, List.dropWhile_eq_nil_iff]
      constructor
      · intro hex
        refine ⟨?_, hex⟩
        rw [List.takeWhile_cons_of_pos (hex digit List.mem_cons_self)]
        exact Nat.succ_pos _
      · exact And.right

theorem matchOffset_other {t : Str} (filled : t ≠ []) (other : ¬ "+0x".toList <+: t) :
    matchOffset t = false := by
  unfold matchOffset
  split
  · exact absurd rfl filled
  · exact absurd ⟨_, rfl⟩ other
  · rfl

/-- The offset may be left out, but then the end has to come at once. -/
theorem offsetPattern_results {t : Str} (trimmed : Trimmed t) :
    offsetPattern.results t = if matchOffset t then [([], [])] else [] := by
  rw [offsetPattern, Pattern.results_maybe_seq, Pattern.results_text_seq, looks_trimmed trimmed]
  by_cases front : "+0x".toList <+: t
  · obtain ⟨digits, rfl⟩ := front
    have rest : Trimmed (digits.dropWhile isHexDigit) :=
      trimmed.of_suffix ((List.dropWhile_suffix _).trans (List.suffix_append _ digits))
    have filled : "+0x".toList ++ digits ≠ [] := List.cons_ne_nil _ _
    rw [if_pos (List.prefix_append _ digits), if_neg filled, List.append_nil, List.drop_left,
      Regex.leaves_apart _ isHexDigit_apart, looks_trimmed rest,
      show "+0x".toList ++ digits = '+' :: '0' :: 'x' :: digits from rfl, matchOffset_digits]
    by_cases some : 1 ≤ (digits.takeWhile isHexDigit).length
    · have within : Regex.Within 1 none (digits.takeWhile isHexDigit).length :=
        ⟨some, fun _ none => by cases none⟩
      simp only [if_pos within, some, true_and, decide_eq_true_eq]
    · have outside : ¬ Regex.Within 1 none (digits.takeWhile isHexDigit).length :=
        fun within => some within.1
      simp only [if_neg outside, some, false_and, decide_false, Bool.false_eq_true, if_false]
  · rw [if_neg front, List.nil_append]
    by_cases empty : t = []
    · rw [if_pos empty, empty]
      rfl
    · rw [if_neg empty, matchOffset_other empty front]
      rfl

/-- The ways to match a symbol and its offset: those of the ends of the symbol that the offset
and the end of the line may follow, the first end first. -/
theorem symbolPattern_results {s : Str} (trimmed : Trimmed s) :
    symbolPattern.results s = (Regex.leaves false isDot 1 none s).flatMap
      (fun t => if matchOffset t then [([Regex.before s t], [])] else []) := by
  rw [symbolPattern, Pattern.results_seq, Pattern.results_group, Pattern.results, List.map_map,
    List.flatMap_map]
  apply List.flatMap_congr
  intro t member
  show (offsetPattern.results t).map _ = _
  rw [offsetPattern_results (trimmed.of_suffix (Regex.leaves_suffix member))]
  split <;> rfl

/-- The first of them is the one that `matchSymbol` finds. -/
theorem symbolPattern_first {s : Str} (trimmed : Trimmed s) :
    (symbolPattern.results s).head? = (matchSymbol s).map (fun sym => ([sym], [])) := by
  rw [symbolPattern_results trimmed]
  clear trimmed
  induction s with
  | nil => rfl
  | cons c s ih =>
      rw [Regex.leaves_lazy, matchSymbol]
      by_cases newline : c = '\n'
      · have stop : isDot c ≠ true := by simp [isDot, newline]
        rw [if_pos newline, if_neg stop]
        rfl
      · have dot : isDot c = true := by simp [isDot, newline]
        rw [if_neg newline, if_pos dot, List.flatMap_cons]
        by_cases ends : matchOffset s = true
        · have single : Regex.before (c :: s) s = [c] := Regex.before_append [c] s
          rw [if_pos ends, if_pos ends, single]
          rfl
        · -- the symbol goes on: every later end has `c` in front
          have further : (Regex.leaves false isDot 1 none s).flatMap
                (fun t => if matchOffset t then [([Regex.before (c :: s) t], ([] : Str))] else []) =
              ((Regex.leaves false isDot 1 none s).flatMap
                (fun t => if matchOffset t then [([Regex.before s t], ([] : Str))] else [])).map
                (fun b => (b.1.map (c :: ·), b.2)) := by
            rw [List.map_flatMap]
            apply List.flatMap_congr
            intro t member
            rw [Regex.before_cons c (Regex.leaves_suffix member).length_le]
            split <;> rfl
          rw [if_neg ends, if_neg ends, List.nil_append, further, List.head?_map, ih,
            Option.map_map, Option.map_map]
          rfl

theorem matchOffset_oneLine {t : Str} (offset : matchOffset t = true) : '\n' ∉ t := by
  intro member
  unfold matchOffset at offset
  split at offset
  · cases member
  · have last := List.all_eq_true.mp offset
    have digit := last '\n' (by simpa using member)
    exact absurd digit (by decide)
  · cases offset

/-- No symbol is found in an empty text, and in one that a newline breaks. -/
theorem matchSymbol_none {s : Str} (missing : matchSymbol s = none) : s = [] ∨ '\n' ∈ s := by
  induction s with
  | nil => exact Or.inl rfl
  | cons c s ih =>
      right
      rw [matchSymbol] at missing
      by_cases newline : c = '\n'
      · exact newline ▸ List.mem_cons_self
      · rw [if_neg newline] at missing
        by_cases ends : matchOffset s = true
        · rw [if_pos ends] at missing
          cases missing
        · rw [if_neg ends, Option.map_eq_none_iff] at missing
          rcases ih missing with rfl | later
          · exact absurd rfl ends
          · exact List.mem_cons_of_mem _ later

theorem matchSymbol_broken {s : Str} (broken : '\n' ∈ s) : matchSymbol s = none := by
  induction s with
  | nil => rfl
  | cons c s ih =>
      rw [matchSymbol]
      by_cases newline : c = '\n'
      · rw [if_pos newline]
      · have later : '\n' ∈ s := (List.mem_cons.mp broken).resolve_left (Ne.symm newline)
        rw [if_neg newline, if_neg (fun ends => matchOffset_oneLine ends later), ih later]
        rfl

/-- The spaces before a symbol are all skipped: giving one of them back helps no match. -/
theorem spacesThenSymbol_first {s : Str} (trimmed : Trimmed s) :
    ((Pattern.seq (.many true 0 none isSpace) symbolPattern).results s).head? =
      (matchSymbol (s.dropWhile isSpace)).map (fun sym => ([sym], [])) := by
  obtain ⟨others, tried, between⟩ := @Regex.leaves_greedy _ isSpace s
  have here := symbolPattern_first (trimmed.of_suffix (List.dropWhile_suffix isSpace))
  rw [Pattern.results_many_seq, tried, List.flatMap_cons]
  cases found : matchSymbol (s.dropWhile isSpace) with
  | some sym =>
      rw [found] at here
      obtain ⟨rest, results⟩ := List.head?_eq_some_iff.mp here
      rw [results]
      rfl
  | none =>
      rw [found] at here
      have nothing : ∀ t ∈ others, symbolPattern.results t = [] := by
        intro t member
        obtain ⟨longer, ends⟩ := between t member
        have missing : matchSymbol t = none := by
          rcases matchSymbol_none found with empty | broken
          · rw [trimmed.empty empty] at ends
            rw [List.suffix_nil.mp ends]
            rfl
          · exact matchSymbol_broken (longer.subset broken)
        have first := symbolPattern_first (trimmed.of_suffix ends)
        rw [missing] at first
        exact List.head?_eq_none_iff.mp first
      rw [List.head?_eq_none_iff.mp here, List.nil_append, List.flatMap_eq_nil_iff.mpr nothing]
      rfl

theorem one_apart {c mark : Char} (other : c ≠ mark) (follow : Pattern Char) (s : Str) :
    (Pattern.seq (.one (fun d => decide (d = mark))) follow).results (c :: s) = [] := by
  rw [Pattern.results_seq, Pattern.results_one, if_neg (fun same => other (of_decide_eq_true same))]
  rfl

theorem one_found (mark : Char) (follow : Pattern Char) (s : Str) :
    (Pattern.seq (.one (fun d => decide (d = mark))) follow).results (mark :: s) =
      follow.results s := by
  rw [Pattern.results_seq, Pattern.results_one, if_pos (decide_eq_true rfl), List.flatMap_cons,
    List.flatMap_nil, List.append_nil, Pattern.results_bare]

theorem isSpace_ne {c mark : Char} (visible : isSpace mark = false) (space : isSpace c = true) :
    c ≠ mark := by
  rintro rfl
  rw [visible] at space
  cases space

/-- Spaces and a mark that is none: all the spaces are taken. -/
theorem spacesThenMark_results {least : Nat} {mark : Char} (visible : isSpace mark = false)
    (follow : Pattern Char) (s : Str) :
    (Pattern.seq (.many true least none isSpace)
        (.seq (.one (fun d => decide (d = mark))) follow)).results s =
      if least ≤ (s.takeWhile isSpace).length then
        (Pattern.seq (.one (fun d => decide (d = mark))) follow).results (s.dropWhile isSpace)
      else [] := by
  rw [Pattern.results_many_seq, Regex.leaves_apart _
    (fun c t space => one_apart (isSpace_ne visible space) follow t)]
  exact if_congr ⟨fun within => within.1, fun enough => ⟨enough, fun _ none => by cases none⟩⟩
    rfl rfl

/-- Behind the digits of an address nothing but spaces and a colon goes on. -/
theorem colonPattern_apart (c : Char) (s : Str) (hex : isHexDigit c = true) :
    colonPattern.results (c :: s) = [] := by
  have other : c ≠ ':' := by
    rintro rfl
    exact absurd hex (by decide)
  rw [colonPattern, spacesThenMark_results (by decide),
    List.dropWhile_cons_of_neg (isHexDigit_notSpace hex), one_apart other, ite_self]

/-- `BACKTRACE_RE.match` on a line without spaces at its end. -/
theorem backtracePattern_matchAt {s : Str} (trimmed : Trimmed s) :
    backtracePattern.matchAt s = (backtraceRe s).map (fun found => [found.1, found.2]) := by
  rw [Pattern.matchAt_eq, backtracePattern]
  by_cases front : "0x".toList <+: s
  · obtain ⟨rest, rfl⟩ := front
    have behind : Trimmed (rest.dropWhile isHexDigit) :=
      trimmed.of_suffix ((List.dropWhile_suffix _).trans (List.suffix_append _ rest))
    have counts : Regex.Within 8 (some 16) (rest.takeWhile isHexDigit).length ↔
        8 ≤ (rest.takeWhile isHexDigit).length ∧ (rest.takeWhile isHexDigit).length ≤ 16 := by
      simp [Regex.Within]
    rw [Pattern.results_group_seq _ _ colonPattern_apart, backtraceRe,
      show "0x".toList ++ rest = '0' :: 'x' :: rest from rfl, matchAddress]
    dsimp only
    by_cases within : 8 ≤ (rest.takeWhile isHexDigit).length ∧
        (rest.takeWhile isHexDigit).length ≤ 16
    · rw [if_pos (counts.mpr within), if_pos within, List.head?_map, colonPattern,
        spacesThenMark_results (by decide), if_pos (Nat.zero_le _)]
      have after : Trimmed ((rest.dropWhile isHexDigit).dropWhile isSpace) :=
        behind.of_suffix (List.dropWhile_suffix _)
      cases colon : (rest.dropWhile isHexDigit).dropWhile isSpace with
      | nil => rfl
      | cons c tail =>
          rw [colon] at after
          by_cases same : c = ':'
          · subst same
            rw [one_found, spacesThenSymbol_first (after.of_suffix (List.suffix_cons _ _))]
            show Option.map Prod.fst (Option.map _ (Option.map _ _)) =
              Option.map _ ((matchSymbol (tail.dropWhile isSpace)).bind _)
            cases matchSymbol (tail.dropWhile isSpace) <;> rfl
          · rw [one_apart same]
            split
            · rename_i split
              exact absurd (List.cons.inj split).1 same
            · rfl
    · rw [if_neg (fun both => within (counts.mp both)), if_neg within]
      rfl
  · rw [Pattern.results_group_absent front, backtraceRe, matchAddress.eq_def]
    split
    · exact absurd ⟨_, rfl⟩ front
    · rfl

/-- The matcher for frames is `BACKTRACE_RE`, on every line that the loop gives it. -/
theorem backtraceRe_pattern (line : Str) :
    backtraceRe (strip line) = (backtracePattern.matchAt (strip line)).bind firstTwo := by
  rw [backtracePattern_matchAt (strip_trimmed line)]
  cases backtraceRe (strip line) <;> rfl

theorem isAlphanum_small {c : Char} (alphanum : c.isAlphanum = true) : c.toNat < 128 := by
  have below : ∀ limit : UInt32, limit.toNat < 128 → c.val ≤ limit → c.toNat < 128 := by
    intro limit small upper
    exact Nat.lt_of_le_of_lt (UInt32.le_iff_toNat_le.mp upper) small
  rcases (Bool.or_eq_true _ _).mp alphanum with alpha | digit
  · rcases (Bool.or_eq_true _ _).mp alpha with capital | small
    · exact below 90 (by decide) (of_decide_eq_true capital).2
    · exact below 122 (by decide) (of_decide_eq_true ((Bool.and_eq_true _ _).mp small).2)
  · exact below 57 (by decide) (of_decide_eq_true ((Bool.and_eq_true _ _).mp digit).2)

theorem isKextChar_notSpace {c : Char} (kext : isKextChar c = true) : ¬ isSpace c = true := by
  have small : c.toNat < 128 := by
    rw [isKextChar, Bool.or_eq_true, Bool.or_eq_true, Bool.or_eq_true] at kext
    rcases kext with ((alphanum | dot) | line) | dash
    · exact isAlphanum_small alphanum
    · rw [of_decide_eq_true dot]
      decide
    · rw [of_decide_eq_true line]
      decide
    · rw [of_decide_eq_true dash]
      decide
  exact @of_ascii (fun c => isKextChar c = true → ¬ isSpace c = true) (by decide) c small kext

theorem matchSpaces_eq (s : Str) : matchSpaces s =
    if 1 ≤ (s.takeWhile isSpace).length then some (s.dropWhile isSpace) else none := by
  unfold matchSpaces
  cases s.takeWhile isSpace with
  | nil => rfl
  | cons c rest =>
      rw [if_pos (show 1 ≤ (c :: rest).length from Nat.succ_pos _)]
      rfl

/-- The base address of a kext, from the spaces before it on. -/
def kextBase (s : Str) : Option Str := do
  match ← matchSpaces s with
  | '0' :: 'x' :: rest =>
      let digits := rest.takeWhile isHexDigit
      if digits.isEmpty then none
      return "0x".toList ++ digits
  | _ => none

theorem group_apart {c : Char} {s : Str} (other : c ≠ '0') :
    (Pattern.group (.seq (.literal "0x".toList) (.many true 1 none isHexDigit))).results (c :: s) =
      [] := by
  have absent : ¬ "0x".toList <+: c :: s := by
    rintro ⟨rest, same⟩
    exact other (List.cons.inj same).1.symm
  rw [Pattern.results_group, Pattern.results_text_many, if_neg absent]
  rfl

theorem basePattern_first (s : Str) :
    (basePattern.results s).head?.map Prod.fst = (kextBase s).map (fun base => [base]) := by
  rw [basePattern, Pattern.results_many_seq, Regex.leaves_apart _
    (fun c t space => group_apart (isSpace_ne (by decide) space)), kextBase, matchSpaces_eq]
  by_cases spaces : 1 ≤ (s.takeWhile isSpace).length
  · rw [if_pos ⟨spaces, fun _ none => by cases none⟩, if_pos spaces]
    by_cases front : "0x".toList <+: s.dropWhile isSpace
    · obtain ⟨rest, found⟩ := front
      have split : "0x".toList ++ rest =
          ("0x".toList ++ rest.takeWhile isHexDigit) ++ rest.dropWhile isHexDigit := by
        rw [List.append_assoc, List.takeWhile_append_dropWhile]
      rw [← found, Pattern.results_group, Pattern.results_text_many,
        if_pos (List.prefix_append _ rest), List.drop_left, List.head?_map, List.head?_map,
        Regex.leaves_greedy_one]
      show _ = Option.map _ (if (rest.takeWhile isHexDigit).isEmpty then none else
        some ("0x".toList ++ rest.takeWhile isHexDigit))
      by_cases empty : rest.takeWhile isHexDigit = []
      · rw [if_pos empty, if_pos (List.isEmpty_iff.mpr empty)]
        rfl
      · rw [if_neg empty, if_neg (fun none => empty (List.isEmpty_iff.mp none))]
        have captured : Regex.before ("0x".toList ++ rest) (rest.dropWhile isHexDigit) =
            "0x".toList ++ rest.takeWhile isHexDigit := by
          rw [split]
          exact Regex.before_append _ _
        exact congrArg (fun base => some [base]) captured
    · rw [Pattern.results_group, Pattern.results_text_many, if_neg front]
      show _ = Option.map _ (Option.bind (some (s.dropWhile isSpace)) _)
      rw [Option.bind_some]
      split
      · rename_i tail found
        exact absurd ⟨tail, found.symm⟩ front
      · rfl
  · rw [if_neg (fun within => spaces within.1), if_neg spaces]
    rfl

/-- What stands behind the name of a kext. -/
theorem atPattern_results (s : Str) :
    (Pattern.seq (.many true 1 none isSpace)
        (.seq (.one (fun c => decide (c = '@'))) basePattern)).results s =
      match matchSpaces s with
      | some ('@' :: rest) => basePattern.results rest
      | _ => [] := by
  rw [spacesThenMark_results (by decide), matchSpaces_eq]
  by_cases spaces : 1 ≤ (s.takeWhile isSpace).length
  · rw [if_pos spaces, if_pos spaces]
    cases s.dropWhile isSpace with
    | nil => rfl
    | cons c rest =>
        by_cases same : c = '@'
        · rw [same, one_found]
          rfl
        · rw [one_apart same]
          split
          · rename_i split
            exact absurd (List.cons.inj (Option.some.inj split)).1 same
          · rfl
  · rw [if_neg spaces, if_neg spaces]

theorem atPattern_apart (c : Char) (s : Str) (kext : isKextChar c = true) :
    (Pattern.seq (.many true 1 none isSpace)
      (.seq (.one (fun c => decide (c = '@'))) basePattern)).results (c :: s) = [] := by
  have none : List.takeWhile isSpace (c :: s) = [] :=
    List.takeWhile_cons_of_neg (isKextChar_notSpace kext)
  rw [atPattern_results, matchSpaces_eq, none]
  rfl

/-- A kext by its name, and the base address behind the `@`. -/
theorem kextReAt_eq (rest : Str) : kextReAt ('c' :: 'o' :: 'm' :: '.' :: rest) =
    if rest.takeWhile isKextChar = [] then none
    else match matchSpaces (rest.dropWhile isKextChar) with
      | some ('@' :: behind) =>
          (kextBase behind).map (fun base => ("com.".toList ++ rest.takeWhile isKextChar, base))
      | _ => none := by
  rw [kextReAt]
  dsimp only
  by_cases named : rest.takeWhile isKextChar = []
  · rw [if_pos named, named]
    rfl
  · rw [if_neg named, if_neg (fun empty => named (List.isEmpty_iff.mp empty))]
    generalize matchSpaces (rest.dropWhile isKextChar) = marked
    split
    · rename_i behind
      show (matchSpaces behind).bind _ = _
      rw [kextBase]
      cases matchSpaces behind with
      | none => rfl
      | some base =>
          dsimp only [Option.bind_eq_bind, Option.bind_some]
          by_cases front : ∃ digits, base = '0' :: 'x' :: digits
          · obtain ⟨found, rfl⟩ := front
            show (if (found.takeWhile isHexDigit).isEmpty then _ else _) =
              Option.map _ (if (found.takeWhile isHexDigit).isEmpty then _ else _)
            split <;> rfl
          · -- neither side has a base address to show
            refine Eq.trans (b := none) ?_ (Eq.symm ?_)
            · split
              · exact absurd ⟨_, rfl⟩ front
              · rfl
            · split
              · exact absurd ⟨_, rfl⟩ front
              · rfl
    · rename_i other
      cases marked with
      | none => rfl
      | some marked =>
          rw [Option.bind_eq_bind, Option.bind_some]
          split
          · rename_i behind
            exact absurd rfl (other behind)
          · rfl

/-- `KEXT_RE` at the start of a text. -/
theorem kextPattern_matchAt (s : Str) :
    kextPattern.matchAt s = (kextReAt s).map (fun found => [found.1, found.2]) := by
  rw [Pattern.matchAt_eq, kextPattern]
  by_cases front : "com.".toList <+: s
  · obtain ⟨rest, rfl⟩ := front
    rw [Pattern.results_group_seq _ _ atPattern_apart,
      show "com.".toList ++ rest = 'c' :: 'o' :: 'm' :: '.' :: rest from rfl, kextReAt_eq]
    by_cases named : rest.takeWhile isKextChar = []
    · rw [named, if_neg (fun within => absurd within.1 (Nat.not_succ_le_zero 0)), if_pos rfl]
      rfl
    · have within : Regex.Within 1 none (rest.takeWhile isKextChar).length :=
        ⟨List.length_pos_iff.mpr named, fun _ none => by cases none⟩
      rw [if_pos within, if_neg named, atPattern_results]
      split
      · rename_i behind found
        rw [List.head?_map, Option.map_map, Option.map_map]
        have base := congrArg (Option.map (("com.".toList ++ rest.takeWhile isKextChar) :: ·))
          (basePattern_first behind)
        rw [Option.map_map, Option.map_map] at base
        exact base
      · rfl
  · rw [Pattern.results_group_absent front, kextReAt.eq_def]
    split
    · exact absurd ⟨_, rfl⟩ front
    · rfl

/-- The matcher for kexts is a search for `KEXT_RE`, on every line. -/
theorem kextRe_pattern (line : Str) : kextRe line = (kextPattern.search line).bind firstTwo := by
  induction line with
  | nil =>
      rw [Pattern.search, kextPattern_matchAt]
      rfl
  | cons c line ih =>
      rw [Pattern.search, kextPattern_matchAt, kextRe, ih]
      cases kextReAt (c :: line) <;> rfl

end Julius
