import Mathlib.Data.List.Basic

set_option autoImplicit false

/- Collecting items from the sections of a log, line by line. A blank line closes a
section only once something was collected. -/

/-- How a line is read. A line that interrupts closes any section, a header opens one. -/
structure Sections (line item : Type) where
  interrupts : line → Bool
  header : line → Bool
  item : line → Option item
  blank : line → Bool

namespace Sections

variable {line item : Type}

/-- One line, on the items so far and whether a section is open. -/
def step (S : Sections line item) (state : List item × Bool) (l : line) : List item × Bool :=
  if S.header l then (state.1, true)
  else if state.2 && !S.interrupts l then
    let items := state.1 ++ (S.item l).toList
    (items, !(S.blank l && !items.isEmpty))
  else (state.1, false)

/-- A whole log. -/
def read (S : Sections line item) (lines : List line) : List item × Bool :=
  lines.foldl S.step ([], false)

/-- The items that `lines` add, where `had` tells whether there were any before and
`inside` whether a section is open. -/
def collect (S : Sections line item) : Bool → Bool → List line → List item
  | _, _, [] => []
  | had, inside, l :: rest =>
      if S.header l then S.collect had true rest
      else if inside && !S.interrupts l then
        match S.item l with
        | some item => item :: S.collect true (!S.blank l) rest
        | none => S.collect had (!(S.blank l && had)) rest
      else S.collect had false rest

/-- Looks for the first item of a log, and finds whether a blank line stands between it
and its header. `blank` tells whether one was seen in the open section. -/
def firstItem (S : Sections line item) : Bool → Bool → List line → Option Bool
  | _, _, [] => none
  | inside, blank, l :: rest =>
      if S.header l then S.firstItem true false rest
      else if inside && !S.interrupts l then
        match S.item l with
        | some _ => some blank
        | none => S.firstItem true (blank || S.blank l) rest
      else S.firstItem false false rest

variable (S : Sections line item)

/-- Whether a section is open behind a line. -/
theorem step_inside (state : List item × Bool) (l : line) :
    (S.step state l).2 = (S.header l || (state.2 && !S.interrupts l &&
      !(S.blank l && !(state.1 ++ (S.item l).toList).isEmpty))) := by
  unfold step
  cases S.header l with
  | true => rfl
  | false =>
      rw [if_neg Bool.false_ne_true, Bool.false_or]
      by_cases reads : state.2 && !S.interrupts l
      · rw [if_pos reads, reads, Bool.true_and]
      · rw [if_neg reads, Bool.eq_false_iff.mpr reads, Bool.false_and]

theorem foldl_step (items : List item) (inside : Bool) (lines : List line) :
    (lines.foldl S.step (items, inside)).1 = items ++ S.collect (!items.isEmpty) inside lines := by
  induction lines generalizing items inside with
  | nil => exact (List.append_nil _).symm
  | cons l rest ih =>
      rw [List.foldl_cons, collect, step]
      dsimp only
      by_cases header : S.header l
      · rw [if_pos header, if_pos header]
        exact ih items true
      · rw [if_neg header, if_neg header]
        by_cases reads : inside && !S.interrupts l
        · rw [if_pos reads, if_pos reads, ih]
          cases S.item l with
          | none => rw [Option.toList_none, List.append_nil]
          | some item =>
              have filled : (items ++ [item]).isEmpty = false := by cases items <;> rfl
              rw [Option.toList_some, filled, List.append_assoc, Bool.not_false, Bool.and_true]
              rfl
        · rw [if_neg reads, if_neg reads]
          exact ih items false

theorem read_eq (lines : List line) : (S.read lines).1 = S.collect false false lines :=
  S.foldl_step [] false lines

/-- A log continued: its items, and those the continuation adds to them. -/
theorem read_continue (first second : List line) :
    (S.read (first ++ second)).1 =
      (S.read first).1 ++ S.collect (!(S.read first).1.isEmpty) (S.read first).2 second := by
  rw [← S.foldl_step (S.read first).1 (S.read first).2 second]
  exact congrArg Prod.fst List.foldl_append

theorem collect_header {l : line} (header : S.header l = true) (had inside : Bool)
    (rest : List line) : S.collect had inside (l :: rest) = S.collect had true rest := by
  rw [collect, if_pos header]

theorem collect_last {l : line} (nothing : S.item l = none) (had inside : Bool) :
    S.collect had inside [l] = [] := by
  unfold collect
  rw [nothing]
  split
  · rfl
  · split <;> rfl

/-- A section of items and nothing else, up to the line that closes it. -/
theorem collect_items {entry : Type} {entries : List entry} {text : entry → line} {last : line}
    {value : entry → item}
    (items : ∀ e ∈ entries, S.header (text e) = false ∧ S.interrupts (text e) = false ∧
      S.blank (text e) = false ∧ S.item (text e) = some (value e))
    (nothing : S.item last = none) (had : Bool) :
    S.collect had true (entries.map text ++ [last]) = entries.map value := by
  induction entries generalizing had with
  | nil => exact S.collect_last nothing had true
  | cons e entries ih =>
      obtain ⟨header, interrupts, blank, found⟩ := items e List.mem_cons_self
      rw [List.map_cons, List.cons_append, collect, header, interrupts, found, blank]
      exact congrArg (value e :: ·)
        (ih (fun e member => items e (List.mem_cons_of_mem _ member)) true)

/-- What is collected was found on a line that neither opens a section nor interrupts one. -/
theorem collect_mem {lines : List line} {had inside : Bool} {x : item}
    (collected : x ∈ S.collect had inside lines) :
    ∃ l ∈ lines, S.header l = false ∧ S.interrupts l = false ∧ S.item l = some x := by
  induction lines generalizing had inside with
  | nil => exact absurd collected List.not_mem_nil
  | cons l lines ih =>
      have later {had inside : Bool} (collected : x ∈ S.collect had inside lines) :
          ∃ l' ∈ l :: lines,
            S.header l' = false ∧ S.interrupts l' = false ∧ S.item l' = some x := by
        obtain ⟨l', member, found⟩ := ih collected
        exact ⟨l', List.mem_cons_of_mem _ member, found⟩
      rw [collect] at collected
      by_cases header : S.header l
      · rw [if_pos header] at collected
        exact later collected
      · rw [if_neg header] at collected
        by_cases reads : inside && !S.interrupts l
        · rw [if_pos reads] at collected
          cases found : S.item l with
          | none =>
              rw [found] at collected
              exact later collected
          | some other =>
              rw [found] at collected
              rcases List.mem_cons.mp collected with rfl | rest
              · have within := (Bool.and_eq_true _ _).mp reads
                exact ⟨l, List.mem_cons_self, Bool.eq_false_iff.mpr header,
                  (Bool.not_eq_true' _).mp within.2, found⟩
              · exact later rest
        · rw [if_neg reads] at collected
          exact later collected

/-- An item comes before any line that interrupts. -/
def ItemAhead (lines : List line) : Prop :=
  ∃ between l, (between ++ [l]) <+: lines ∧ (∀ b ∈ between, S.interrupts b = false) ∧
    S.interrupts l = false ∧ S.header l = false ∧ (S.item l).isSome

/-- An item comes behind a header, before any line that interrupts. -/
def SectionItem (lines : List line) : Prop :=
  ∃ h rest, (h :: rest) <:+ lines ∧ S.header h = true ∧ S.ItemAhead rest

theorem itemAhead_cons (l : line) (lines : List line) :
    S.ItemAhead (l :: lines) ↔
      S.interrupts l = false ∧ (S.header l = false ∧ (S.item l).isSome ∨ S.ItemAhead lines) := by
  constructor
  · rintro ⟨between, found, ahead, calm, interrupts, header, item⟩
    cases between with
    | nil =>
        obtain ⟨rfl, _⟩ := List.cons_prefix_cons.mp ahead
        exact ⟨interrupts, Or.inl ⟨header, item⟩⟩
    | cons b between =>
        obtain ⟨rfl, further⟩ := List.cons_prefix_cons.mp ahead
        exact ⟨calm b List.mem_cons_self, Or.inr ⟨between, found, further,
          fun c member => calm c (List.mem_cons_of_mem _ member), interrupts, header, item⟩⟩
  · rintro ⟨interrupts, ⟨header, item⟩ | ⟨between, found, ahead, calm, rest⟩⟩
    · exact ⟨[], l, List.cons_prefix_cons.mpr ⟨rfl, List.nil_prefix⟩, List.forall_mem_nil _,
        interrupts, header, item⟩
    · exact ⟨l :: between, found, List.cons_prefix_cons.mpr ⟨rfl, ahead⟩,
        List.forall_mem_cons.mpr ⟨interrupts, calm⟩, rest⟩

theorem sectionItem_cons (l : line) (lines : List line) :
    S.SectionItem (l :: lines) ↔
      S.header l = true ∧ S.ItemAhead lines ∨ S.SectionItem lines := by
  constructor
  · rintro ⟨h, rest, behind, header, ahead⟩
    rcases List.suffix_cons_iff.mp behind with here | later
    · obtain ⟨rfl, rfl⟩ := List.cons.inj here
      exact Or.inl ⟨header, ahead⟩
    · exact Or.inr ⟨h, rest, later, header, ahead⟩
  · rintro (⟨header, ahead⟩ | ⟨h, rest, behind, found⟩)
    · exact ⟨l, lines, List.suffix_refl _, header, ahead⟩
    · exact ⟨h, rest, List.suffix_cons_iff.mpr (Or.inr behind), found⟩

/-- The first items of a log are those of its sections. -/
theorem collect_ne_nil_iff (inside : Bool) (lines : List line) :
    S.collect false inside lines ≠ [] ↔
      inside = true ∧ S.ItemAhead lines ∨ S.SectionItem lines := by
  induction lines generalizing inside with
  | nil => simp [collect, ItemAhead, SectionItem]
  | cons l lines ih =>
      rw [itemAhead_cons, sectionItem_cons, collect]
      by_cases header : S.header l
      · rw [if_pos header, ih]
        simp only [header]
        tauto
      · rw [if_neg header]
        have plain := Bool.eq_false_iff.mpr header
        by_cases reads : inside && !S.interrupts l
        · rw [if_pos reads]
          obtain ⟨rfl, calm⟩ := (Bool.and_eq_true _ _).mp reads
          have calm := (Bool.not_eq_true' _).mp calm
          cases S.item l with
          | none =>
              dsimp only
              rw [Bool.and_false, Bool.not_false, ih]
              simp only [plain, calm, Option.isSome_none, Bool.false_eq_true, and_false, false_or,
                false_and, true_and]
          | some x =>
              simp only [plain, calm, Option.isSome_some, ne_eq, List.cons_ne_nil,
                not_false_eq_true, true_and, true_or]
        · -- closed before the line, or by it
          have quiet : ¬ (inside = true ∧ S.interrupts l = false) := fun both =>
            reads ((Bool.and_eq_true _ _).mpr ⟨both.1, (Bool.not_eq_true' _).mpr both.2⟩)
          rw [if_neg reads, ih]
          simp only [plain, Bool.false_eq_true, false_and, false_or]
          exact (or_iff_right (fun both => quiet ⟨both.1, both.2.1⟩)).symm

/-- A log has items just if the search finds a first one. -/
theorem collect_eq_nil (inside blank : Bool) (lines : List line) :
    S.collect false inside lines = [] ↔ S.firstItem inside blank lines = none := by
  induction lines generalizing inside blank with
  | nil => simp [collect, firstItem]
  | cons l rest ih =>
      rw [collect, firstItem]
      by_cases header : S.header l
      · rw [if_pos header, if_pos header]
        exact ih true false
      · rw [if_neg header, if_neg header]
        by_cases reads : inside && !S.interrupts l
        · rw [if_pos reads, if_pos reads]
          cases S.item l with
          | none =>
              rw [Bool.and_false, Bool.not_false]
              exact ih true _
          | some item => simp
        · rw [if_neg reads, if_neg reads]
          exact ih false false

/-- With the section closed no more is collected than with it open. -/
theorem collect_closed_sublist (lines : List line) :
    List.Sublist (S.collect true false lines) (S.collect true true lines) := by
  induction lines with
  | nil => exact List.Sublist.refl _
  | cons l rest ih =>
      rw [collect, collect]
      by_cases header : S.header l
      · rw [if_pos header, if_pos header]
      · rw [if_neg header, if_neg header, Bool.false_and, Bool.true_and]
        rw [if_neg (by decide)]
        by_cases interrupts : S.interrupts l
        · simp [interrupts]
        · simp only [interrupts, Bool.not_false, ↓reduceIte, Bool.and_true]
          cases S.item l with
          | none =>
              cases S.blank l with
              | false => exact ih
              | true => exact List.Sublist.refl _
          | some item =>
              apply List.Sublist.cons
              cases S.blank l with
              | false => exact ih
              | true => exact List.Sublist.refl _

/-- Earlier items change what is collected just if a blank line stands between the first
item and its header: there they close the section too soon. -/
theorem collect_had_eq (nothing : ∀ l, S.blank l = true → S.item l = none) (inside blank : Bool)
    (opened : blank = true → inside = true) (lines : List line) :
    S.collect true (inside && !blank) lines = S.collect false inside lines ↔
      S.firstItem inside blank lines ≠ some true := by
  induction lines generalizing inside blank with
  | nil => simp [collect, firstItem]
  | cons l rest ih =>
      rw [collect, collect, firstItem]
      by_cases header : S.header l
      · rw [if_pos header, if_pos header, if_pos header]
        exact ih true false (fun seen => by cases seen)
      · rw [if_neg header, if_neg header, if_neg header]
        by_cases reads : inside && !S.interrupts l
        · rw [if_pos reads, if_pos reads]
          have within : inside = true ∧ (!S.interrupts l) = true := (Bool.and_eq_true _ _).mp reads
          rw [within.1, within.2]
          cases found : S.item l with
          | none =>
              have further := ih true (blank || S.blank l) (fun _ => rfl)
              cases blank with
              | false => simpa using further
              | true => simpa using further
          | some item =>
              cases blank with
              | false => simp
              | true =>
                  -- the section is closed where the first item would be
                  have filled : S.blank l = false := by
                    by_contra empty
                    have missing := nothing l (by simpa using empty)
                    rw [found] at missing
                    cases missing
                  have fewer := (S.collect_closed_sublist rest).length_le
                  simp only [filled, Bool.not_true, Bool.not_false, Bool.and_false, Bool.and_true,
                    Bool.false_eq_true, ↓reduceIte, ne_eq, not_true_eq_false, iff_false]
                  intro same
                  rw [same, List.length_cons] at fewer
                  omega
        · have closed : ¬ ((inside && !blank) && !S.interrupts l) = true := by
            intro also
            apply reads
            simp only [Bool.and_eq_true] at also ⊢
            exact ⟨also.1.1, also.2⟩
          rw [if_neg reads, if_neg closed, if_neg reads]
          exact ih false false (fun seen => by cases seen)

/-- The items of two logs put together are those of the one and then those of the other,
if no section is left open between them, just if the first log has no items or the first
item of the second one stands in a section with no blank line before it. -/
theorem read_append (nothing : ∀ l, S.blank l = true → S.item l = none)
    (first second : List line) (closed : (S.read first).2 = false) :
    (S.read (first ++ second)).1 = (S.read first).1 ++ (S.read second).1 ↔
      S.firstItem false false first = none ∨ S.firstItem false false second ≠ some true := by
  have whole := S.read_continue first second
  rw [closed] at whole
  rw [whole, S.read_eq second, List.append_right_inj]
  by_cases empty : (S.read first).1 = []
  · have none := (S.collect_eq_nil false false first).mp ((S.read_eq first).symm.trans empty)
    simp [empty, none]
  · have filled : ¬ S.firstItem false false first = none := fun none =>
      empty ((S.read_eq first).trans ((S.collect_eq_nil false false first).mpr none))
    have had : (!(S.read first).1.isEmpty) = true := by simpa using empty
    have leak := S.collect_had_eq nothing false false (fun seen => by cases seen) second
    rw [Bool.false_and] at leak
    rw [had, leak]
    simp [filled]

end Sections
