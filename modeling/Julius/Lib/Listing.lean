import Mathlib.Data.List.Forall2

set_option autoImplicit false

/- Printed listings: blocks of lines, each behind its title and with a line that ends it, and
left out when they are empty. And texts with escape sequences among what they show. -/
namespace Listing

variable {char line item seen : Type}

/-- The block of some items: their lines between a title and a line that ends the block. -/
def block (title stop : line) (text : item → line) (items : List item) : List line :=
  if items.isEmpty then [] else title :: items.map text ++ [stop]

/-- How a block is recognised and read. -/
structure Reader (line seen : Type) where
  title : line → Bool
  stop : line → Bool
  item : line → Option seen

/-- The items of the block a listing begins with, none where it has no such title, and what is
left of the listing. -/
def Reader.read (R : Reader line seen) : List line → Option (List seen × List line)
  | [] => some ([], [])
  | head :: rest =>
      if R.title head then do
        let items ← (rest.takeWhile (fun l => !R.stop l)).mapM R.item
        return (items, (rest.dropWhile (fun l => !R.stop l)).tail)
      else some ([], head :: rest)

/-- The line of an item ends no block, and a reader sees of it what it is meant to. -/
structure Reader.Reads (R : Reader line seen) (text : item → line) (see : item → seen)
    (x : item) : Prop where
  goesOn : R.stop (text x) = false
  means : R.item (text x) = some (see x)

section Blocks

variable (R : Reader line seen) {text : item → line} {see : item → seen}

theorem Reader.mapM_item {items : List item} (reads : ∀ x ∈ items, R.Reads text see x) :
    (items.map text).mapM R.item = some (items.map see) := by
  induction items with
  | nil => rfl
  | cons x items ih =>
      rw [List.map_cons, List.mapM_cons, (reads x List.mem_cons_self).means,
        ih (fun y member => reads y (List.mem_cons_of_mem _ member))]
      rfl

theorem Reader.within {items : List item} (reads : ∀ x ∈ items, R.Reads text see x) :
    ∀ l ∈ items.map text, (!R.stop l) = true := by
  intro l member
  obtain ⟨x, inside, rfl⟩ := List.mem_map.mp member
  rw [(reads x inside).goesOn]
  rfl

/-- A listing that begins with another line has no such block. -/
theorem Reader.read_other {listing : List line} (other : ∀ l ∈ listing.head?, R.title l = false) :
    R.read listing = some ([], listing) := by
  cases listing with
  | nil => rfl
  | cons head rest => rw [Reader.read, other head rfl, if_neg Bool.false_ne_true]

/-- A block is read back from the front of a listing, also where it was left out. -/
theorem Reader.read_block {title stop : line} {items : List item} {rest : List line}
    (titled : R.title title = true) (stops : R.stop stop = true)
    (reads : ∀ x ∈ items, R.Reads text see x) (other : ∀ l ∈ rest.head?, R.title l = false) :
    R.read (block title stop text items ++ rest) = some (items.map see, rest) := by
  unfold block
  cases items with
  | nil => exact R.read_other other
  | cons x items =>
      have inner := R.within reads
      have last : (stop :: rest).takeWhile (fun l => !R.stop l) = [] ∧
          (stop :: rest).dropWhile (fun l => !R.stop l) = stop :: rest := by
        rw [List.takeWhile_cons, List.dropWhile_cons, stops]
        exact ⟨rfl, rfl⟩
      rw [List.isEmpty_cons, if_neg Bool.false_ne_true, List.cons_append, List.cons_append,
        List.append_assoc, Reader.read, if_pos titled, List.takeWhile_append_of_pos inner,
        List.dropWhile_append_of_pos inner, List.singleton_append, last.1, last.2, List.append_nil,
        R.mapM_item reads]
      rfl

theorem mem_block {title stop : line} {items : List item} {l : line}
    (member : l ∈ block title stop text items) : l = title ∨ l = stop ∨ ∃ x ∈ items, l = text x := by
  unfold block at member
  split at member
  · cases member
  · rcases List.mem_append.mp member with front | last
    · rcases List.mem_cons.mp front with first | inside
      · exact Or.inl first
      · obtain ⟨x, among, same⟩ := List.mem_map.mp inside
        exact Or.inr (Or.inr ⟨x, among, same.symm⟩)
    · exact Or.inr (Or.inl (List.mem_singleton.mp last))

/-- A block with another title is none to the reader. -/
theorem Reader.other_block {title stop : line} {items : List item} {rest : List line}
    (differs : R.title title = false) (other : ∀ l ∈ rest.head?, R.title l = false) :
    ∀ l ∈ (block title stop text items ++ rest).head?, R.title l = false := by
  unfold block
  split
  · exact other
  · intro l first
    exact Option.some.inj first ▸ differs

end Blocks

/-- The text of printed lines. -/
def printed (newline : char) (lines : List (List char)) : List char :=
  lines.flatMap (· ++ [newline])

/-- The lines of a printed text are those it was printed from. -/
theorem splitOn_printed [DecidableEq char] {newline : char} {lines : List (List char)}
    (oneLine : ∀ l ∈ lines, newline ∉ l) :
    (printed newline lines).splitOn newline = lines ++ [[]] := by
  have joined : printed newline lines = [newline].intercalate (lines ++ [[]]) := by
    induction lines with
    | nil => rfl
    | cons l lines ih =>
        have more : lines ++ [[]] ≠ [] := List.append_ne_nil_of_right_ne_nil _ (List.cons_ne_nil _ _)
        rw [List.cons_append, List.intercalate_cons_of_ne_nil more,
          ← ih (fun l member => oneLine l (List.mem_cons_of_mem _ member))]
        rfl
  rw [joined, List.splitOn_intercalate newline]
  · intro l member
    rcases List.mem_append.mp member with inside | last
    · exact oneLine l inside
    · rw [List.mem_singleton.mp last]
      exact List.not_mem_nil
  · exact List.append_ne_nil_of_right_ne_nil _ (List.cons_ne_nil _ _)

section Escapes

/-- The characters that begin and end an escape sequence. -/
structure Escapes (char : Type) where
  begins : char
  ends : char

variable [DecidableEq char]

/-- What a text shows, from inside an escape sequence or outside. -/
def Escapes.shown (E : Escapes char) : Bool → List char → List char
  | _, [] => []
  | true, c :: rest => E.shown (c ≠ E.ends) rest
  | false, c :: rest => if c = E.begins then E.shown true rest else c :: E.shown false rest

/-- A text with whole escape sequences shows this, whatever follows it. -/
def Escapes.Shows (E : Escapes char) (text visible : List char) : Prop :=
  ∀ rest, E.shown false (text ++ rest) = visible ++ E.shown false rest

variable {E : Escapes char}

theorem Escapes.Shows.shown {text visible : List char} (shows : E.Shows text visible) :
    E.shown false text = visible := by
  have whole := shows []
  rwa [List.append_nil, Escapes.shown, List.append_nil] at whole

theorem Escapes.Shows.append {first second visible more : List char} (front : E.Shows first visible)
    (back : E.Shows second more) : E.Shows (first ++ second) (visible ++ more) := by
  intro rest
  rw [List.append_assoc, front, back, List.append_assoc]

/-- A text without escape sequences shows itself. -/
theorem Escapes.shows_free {text : List char} (free : ∀ c ∈ text, c ≠ E.begins) :
    E.Shows text text := by
  intro rest
  induction text with
  | nil => rfl
  | cons c text ih =>
      rw [List.cons_append, Escapes.shown, if_neg (free c List.mem_cons_self),
        ih (fun d member => free d (List.mem_cons_of_mem _ member))]
      rfl

theorem Escapes.shown_inside {inner : List char} (goesOn : ∀ c ∈ inner, c ≠ E.ends)
    (rest : List char) : E.shown true (inner ++ E.ends :: rest) = E.shown false rest := by
  induction inner with
  | nil => rw [List.nil_append, Escapes.shown, decide_eq_false (fun other => other rfl)]
  | cons c inner ih =>
      rw [List.cons_append, Escapes.shown, decide_eq_true (goesOn c List.mem_cons_self),
        ih (fun d member => goesOn d (List.mem_cons_of_mem _ member))]

/-- One escape sequence shows nothing. -/
theorem Escapes.shows_sequence {inner : List char} (goesOn : ∀ c ∈ inner, c ≠ E.ends) :
    E.Shows (E.begins :: inner ++ [E.ends]) [] := by
  intro rest
  rw [List.cons_append, List.cons_append, Escapes.shown, if_pos rfl, List.append_assoc]
  exact Escapes.shown_inside goesOn rest

/-- Lines that show others print what the others print. -/
theorem Escapes.shows_printed {newline : char} (plain : newline ≠ E.begins)
    {lines others : List (List char)} (each : List.Forall₂ E.Shows lines others) :
    E.Shows (printed newline lines) (printed newline others) := by
  induction each with
  | nil => exact fun rest => rfl
  | cons first _ ih =>
      have ended : E.Shows [newline] [newline] :=
        Escapes.shows_free (fun c member => List.mem_singleton.mp member ▸ plain)
      exact (first.append ended).append ih

/-- Blocks show each other when their titles and lines do. -/
theorem Escapes.shows_block {title title' stop : List char} {text text' : item → List char}
    {items : List item} (titles : E.Shows title title') (stops : E.Shows stop stop)
    (each : ∀ x ∈ items, E.Shows (text x) (text' x)) :
    List.Forall₂ E.Shows (block title stop text items) (block title' stop text' items) := by
  unfold block
  split
  · exact List.Forall₂.nil
  · have lines : List.Forall₂ E.Shows (items.map text) (items.map text') :=
      List.forall₂_map_left_iff.mpr (List.forall₂_map_right_iff.mpr (List.forall₂_same.mpr each))
    exact List.rel_append (List.Forall₂.cons titles lines)
      (List.Forall₂.cons stops List.Forall₂.nil)

end Escapes

end Listing
