import Mathlib.Data.List.Basic

set_option autoImplicit false

/- Patterns as a backtracking engine matches them: the choices of a pattern are tried one
after another, and the first one that lets the rest match is the one taken. -/
namespace Regex

/-- A repetition repeats a class of characters, at most `most` times where that is given. -/
inductive Pattern (α : Type)
  | empty
  | one (accepts : α → Bool)
  | many (greedy : Bool) (least : Nat) (most : Option Nat) (accepts : α → Bool)
  | seq (first second : Pattern α)
  /-- Left out only if what follows does not match otherwise. -/
  | maybe (inner : Pattern α)
  | group (inner : Pattern α)
  /-- A condition on what is left of the text. -/
  | looks (condition : List α → Bool)

variable {α β : Type}

/-- Whether another character may be taken. -/
def Takes (most : Option Nat) (accepts : α → Bool) (c : α) : Prop :=
  most ≠ some 0 ∧ accepts c = true

instance (most : Option Nat) (accepts : α → Bool) (c : α) : Decidable (Takes most accepts c) :=
  inferInstanceAs (Decidable (_ ∧ _))

/-- What a repetition may leave of a text, in the order it is tried. -/
def leaves (greedy : Bool) (accepts : α → Bool) : Nat → Option Nat → List α → List (List α)
  | least, _, [] => if least = 0 then [[]] else []
  | least, most, c :: s =>
      let here := if least = 0 then [c :: s] else []
      let further :=
        if Takes most accepts c then
          leaves greedy accepts (least - 1) (most.map (· - 1)) s
        else []
      if greedy then further ++ here else here ++ further

/-- A repetition one character after another, with `next` for what follows it. -/
def repeats (greedy : Bool) (accepts : α → Bool) (next : List α → Option β) :
    Nat → Option Nat → List α → Option β
  | least, _, [] => if least = 0 then next [] else none
  | least, most, c :: s =>
      let here := if least = 0 then next (c :: s) else none
      let further :=
        if Takes most accepts c then
          repeats greedy accepts next (least - 1) (most.map (· - 1)) s
        else none
      if greedy then further.or here else here.or further

/-- The characters of `s` before its end `rest`. -/
def before (s rest : List α) : List α := s.take (s.length - rest.length)

namespace Pattern

/-- The engine: `next` is given the groups and the rest of the text. -/
def backtrack : Pattern α → List α → (List (List α) → List α → Option β) → Option β
  | .empty, s, next => next [] s
  | .one _, [], _ => none
  | .one accepts, c :: s, next => if accepts c then next [] s else none
  | .many greedy least most accepts, s, next => repeats greedy accepts (next []) least most s
  | .seq first second, s, next =>
      first.backtrack s (fun a t => second.backtrack t (fun b u => next (a ++ b) u))
  | .maybe inner, s, next => (inner.backtrack s next).or (next [] s)
  | .group inner, s, next => inner.backtrack s (fun a t => next (before s t :: a) t)
  | .looks condition, s, next => if condition s then next [] s else none

/-- All ways to match at the start of a text, in order: the groups and the rest. -/
def results : Pattern α → List α → List (List (List α) × List α)
  | .empty, s => [([], s)]
  | .one _, [] => []
  | .one accepts, c :: s => if accepts c then [([], s)] else []
  | .many greedy least most accepts, s => (leaves greedy accepts least most s).map (Prod.mk [])
  | .seq first second, s =>
      (first.results s).flatMap (fun a =>
        (second.results a.2).map (fun b => (a.1 ++ b.1, b.2)))
  | .maybe inner, s => inner.results s ++ [([], s)]
  | .group inner, s => (inner.results s).map (fun a => (before s a.2 :: a.1, a.2))
  | .looks condition, s => if condition s then [([], s)] else []

/-- The groups of the match at the start of a text. -/
def matchAt (p : Pattern α) (s : List α) : Option (List (List α)) :=
  p.backtrack s (fun groups _ => some groups)

/-- The groups of the first match anywhere in a text, its end included. -/
def search (p : Pattern α) : List α → Option (List (List α))
  | [] => p.matchAt []
  | c :: s => (p.matchAt (c :: s)).or (search p s)

end Pattern

theorem findSome?_flatMap {γ δ : Type} (xs : List γ) (f : γ → List δ) (next : δ → Option β) :
    (xs.flatMap f).findSome? next = xs.findSome? (fun x => (f x).findSome? next) := by
  induction xs with
  | nil => rfl
  | cons x xs ih =>
      rw [List.flatMap_cons, List.findSome?_append, ih, List.findSome?_cons]
      cases (f x).findSome? next <;> rfl

theorem repeats_eq (greedy : Bool) (accepts : α → Bool) (next : List α → Option β) (least : Nat)
    (most : Option Nat) (s : List α) :
    repeats greedy accepts next least most s =
      (leaves greedy accepts least most s).findSome? next := by
  induction s generalizing least most with
  | nil =>
      unfold repeats leaves
      split
      · exact (List.findSome?_singleton).symm
      · rfl
  | cons c s ih =>
      have here : (if least = 0 then next (c :: s) else none) =
          (if least = 0 then [c :: s] else []).findSome? next := by
        split
        · exact (List.findSome?_singleton).symm
        · rfl
      have further : (if Takes most accepts c then
            repeats greedy accepts next (least - 1) (most.map (· - 1)) s else none) =
          (if Takes most accepts c then
            leaves greedy accepts (least - 1) (most.map (· - 1)) s else []).findSome? next := by
        split
        · exact ih _ _
        · rfl
      unfold repeats leaves
      dsimp only
      rw [here, further]
      split
      · exact (List.findSome?_append).symm
      · exact (List.findSome?_append).symm

/-- The engine finds the first result that lets the rest match. -/
theorem Pattern.backtrack_eq (p : Pattern α) (s : List α)
    (next : List (List α) → List α → Option β) :
    p.backtrack s next = (p.results s).findSome? (fun a => next a.1 a.2) := by
  induction p generalizing s next with
  | empty => exact (List.findSome?_singleton).symm
  | one accepts =>
      cases s with
      | nil => rfl
      | cons c s =>
          unfold backtrack results
          split
          · exact (List.findSome?_singleton).symm
          · rfl
  | many greedy least most accepts =>
      rw [backtrack, repeats_eq, results, List.findSome?_map]
      rfl
  | seq first second ihFirst ihSecond =>
      rw [backtrack, ihFirst, results, findSome?_flatMap]
      congr 1
      funext a
      rw [ihSecond, List.findSome?_map]
      rfl
  | maybe inner ih =>
      rw [backtrack, ih, results, List.findSome?_append, List.findSome?_singleton]
  | group inner ih =>
      rw [backtrack, ih, results, List.findSome?_map]
      rfl
  | looks condition =>
      unfold backtrack results
      split
      · exact (List.findSome?_singleton).symm
      · rfl

theorem Pattern.matchAt_eq (p : Pattern α) (s : List α) :
    p.matchAt s = (p.results s).head?.map Prod.fst := by
  rw [matchAt, backtrack_eq]
  cases p.results s <;> rfl

section

variable {greedy : Bool} {accepts : α → Bool}

theorem leaves_suffix {least : Nat} {most : Option Nat} {s t : List α}
    (member : t ∈ leaves greedy accepts least most s) : t <:+ s := by
  induction s generalizing least most with
  | nil =>
      unfold leaves at member
      split at member
      · exact List.mem_singleton.mp member ▸ List.suffix_refl _
      · cases member
  | cons c s ih =>
      have parts : t ∈ (if least = 0 then [c :: s] else []) ∨
          t ∈ (if Takes most accepts c then
            leaves greedy accepts (least - 1) (most.map (· - 1)) s else []) := by
        unfold leaves at member
        dsimp only at member
        split at member
        · exact (List.mem_append.mp member).symm
        · exact List.mem_append.mp member
      rcases parts with here | further
      · split at here
        · exact List.mem_singleton.mp here ▸ List.suffix_refl _
        · cases here
      · split at further
        · exact (ih further).trans (List.suffix_cons c s)
        · cases further

/-- How many characters a repetition must and may take. -/
def Within (least : Nat) (most : Option Nat) (count : Nat) : Prop :=
  least ≤ count ∧ ∀ bound ∈ most, count ≤ bound

instance (least : Nat) (most : Option Nat) (count : Nat) : Decidable (Within least most count) :=
  inferInstanceAs (Decidable (_ ∧ _))

theorem within_succ {least : Nat} {most : Option Nat} (some : most ≠ some 0) (count : Nat) :
    Within least most (count + 1) ↔ Within (least - 1) (most.map (· - 1)) count := by
  unfold Within
  cases most with
  | none => simp
  | some bound =>
      have positive : bound ≠ 0 := fun zero => some (congrArg Option.some zero)
      simp
      omega

/-- A repetition takes all it can, if what follows never starts with a character of its class. -/
theorem leaves_apart {γ : Type} (follow : List α → List γ)
    (apart : ∀ c s, accepts c = true → follow (c :: s) = []) (least : Nat) (most : Option Nat)
    (s : List α) : (leaves greedy accepts least most s).flatMap follow =
      if Within least most (s.takeWhile accepts).length then follow (s.dropWhile accepts)
      else [] := by
  induction s generalizing least most with
  | nil =>
      unfold leaves
      by_cases none : least = 0
      · have within : Within least most 0 := ⟨Nat.le_of_eq none, fun _ _ => Nat.zero_le _⟩
        rw [if_pos none, List.takeWhile_nil, List.length_nil, if_pos within, List.dropWhile_nil]
        exact List.append_nil _
      · have outside : ¬ Within least most 0 := fun within => none (Nat.le_zero.mp within.1)
        rw [if_neg none, List.takeWhile_nil, List.length_nil, if_neg outside]
        rfl
  | cons c s ih =>
      unfold leaves
      dsimp only
      by_cases inside : accepts c = true
      · have nothing : (if least = 0 then [c :: s] else []).flatMap follow = [] := by
          split
          · exact (List.append_nil _).trans (apart c s inside)
          · rfl
        have whole : ((if greedy then
            (if Takes most accepts c then leaves greedy accepts (least - 1) (most.map (· - 1)) s
              else []) ++ (if least = 0 then [c :: s] else [])
            else (if least = 0 then [c :: s] else []) ++
              (if Takes most accepts c then leaves greedy accepts (least - 1) (most.map (· - 1)) s
                else [])) : List (List α)).flatMap follow =
            (if Takes most accepts c then leaves greedy accepts (least - 1) (most.map (· - 1)) s
              else []).flatMap follow := by
          split
          · rw [List.flatMap_append, nothing, List.append_nil]
          · rw [List.flatMap_append, nothing, List.nil_append]
        rw [whole, List.takeWhile_cons_of_pos inside, List.dropWhile_cons_of_pos inside,
          List.length_cons]
        by_cases spent : most = some 0
        · have outside : ¬ Within least most ((s.takeWhile accepts).length + 1) :=
            fun within => absurd (within.2 0 spent) (Nat.not_succ_le_zero _)
          rw [if_neg (fun takes => takes.1 spent), if_neg outside]
          rfl
        · rw [if_pos ⟨spent, inside⟩, ih]
          exact if_congr (within_succ spent _).symm rfl rfl
      · have stops : ¬ Takes most accepts c := fun takes => inside takes.2
        rw [if_neg stops, List.append_nil, List.nil_append, ite_self,
          List.takeWhile_cons_of_neg inside, List.dropWhile_cons_of_neg inside, List.length_nil]
        by_cases none : least = 0
        · have within : Within least most 0 := ⟨Nat.le_of_eq none, fun _ _ => Nat.zero_le _⟩
          rw [if_pos none, if_pos within]
          exact List.append_nil _
        · have outside : ¬ Within least most 0 := fun within => none (Nat.le_zero.mp within.1)
          rw [if_neg none, if_neg outside]
          rfl

/-- A greedy repetition first tries to take all it can. -/
theorem leaves_greedy (s : List α) : ∃ others,
    leaves true accepts 0 none s = s.dropWhile accepts :: others ∧
      ∀ t ∈ others, s.dropWhile accepts <:+ t ∧ t <:+ s := by
  induction s with
  | nil => exact ⟨[], rfl, fun _ member => by cases member⟩
  | cons c s ih =>
      unfold leaves
      dsimp only
      by_cases inside : accepts c = true
      · obtain ⟨others, tried, between⟩ := ih
        have takes : Takes none accepts c := ⟨nofun, inside⟩
        have longer := List.suffix_cons c s
        rw [if_pos rfl, if_pos rfl, if_pos takes, List.dropWhile_cons_of_pos inside]
        refine ⟨others ++ [c :: s], congrArg (· ++ [c :: s]) tried, ?_⟩
        intro t member
        rcases List.mem_append.mp member with other | last
        · exact ⟨(between t other).1, (between t other).2.trans longer⟩
        · rw [List.mem_singleton.mp last]
          exact ⟨(List.dropWhile_suffix _).trans longer, List.suffix_refl _⟩
      · have stops : ¬ Takes none accepts c := fun takes => inside takes.2
        rw [if_pos rfl, if_pos rfl, if_neg stops, List.dropWhile_cons_of_neg inside]
        exact ⟨[], rfl, fun _ member => by cases member⟩

theorem leaves_greedy_one (s : List α) : (leaves true accepts 1 none s).head? =
    if s.takeWhile accepts = [] then none else some (s.dropWhile accepts) := by
  cases s with
  | nil => rfl
  | cons c s =>
      rw [leaves, if_pos rfl, if_neg Nat.one_ne_zero, List.append_nil]
      by_cases inside : accepts c = true
      · obtain ⟨others, tried, _⟩ := @leaves_greedy _ accepts s
        have more : List.takeWhile accepts (c :: s) ≠ [] := by
          rw [List.takeWhile_cons_of_pos inside]
          exact List.cons_ne_nil _ _
        rw [if_pos ⟨nofun, inside⟩, if_neg more, List.dropWhile_cons_of_pos inside]
        exact congrArg List.head? tried
      · rw [if_neg (fun takes => inside takes.2), List.takeWhile_cons_of_neg inside, if_pos rfl]
        rfl

/-- A lazy repetition of one character at least takes the first one, and then tries to stop
before it takes more. -/
theorem leaves_lazy (c : α) (s : List α) : leaves false accepts 1 none (c :: s) =
    if accepts c then s :: leaves false accepts 1 none s else [] := by
  have fewer : ∀ t : List α, leaves false accepts 0 none t = t :: leaves false accepts 1 none t := by
    intro t
    cases t with
    | nil => rfl
    | cons d t =>
        rw [leaves, leaves]
        rfl
  rw [leaves, if_neg Bool.false_ne_true, if_neg Nat.one_ne_zero, List.nil_append]
  by_cases inside : accepts c = true
  · rw [if_pos ⟨nofun, inside⟩, if_pos inside]
    exact fewer s
  · rw [if_neg (fun takes => inside takes.2), if_neg inside]

end

theorem before_cons (c : α) {s t : List α} (shorter : t.length ≤ s.length) :
    before (c :: s) t = c :: before s t := by
  unfold before
  rw [List.length_cons, Nat.succ_sub shorter]
  rfl

theorem before_append (front rest : List α) : before (front ++ rest) rest = front := by
  unfold before
  rw [List.length_append, Nat.add_sub_cancel, List.take_left]

namespace Pattern

/-- A text of given characters. -/
def literal [DecidableEq α] : List α → Pattern α
  | [] => .empty
  | c :: text => .seq (.one (fun d => decide (d = c))) (literal text)

theorem results_one (accepts : α → Bool) (c : α) (s : List α) :
    (one accepts).results (c :: s) = if accepts c then [([], s)] else [] := rfl

theorem results_seq (first second : Pattern α) (s : List α) :
    (seq first second).results s = (first.results s).flatMap (fun a =>
      (second.results a.2).map (fun b => (a.1 ++ b.1, b.2))) := rfl

theorem results_group (inner : Pattern α) (s : List α) :
    (group inner).results s = (inner.results s).map (fun a => (before s a.2 :: a.1, a.2)) := rfl

/-- A first part without groups hands its rests to what follows. -/
theorem results_bare (follow : Pattern α) (s : List α) :
    (follow.results s).map (fun b => (([] : List (List α)) ++ b.1, b.2)) = follow.results s :=
  List.map_id _

theorem results_maybe_seq (inner follow : Pattern α) (s : List α) :
    (seq (maybe inner) follow).results s = (seq inner follow).results s ++ follow.results s := by
  rw [results_seq, results_seq, show (maybe inner).results s = inner.results s ++ [([], s)] from rfl,
    List.flatMap_append, List.flatMap_cons, List.flatMap_nil, List.append_nil, results_bare]

/-- A repetition and what follows it. -/
theorem results_many_seq {greedy : Bool} {least : Nat} {most : Option Nat} {accepts : α → Bool}
    (follow : Pattern α) (s : List α) :
    (seq (many greedy least most accepts) follow).results s =
      (leaves greedy accepts least most s).flatMap follow.results := by
  rw [results_seq, results, List.flatMap_map]
  exact List.flatMap_congr (fun t _ => results_bare follow t)

theorem results_literal [DecidableEq α] (text s : List α) :
    (literal text).results s = if text <+: s then [([], s.drop text.length)] else [] := by
  induction text generalizing s with
  | nil => rw [if_pos List.nil_prefix]; rfl
  | cons c text ih =>
      cases s with
      | nil => rw [if_neg (fun front => by simp at front)]; rfl
      | cons d s =>
          rw [literal, results_seq, results_one]
          by_cases same : d = c
          · rw [if_pos (decide_eq_true same), List.flatMap_cons, List.flatMap_nil, List.append_nil,
              ih]
            by_cases front : text <+: s
            · rw [if_pos front, if_pos (List.cons_prefix_cons.mpr ⟨same.symm, front⟩)]
              rfl
            · rw [if_neg front, if_neg (fun both => front (List.cons_prefix_cons.mp both).2)]
              rfl
          · have other : ¬ (decide (d = c) = true) := fun both => same (of_decide_eq_true both)
            rw [if_neg other, if_neg (fun front => same (List.cons_prefix_cons.mp front).1.symm)]
            rfl

/-- A fixed text and a repetition behind it. -/
theorem results_text_many [DecidableEq α] (text : List α) {greedy : Bool} {least : Nat}
    {most : Option Nat} {accepts : α → Bool} (s : List α) :
    (seq (literal text) (many greedy least most accepts)).results s =
      if text <+: s then
        (leaves greedy accepts least most (s.drop text.length)).map (Prod.mk [])
      else [] := by
  rw [results_seq, results_literal]
  by_cases front : text <+: s
  · rw [if_pos front, if_pos front, List.flatMap_cons, List.flatMap_nil, List.append_nil]
    exact results_bare (many greedy least most accepts) _
  · rw [if_neg front, if_neg front]
    rfl

theorem results_text_seq [DecidableEq α] (text : List α) {greedy : Bool} {least : Nat}
    {most : Option Nat} {accepts : α → Bool} (follow : Pattern α) (s : List α) :
    (seq (seq (literal text) (many greedy least most accepts)) follow).results s =
      if text <+: s then
        (leaves greedy accepts least most (s.drop text.length)).flatMap follow.results
      else [] := by
  rw [results_seq, results_text_many]
  by_cases front : text <+: s
  · rw [if_pos front, if_pos front, List.flatMap_map]
    exact List.flatMap_congr (fun t _ => results_bare follow t)
  · rw [if_neg front, if_neg front]
    rfl

/-- A group of a fixed text and a repetition, before something that never starts with a
character of its class. -/
theorem results_group_seq [DecidableEq α] (text : List α) {greedy : Bool} {least : Nat}
    {most : Option Nat} {accepts : α → Bool} (follow : Pattern α)
    (apart : ∀ c s, accepts c = true → follow.results (c :: s) = []) (s : List α) :
    (seq (group (seq (literal text) (many greedy least most accepts))) follow).results
        (text ++ s) =
      if Within least most (s.takeWhile accepts).length then
        (follow.results (s.dropWhile accepts)).map
          (fun b => ((text ++ s.takeWhile accepts) :: b.1, b.2))
      else [] := by
  have captured : before (text ++ s) (s.dropWhile accepts) = text ++ s.takeWhile accepts := by
    have split : text ++ s = (text ++ s.takeWhile accepts) ++ s.dropWhile accepts := by
      rw [List.append_assoc, List.takeWhile_append_dropWhile]
    rw [split]
    exact before_append _ _
  rw [results_seq, results_group, results_text_many, if_pos (List.prefix_append text s),
    List.drop_left, List.map_map, List.flatMap_map]
  have taken := @leaves_apart α greedy accepts _
    (fun t => (follow.results t).map (fun b => (before (text ++ s) t :: b.1, b.2)))
    (fun c t inside => by rw [apart c t inside]; rfl) least most s
  rw [captured] at taken
  exact taken

theorem results_group_absent [DecidableEq α] {text : List α} {greedy : Bool} {least : Nat}
    {most : Option Nat} {accepts : α → Bool} {follow : Pattern α} {s : List α}
    (absent : ¬ text <+: s) :
    (seq (group (seq (literal text) (many greedy least most accepts))) follow).results s = [] := by
  rw [results_seq, results_group, results_text_many, if_neg absent]
  rfl

end Pattern

end Regex
