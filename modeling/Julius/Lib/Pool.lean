import Julius.Lib.System

set_option autoImplicit false

/- Programs that run side by side against one world. -/
namespace Interact

namespace World

variable {ι : Type} {ρ : ι → Type} {S : Type}

/-- The world in which only the moves that `R` admits happen. -/
def restrict (W : World ι ρ S) (R : S → S → Prop) : World ι ρ S where
  answers s q answer t := W.answers s q answer t ∧ R s t
  drift s t := W.drift s t ∧ R s t

/-- The world as a program sees it while others ask the allowed queries of their own. -/
def amid (W : World ι ρ S) (allowed : ι → Prop) : World ι ρ S where
  answers := W.answers
  drift s t := W.drift s t ∨ ∃ q answer, allowed q ∧ W.answers s q answer t

end World

/-- Any number of programs, each with what is left of it. -/
abbrev Pool (ι : Type) (ρ : ι → Type) (ε α : Type) := List (Program ι ρ ε α)

namespace Pool

variable {ι : Type} {ρ : ι → Type} {ε α S : Type}

/-- One query of one program, or one move of the world. -/
inductive Step (W : World ι ρ S) : Pool ι ρ ε α × S → Pool ι ρ ε α × S → Prop
  | drift {pool : Pool ι ρ ε α} {s t : S} (moved : W.drift s t) : Step W (pool, s) (pool, t)
  | ask {before after : Pool ι ρ ε α} {q : ι} {next : ρ q → Program ι ρ ε α} {s t : S}
      {answer : ρ q} (answered : W.answers s q answer t) :
      Step W (before ++ .ask q next :: after, s) (before ++ next answer :: after, t)

/-- The states that steps admitted by `admits` lead to, in any order. -/
def Reachable (W : World ι ρ S) (admits : Pool ι ρ ε α × S → Pool ι ρ ε α × S → Prop)
    (start : Pool ι ρ ε α × S) : Pool ι ρ ε α × S → Prop :=
  Relation.ReflTransGen (fun a b => Step W a b ∧ admits a b) start

section

variable {W : World ι ρ S} {admits : Pool ι ρ ε α × S → Pool ι ρ ε α × S → Prop}
  {start config : Pool ι ρ ε α × S}

theorem Step.length {a b : Pool ι ρ ε α × S} (step : Step W a b) : b.1.length = a.1.length := by
  cases step with
  | drift moved => rfl
  | ask answered => simp

/-- What every answer preserves of a program, every step preserves of all of them. -/
theorem Step.forall {P : Program ι ρ ε α → Prop} {a b : Pool ι ρ ε α × S} (step : Step W a b)
    (kept : ∀ q next answer, P (.ask q next) → P (next answer)) (holds : ∀ program ∈ a.1, P program) :
    ∀ program ∈ b.1, P program := by
  cases step with
  | drift moved => exact holds
  | @ask before after q next s t answer answered =>
      intro program member
      rcases List.mem_append.mp member with front | rest
      · exact holds program (List.mem_append_left _ front)
      · rcases List.mem_cons.mp rest with same | back
        · rw [same]
          exact kept q next answer (holds (.ask q next) (by simp))
        · exact holds program (List.mem_append_right _ (List.mem_cons_of_mem _ back))

/-- Each program can have its first query answered, one after another. -/
theorem Reachable.each {β : Type} {first later : β → Program ι ρ ε α} {s : S} (xs : List β)
    (one : ∀ x ∈ xs, ∃ q next answer,
      first x = .ask q next ∧ later x = next answer ∧ W.answers s q answer s)
    (front : Pool ι ρ ε α) :
    Reachable W (fun _ _ => True) (front ++ xs.map first, s) (front ++ xs.map later, s) := by
  induction xs generalizing front with
  | nil => exact .refl
  | cons x xs ih =>
      obtain ⟨q, next, answer, asking, answered, admitted⟩ := one x List.mem_cons_self
      have rest := ih (fun y member => one y (List.mem_cons_of_mem _ member)) (front ++ [next answer])
      rw [List.append_assoc, List.append_assoc] at rest
      rw [List.map_cons, List.map_cons, asking, answered]
      exact rest.head ⟨.ask admitted, trivial⟩

/-- A run whose first step answers the query of a program on its own. -/
theorem Reachable.asking {q : ι} {next : ρ q → Program ι ρ ε α} {s t : S} {answer : ρ q}
    (answered : W.answers s q answer t)
    (admitted : admits ([.ask q next], s) ([next answer], t))
    (rest : Reachable W admits ([next answer], t) config) :
    Reachable W admits ([.ask q next], s) config :=
  Relation.ReflTransGen.head ⟨@Step.ask _ _ _ _ _ W [] [] _ _ _ _ _ answered, admitted⟩ rest

/-- A run whose first step is the world's. -/
theorem Reachable.drifting {pool : Pool ι ρ ε α} {s t : S} (moved : W.drift s t)
    (admitted : admits (pool, s) (pool, t)) (rest : Reachable W admits (pool, t) config) :
    Reachable W admits (pool, s) config :=
  Relation.ReflTransGen.head ⟨Step.drift moved, admitted⟩ rest

theorem Reachable.framed {program : Program ι ρ ε α} {s : S}
    (alone : Reachable W (fun _ _ => True) ([program], s) config) (front back : Pool ι ρ ε α) :
    ∃ last, config.1 = [last] ∧
      Reachable W (fun _ _ => True) (front ++ program :: back, s)
        (front ++ last :: back, config.2) := by
  induction alone with
  | refl => exact ⟨program, rfl, .refl⟩
  | tail _ move ih =>
      obtain ⟨last, single, path⟩ := ih
      cases move.1 with
      | drift moved => exact ⟨last, single, path.tail ⟨.drift moved, trivial⟩⟩
      | @ask left right q next s t answer answered =>
          obtain ⟨rfl, rfl, rfl⟩ : left = [] ∧ right = [] ∧ last = .ask q next := by
            cases left with
            | nil => simpa [eq_comm, and_comm] using single
            | cons first more => simp at single
          exact ⟨next answer, rfl, path.tail ⟨.ask answered, trivial⟩⟩

/-- What a program can do on its own it can do while the others wait. -/
theorem Reachable.frame {program rest : Program ι ρ ε α} {s t : S}
    (alone : Reachable W (fun _ _ => True) ([program], s) ([rest], t)) (front back : Pool ι ρ ε α) :
    Reachable W (fun _ _ => True) (front ++ program :: back, s) (front ++ rest :: back, t) := by
  obtain ⟨last, same, path⟩ := alone.framed front back
  cases same
  exact path

/-- What every admitted step preserves holds in every reachable state. -/
theorem Reachable.invariant {I : Pool ι ρ ε α × S → Prop}
    (reached : Reachable W admits start config) (initially : I start)
    (preserved : ∀ a b, I a → Step W a b → admits a b → I b) : I config := by
  induction reached with
  | refl => exact initially
  | tail _ move ih => exact preserved _ _ ih move.1 move.2

/-- A program on its own keeps to its weakest precondition, in the world of the admitted moves. -/
theorem Reachable.alone {R : S → S → Prop} {guard : S → ι → Prop} {post : Except ε α → S → Prop}
    {program : Program ι ρ ε α} {s : S} (admitted : ∀ a b, admits a b → R a.2 b.2)
    (stable : ∀ outcome s t, (W.restrict R).drift s t → post outcome s → post outcome t)
    (initially : program.wp (W.restrict R) guard post s)
    (reached : Reachable W admits ([program], s) config) :
    ∃ rest, config.1 = [rest] ∧ rest.wp (W.restrict R) guard post config.2 := by
  apply reached.invariant
    (I := fun config => ∃ rest, config.1 = [rest] ∧ rest.wp (W.restrict R) guard post config.2)
  · exact ⟨program, rfl, initially⟩
  · intro a b held step allowed
    obtain ⟨rest, single, holds⟩ := held
    have move := admitted a b allowed
    cases step with
    | drift moved => exact ⟨rest, single, holds.of_drift stable ⟨moved, move⟩⟩
    | @ask before after q next s t answer answered =>
        cases before with
        | cons first others => simp at single
        | nil =>
            simp only [List.nil_append, List.cons.injEq] at single
            obtain ⟨rfl, rfl⟩ := single
            exact ⟨next answer, rfl, (holds s .refl).2 answer t ⟨answered, move⟩⟩

/-- Where a program on its own is, the guard or the postcondition tells what holds. -/
theorem Reachable.alone_holds {R : S → S → Prop} {guard : S → ι → Prop}
    {post : Except ε α → S → Prop} {P : S → Prop} {program : Program ι ρ ε α} {s : S}
    (admitted : ∀ a b, admits a b → R a.2 b.2)
    (stable : ∀ outcome s t, (W.restrict R).drift s t → post outcome s → post outcome t)
    (initially : program.wp (W.restrict R) guard post s) (asking : ∀ s q, guard s q → P s)
    (ending : ∀ outcome s, post outcome s → P s)
    (reached : Reachable W admits ([program], s) config) : P config.2 := by
  obtain ⟨rest, _, holds⟩ := reached.alone admitted stable initially
  cases rest with
  | ret value => exact ending _ _ holds
  | halt reason => exact ending _ _ holds
  | ask q next => exact asking _ _ (holds config.2 .refl).1

/-- A step is one of the program in question, or one that leaves it as it is: the world's, or
that of another program, of which it preserves what every answer preserves. -/
theorem Step.around {P : Program ι ρ ε α → Prop}
    (kept : ∀ q next answer, P (.ask q next) → P (next answer)) {front back : Pool ι ρ ε α}
    {rest : Program ι ρ ε α} {s : S} {b : Pool ι ρ ε α × S}
    (step : Step W (front ++ rest :: back, s) b) (others : ∀ other ∈ front ++ back, P other) :
    (∃ q next answer, rest = .ask q next ∧ W.answers s q answer b.2 ∧
      b.1 = front ++ next answer :: back) ∨
    ∃ front' back', b.1 = front' ++ rest :: back' ∧ front'.length = front.length ∧
      (W.drift s b.2 ∨ ∃ q next answer, P (.ask q next) ∧ W.answers s q answer b.2) ∧
      ∀ other ∈ front' ++ back', P other := by
  generalize shape : front ++ rest :: back = pool at step
  cases step with
  | drift moved => exact Or.inr ⟨front, back, shape.symm, rfl, Or.inl moved, others⟩
  | @ask left right q next _ t answer answered =>
      rcases List.append_eq_append_iff.mp shape with ⟨between, same, split⟩ | ⟨between, same, split⟩
      · cases between with
        | nil =>
            obtain ⟨rfl, rfl⟩ := List.cons.inj split
            rw [List.append_nil] at same
            exact Or.inl ⟨q, next, answer, rfl, answered, by rw [same]⟩
        | cons first more =>
            -- another program, behind the one in question
            rw [List.cons_append] at split
            obtain ⟨rfl, rfl⟩ := List.cons.inj split
            have asking := others (.ask q next) (by simp)
            refine Or.inr ⟨front, more ++ next answer :: right, by simp [same], rfl,
              Or.inr ⟨q, next, answer, asking, answered⟩, ?_⟩
            intro other member
            simp only [List.mem_append, List.mem_cons] at member others
            rcases member with ahead | more | rfl | right
            · exact others other (Or.inl ahead)
            · exact others other (Or.inr (Or.inl more))
            · exact kept q next answer asking
            · exact others other (Or.inr (Or.inr (Or.inr right)))
      · cases between with
        | nil =>
            obtain ⟨rfl, rfl⟩ := List.cons.inj split
            rw [List.append_nil] at same
            exact Or.inl ⟨q, next, answer, rfl, answered, by rw [same]⟩
        | cons first more =>
            -- another program, ahead of it
            rw [List.cons_append] at split
            obtain ⟨rfl, rfl⟩ := List.cons.inj split
            have asking := others (.ask q next) (by simp [same])
            refine Or.inr ⟨left ++ next answer :: more, back, by simp, by simp [same],
              Or.inr ⟨q, next, answer, asking, answered⟩, ?_⟩
            intro other member
            simp only [same, List.mem_append, List.mem_cons] at member others
            rcases member with (left | rfl | more) | behind
            · exact others other (Or.inl (Or.inl left))
            · exact kept q next answer asking
            · exact others other (Or.inl (Or.inr (Or.inr more)))
            · exact others other (Or.inr behind)

/-- A program among others keeps to its weakest precondition, where it holds amid what the
others may ask. -/
theorem Reachable.among {allowed : ι → Prop} {stops : ε → Prop} {guard : S → ι → Prop}
    {post : Except ε α → S → Prop} {before after : Pool ι ρ ε α} {program : Program ι ρ ε α} {s : S}
    (stable : ∀ outcome s t, (W.amid allowed).drift s t → post outcome s → post outcome t)
    (initially : program.wp (W.amid allowed) guard post s)
    (others : ∀ other ∈ before ++ after, other.Asks allowed stops)
    (reached : Reachable W admits (before ++ program :: after, s) config) :
    ∃ front rest back, config.1 = front ++ rest :: back ∧ front.length = before.length ∧
      rest.wp (W.amid allowed) guard post config.2 ∧
      ∀ other ∈ front ++ back, other.Asks allowed stops := by
  apply reached.invariant (I := fun config => ∃ front rest back,
    config.1 = front ++ rest :: back ∧ front.length = before.length ∧
      rest.wp (W.amid allowed) guard post config.2 ∧
      ∀ other ∈ front ++ back, other.Asks allowed stops)
  · exact ⟨before, program, after, rfl, rfl, initially, others⟩
  · rintro ⟨pool, s⟩ ⟨pool', t⟩ ⟨front, rest, back, rfl, length, holds, asks⟩ step _
    rcases step.around (fun q next answer asks => asks.2 answer) asks with
      ⟨q, next, answer, rfl, answered, same⟩ | ⟨front', back', same, length', moved, asks'⟩
    · exact ⟨front, next answer, back, same, length, (holds s .refl).2 answer t answered, asks⟩
    · refine ⟨front', rest, back', same, length'.trans length, holds.of_drift stable ?_, asks'⟩
      rcases moved with moved | ⟨q, next, answer, asks, answered⟩
      · exact Or.inl moved
      · exact Or.inr ⟨q, answer, asks.1, answered⟩

end

end Pool

end Interact
