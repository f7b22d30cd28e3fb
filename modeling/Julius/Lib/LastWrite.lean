import Julius.Lib.Pool

set_option autoImplicit false

/- Programs that write the same cell side by side: what it holds when all have returned. -/
namespace Interact

variable {ι : Type} {ρ : ι → Type} {ε α β S V : Type}

/-- The cell changes by the queries that write it, and by nothing else. -/
structure World.Cell (W : World ι ρ S) (writes : ι → Option V) (cell : S → V) : Prop where
  drift : ∀ s t, W.drift s t → cell t = cell s
  answers : ∀ s q answer t, W.answers s q answer t → cell t = (writes q).getD (cell s)

namespace Program

variable {writes : ι → Option V} {good : V → Prop} {settled settled' : Prop}

/-- Whether the cell is good after a query, when `settled` tells whether it was before. -/
def after (writes : ι → Option V) (good : V → Prop) (settled : Prop) (q : ι) : Prop :=
  match writes q with
  | some value => good value
  | none => settled

/-- Wherever the program returns, the last write it made was a good one; without a write,
`settled` must hold. -/
def Leaves (writes : ι → Option V) (good : V → Prop) (settled : Prop) : Program ι ρ ε α → Prop
  | .ret _ => settled
  | .halt _ => True
  | .ask q next => ∀ answer, (next answer).Leaves writes good (after writes good settled q)

theorem Leaves.mono {program : Program ι ρ ε α} (leaves : program.Leaves writes good settled)
    (weaker : settled → settled') : program.Leaves writes good settled' := by
  induction program generalizing settled settled' with
  | ret value => exact weaker leaves
  | halt reason => trivial
  | ask q next ih =>
      intro answer
      apply ih answer (leaves answer)
      unfold after
      cases writes q with
      | none => exact weaker
      | some value => exact id

theorem Leaves.bind {first : Program ι ρ ε α} {next : α → Program ι ρ ε β}
    (head : first.Leaves writes good settled) (rest : ∀ value, (next value).Leaves writes good True) :
    (first.bind next).Leaves writes good settled := by
  induction first generalizing settled with
  | ret value => exact (rest value).mono (fun _ => head)
  | halt reason => trivial
  | ask q follow ih => exact fun answer => ih answer (head answer)

/-- What comes last decides, whatever goes before. -/
theorem Leaves.of_rest {first : Program ι ρ ε α} {next : α → Program ι ρ ε β}
    (rest : ∀ value, (next value).Leaves writes good False) :
    (first.bind next).Leaves writes good settled := by
  induction first generalizing settled with
  | ret value => exact (rest value).mono False.elim
  | halt reason => trivial
  | ask q follow ih => exact fun answer => ih answer

/-- A first part that never writes the cell can be skipped. -/
theorem Asks.leaves_bind {allowed : ι → Prop} {stops : ε → Prop} {first : Program ι ρ ε α}
    {next : α → Program ι ρ ε β} (asks : first.Asks allowed stops)
    (silent : ∀ q, allowed q → writes q = none)
    (rest : ∀ value, (next value).Leaves writes good settled) :
    (first.bind next).Leaves writes good settled := by
  induction first with
  | ret value => exact rest value
  | halt reason => trivial
  | ask q follow ih =>
      intro answer
      unfold after
      rw [silent q asks.1]
      exact ih answer (asks.2 answer)

end Program

namespace Pool

variable {W : World ι ρ S} {writes : ι → Option V} {cell : S → V} {good : V → Prop}
  {admits : Pool ι ρ ε α × S → Pool ι ρ ε α × S → Prop} {a b : Pool ι ρ ε α × S}

/-- The cell is good, or one of the programs has still to write it. -/
structure Settling (writes : ι → Option V) (cell : S → V) (good : V → Prop)
    (config : Pool ι ρ ε α × S) : Prop where
  leaves : ∀ program ∈ config.1, program.Leaves writes good True
  owed : good (cell config.2) ∨ ∃ program ∈ config.1, program.Leaves writes good False

theorem Settling.step (held : Settling writes cell good a) (own : W.Cell writes cell)
    (step : Step W a b) : Settling writes cell good b := by
  cases step with
  | drift moved =>
      refine ⟨held.leaves, ?_⟩
      rw [own.drift _ _ moved]
      exact held.owed
  | @ask before back q next s t answer answered =>
      have asking : (Program.ask q next).Leaves writes good True := held.leaves _ (by simp)
      have now := own.answers s q answer t answered
      have kept := asking answer
      have leaves : ∀ program ∈ before ++ next answer :: back, program.Leaves writes good True := by
        intro program member
        simp only [List.mem_append, List.mem_cons] at member
        rcases member with ahead | rfl | behind
        · exact held.leaves program (by simp [ahead])
        · exact kept.mono (fun _ => trivial)
        · exact held.leaves program (by simp [behind])
      refine ⟨leaves, ?_⟩
      dsimp only at now ⊢
      cases written : writes q with
      | some value =>
          rw [written, Option.getD_some] at now
          rw [now]
          by_cases fine : good value
          · exact Or.inl fine
          · -- a bad write is owed by the program that made it
            refine Or.inr ⟨next answer, by simp, ?_⟩
            apply kept.mono
            intro good
            unfold Program.after at good
            rw [written] at good
            exact fine good
      | none =>
          rw [written, Option.getD_none] at now
          rw [now]
          rcases held.owed with fine | ⟨program, member, owes⟩
          · exact Or.inl fine
          · refine Or.inr ?_
            simp only [List.mem_append, List.mem_cons] at member
            rcases member with ahead | rfl | behind
            · exact ⟨program, by simp [ahead], owes⟩
            · refine ⟨next answer, by simp, ?_⟩
              have later := owes answer
              unfold Program.after at later
              rw [written] at later
              exact later
            · exact ⟨program, by simp [behind], owes⟩

/-- When all programs have returned, a cell that one of them had to write holds the good
value that one of them wrote last. -/
theorem Settling.returned (held : Settling writes cell good a) (own : W.Cell writes cell)
    (reached : Reachable W admits a b) (done : ∀ program ∈ b.1, ∃ value, program = .ret value) :
    good (cell b.2) := by
  have settling : Settling writes cell good b :=
    reached.invariant held (fun _ _ held step _ => held.step own step)
  rcases settling.owed with fine | ⟨program, member, owes⟩
  · exact fine
  · obtain ⟨value, rfl⟩ := done program member
    exact owes.elim

end Pool

end Interact
