import Mathlib.Data.List.Basic

set_option autoImplicit false

/- Loops that may go on for ever, run on a budget of turns. -/
namespace Loop

/-- What one turn of a loop does: it goes round again, or ends with a result. -/
inductive Turn (σ ρ : Type)
  | again (state : σ)
  | done (result : ρ)
  deriving DecidableEq, Repr

variable {σ ρ : Type}

/-- The result of a loop that needs no more turns than that. -/
def run (turn : σ → Turn σ ρ) : Nat → σ → Option ρ
  | 0, _ => none
  | turns + 1, s =>
      match turn s with
      | .again t => run turn turns t
      | .done result => some result

/-- The states in which the first turns of a loop are taken. -/
def visits (turn : σ → Turn σ ρ) : Nat → σ → List σ
  | 0, _ => []
  | turns + 1, s =>
      s :: match turn s with
        | .again t => visits turn turns t
        | .done _ => []

/-- The loop comes to an end. -/
def Ends (turn : σ → Turn σ ρ) (s : σ) (result : ρ) : Prop :=
  ∃ turns, run turn turns s = some result

variable {turn : σ → Turn σ ρ} {s t : σ} {result : ρ}

theorem run_again (next : turn s = .again t) (turns : Nat) :
    run turn (turns + 1) s = run turn turns t := by
  rw [run, next]

theorem run_done (last : turn s = .done result) (turns : Nat) :
    run turn (turns + 1) s = some result := by
  rw [run, last]

theorem visits_again (next : turn s = .again t) (turns : Nat) :
    visits turn (turns + 1) s = s :: visits turn turns t := by
  rw [visits, next]

theorem visits_done (last : turn s = .done result) (turns : Nat) :
    visits turn (turns + 1) s = [s] := by
  rw [visits, last]

/-- What a loop does depends on the turns it takes only. -/
theorem run_congr {other : σ → Turn σ ρ} (turns : Nat)
    (same : ∀ t ∈ visits turn turns s, other t = turn t) :
    run other turns s = run turn turns s := by
  induction turns generalizing s with
  | zero => rfl
  | succ turns ih =>
      have here : other s = turn s := same s List.mem_cons_self
      cases step : turn s with
      | again t =>
          rw [visits_again step] at same
          rw [run_again step, run_again (here.trans step)]
          exact ih (fun u member => same u (List.mem_cons_of_mem _ member))
      | done result => rw [run_done step, run_done (here.trans step)]

/-- A larger budget changes nothing about a loop that has ended. -/
theorem run_mono {turns more : Nat} (ended : run turn turns s = some result)
    (larger : turns ≤ more) : run turn more s = some result := by
  induction turns generalizing s more with
  | zero => cases ended
  | succ turns ih =>
      obtain ⟨rest, rfl⟩ := Nat.exists_eq_succ_of_ne_zero (show more ≠ 0 by omega)
      cases step : turn s with
      | again t =>
          rw [run_again step] at ended ⊢
          exact ih ended (by omega)
      | done other =>
          rw [run_done step] at ended ⊢
          exact ended

theorem Ends.unique {other : ρ} (first : Ends turn s result) (second : Ends turn s other) :
    result = other := by
  obtain ⟨turns, ended⟩ := first
  obtain ⟨more, same⟩ := second
  have left := run_mono ended (Nat.le_max_left turns more)
  have right := run_mono same (Nat.le_max_right turns more)
  exact Option.some.inj (left.symm.trans right)

theorem Ends.again (next : turn s = .again t) (rest : Ends turn t result) : Ends turn s result := by
  obtain ⟨turns, ended⟩ := rest
  exact ⟨turns + 1, (run_again next turns).trans ended⟩

theorem Ends.done (last : turn s = .done result) : Ends turn s result := ⟨1, run_done last 0⟩

section

variable {state : Nat → σ} {count : Nat}

/-- Turns known one by one can be taken together. -/
theorem run_along (along : ∀ j < count, turn (state j) = .again (state (j + 1))) (turns : Nat) :
    run turn (count + turns) (state 0) = run turn turns (state count) := by
  induction count generalizing turns with
  | zero => rw [Nat.zero_add]
  | succ count ih =>
      rw [Nat.add_right_comm, ← run_again (along count (Nat.lt_succ_self _)),
        ← ih (fun j before => along j (by omega)), Nat.add_assoc]

theorem Ends.along (along : ∀ j < count, turn (state j) = .again (state (j + 1)))
    (last : turn (state count) = .done result) : Ends turn (state 0) result :=
  ⟨count + 1, (run_along along 1).trans (run_done last 0)⟩

/-- A loop each of whose turns is followed by another one does not end. -/
theorem not_ends (along : ∀ j, turn (state j) = .again (state (j + 1))) :
    ¬ Ends turn (state 0) result := by
  rintro ⟨turns, ended⟩
  have stuck : run turn turns (state 0) = none := run_along (fun j _ => along j) 0
  rw [stuck] at ended
  cases ended

end

end Loop
