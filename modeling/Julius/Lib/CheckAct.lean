import Mathlib.Data.List.Basic
import Julius.Lib.Pool

set_option autoImplicit false

/- Programs that check for room and then act on what they saw, while others do the same. -/
namespace Interact

namespace Program

variable {ι : Type} {ρ : ι → Type} {ε α β : Type} {acts : ι → Bool}
  {clears : (q : ι) → ρ q → Prop} {cleared : Prop}

/-- The program is about to act. -/
def aboutTo (acts : ι → Bool) : Program ι ρ ε α → Bool
  | .ret _ => false
  | .halt _ => false
  | .ask q _ => acts q

/-- Every act comes directly after an answer that clears it; `cleared` tells whether the
last answer did. -/
def Checks (acts : ι → Bool) (clears : (q : ι) → ρ q → Prop) (cleared : Prop) :
    Program ι ρ ε α → Prop
  | .ret _ => True
  | .halt _ => True
  | .ask q next => (acts q = true → cleared) ∧
      ∀ answer, (next answer).Checks acts clears (clears q answer)

theorem Checks.weaken {program : Program ι ρ ε α} (checks : program.Checks acts clears False) :
    program.Checks acts clears cleared := by
  cases program with
  | ret value => trivial
  | halt reason => trivial
  | ask q next => exact ⟨fun act => (checks.1 act).elim, checks.2⟩

theorem Checks.of_aboutTo {program : Program ι ρ ε α} (checks : program.Checks acts clears cleared)
    (act : program.aboutTo acts = true) : cleared := by
  cases program with
  | ret value => cases act
  | halt reason => cases act
  | ask q next => exact checks.1 act

theorem Checks.bind {first : Program ι ρ ε α} {next : α → Program ι ρ ε β}
    (head : first.Checks acts clears cleared)
    (rest : ∀ value, (next value).Checks acts clears False) :
    (first.bind next).Checks acts clears cleared := by
  induction first generalizing cleared with
  | ret value => exact (rest value).weaken
  | halt reason => trivial
  | ask q follow ih => exact ⟨head.1, fun answer => ih answer (head.2 answer)⟩

/-- A program that never acts. -/
theorem Asks.checks {allowed : ι → Prop} {stops : ε → Prop} {program : Program ι ρ ε α}
    (asks : program.Asks allowed stops) (idle : ∀ q, allowed q → acts q = false) :
    program.Checks acts clears cleared := by
  induction program generalizing cleared with
  | ret value => trivial
  | halt reason => trivial
  | ask q next ih =>
      refine ⟨?_, fun answer => ih answer (asks.2 answer)⟩
      intro act
      rw [idle q asks.1] at act
      cases act

end Program

namespace Pool

variable {ι : Type} {ρ : ι → Type} {ε α S : Type}

/-- How many programs are about to act. -/
def pending (acts : ι → Bool) (pool : Pool ι ρ ε α) : Nat := pool.countP (Program.aboutTo acts)

def Checks (acts : ι → Bool) (clears : (q : ι) → ρ q → Prop) (pool : Pool ι ρ ε α) : Prop :=
  ∀ program ∈ pool, ∃ cleared, program.Checks acts clears cleared

/-- A step that leaves no more programs about to act than there was room for. -/
def Heeds (acts : ι → Bool) (free : S → Nat) (a b : Pool ι ρ ε α × S) : Prop :=
  pending acts a.1 < pending acts b.1 → pending acts a.1 < free a.2

/-- An act takes at most one unit of what is free, nothing else takes any, and only an
answer that found some free clears an act. -/
structure Resource (W : World ι ρ S) (acts : ι → Bool) (clears : (q : ι) → ρ q → Prop)
    (free : S → Nat) : Prop where
  drift : ∀ s t, W.drift s t → free s ≤ free t
  act : ∀ s q answer t, W.answers s q answer t → acts q = true → free s ≤ free t + 1
  other : ∀ s q answer t, W.answers s q answer t → acts q = false → free s ≤ free t
  clear : ∀ s q answer t, W.answers s q answer t → clears q answer → acts q = false ∧ 0 < free s

section

variable {W : World ι ρ S} {acts : ι → Bool} {clears : (q : ι) → ρ q → Prop} {free : S → Nat}
  {a b : Pool ι ρ ε α × S}

theorem pending_at (before after : Pool ι ρ ε α) (program : Program ι ρ ε α) :
    pending acts (before ++ program :: after) =
      pending acts before + pending acts after + if program.aboutTo acts then 1 else 0 := by
  unfold pending
  rw [List.countP_append, List.countP_cons, Nat.add_assoc]

theorem Checks.step (checks : Checks acts clears a.1) (step : Step W a b) :
    Checks acts clears b.1 :=
  step.forall (fun _ _ _ asking => ⟨_, asking.choose_spec.2 _⟩) checks

theorem Checks.run {admits : Pool ι ρ ε α × S → Pool ι ρ ε α × S → Prop}
    (checks : Checks acts clears a.1) (reached : Reachable W admits a b) :
    Checks acts clears b.1 :=
  reached.invariant (I := fun config => Checks acts clears config.1) checks
    (fun _ _ held step _ => held.step step)

namespace Resource

variable (resource : Resource W acts clears free)
include resource

/-- What one query does to the number of pending acts. -/
theorem pending_step {before after : Pool ι ρ ε α} {q : ι} {next : ρ q → Program ι ρ ε α}
    {s t : S} {answer : ρ q} (checks : Checks acts clears (before ++ .ask q next :: after))
    (answered : W.answers s q answer t) :
    (acts q = true ∧ pending acts (before ++ .ask q next :: after) =
      pending acts (before ++ next answer :: after) + 1) ∨
    (acts q = false ∧ pending acts (before ++ next answer :: after) ≤
      pending acts (before ++ .ask q next :: after) + 1) := by
  obtain ⟨cleared, asking⟩ := checks (.ask q next) (by simp)
  rw [pending_at, pending_at]
  have asks : (Program.ask q next).aboutTo acts = acts q := rfl
  rw [asks]
  cases act : acts q with
  | false =>
      right
      refine ⟨rfl, ?_⟩
      cases (next answer).aboutTo acts <;> simp
  | true =>
      left
      -- an act is no check, so the program does not act again at once
      have calm : (next answer).aboutTo acts = false := by
        by_contra again
        have clear := (asking.2 answer).of_aboutTo (by simpa using again)
        rw [(resource.clear s q answer t answered clear).1] at act
        cases act
      simp [calm]

/-- The pending acts all have room, as long as every step heeds what is free. -/
theorem pending_le (checks : Checks acts clears a.1) (room : pending acts a.1 ≤ free a.2)
    (step : Step W a b) (heeds : Heeds acts free a b) : pending acts b.1 ≤ free b.2 := by
  cases step with
  | drift moved => exact Nat.le_trans room (resource.drift _ _ moved)
  | @ask before after q next s t answer answered =>
      unfold Heeds at heeds
      dsimp only at *
      rcases resource.pending_step checks answered with ⟨act, count⟩ | ⟨other, count⟩
      · have taken := resource.act s q answer t answered act
        omega
      · have kept := resource.other s q answer t answered other
        by_cases more : pending acts (before ++ .ask q next :: after) <
            pending acts (before ++ next answer :: after)
        · have found := heeds more
          omega
        · omega

theorem pending_run (checks : Checks acts clears a.1) (room : pending acts a.1 ≤ free a.2)
    (reached : Reachable W (Heeds acts free) a b) : pending acts b.1 ≤ free b.2 := by
  have held : Checks acts clears b.1 ∧ pending acts b.1 ≤ free b.2 := by
    apply reached.invariant
      (I := fun config => Checks acts clears config.1 ∧ pending acts config.1 ≤ free config.2)
      ⟨checks, room⟩
    intro c d before step heeds
    exact ⟨before.1.step step, resource.pending_le before.1 before.2 step heeds⟩
  exact held.2

/-- A program on its own heeds what is free: it acts on what it has just seen. -/
theorem heeds_alone (checks : Checks acts clears a.1) (single : a.1.length = 1)
    (step : Step W a b) : Heeds acts free a b := by
  intro more
  cases step with
  | drift moved => exact absurd more (Nat.lt_irrefl _)
  | @ask before after q next s t answer answered =>
      dsimp only at *
      have alone : before.length = 0 ∧ after.length = 0 := by
        rw [List.length_append, List.length_cons] at single
        omega
      obtain ⟨cleared, asking⟩ := checks (.ask q next) (by simp)
      rw [List.length_eq_zero_iff.mp alone.1, List.length_eq_zero_iff.mp alone.2] at more ⊢
      rw [pending_at, pending_at] at more
      rw [pending_at]
      have acting : (next answer).aboutTo acts = true := by
        by_contra calm
        rw [if_neg calm] at more
        omega
      have found := resource.clear s q answer t answered ((asking.2 answer).of_aboutTo acting)
      have asks : (Program.ask q next).aboutTo acts = acts q := rfl
      rw [asks, found.1]
      exact found.2

theorem run_alone (checks : Checks acts clears a.1) (single : a.1.length = 1)
    (reached : Reachable W (fun _ _ => True) a b) : Reachable W (Heeds acts free) a b := by
  have held : b.1.length = 1 ∧ Reachable W (Heeds acts free) a b := by
    induction reached with
    | refl => exact ⟨single, .refl⟩
    | tail _ move ih =>
        refine ⟨move.1.length.trans ih.1, ih.2.tail ⟨move.1, ?_⟩⟩
        exact resource.heeds_alone (checks.run ih.2) ih.1 move.1
  exact held.2

/-- Where more programs are about to act than there is room for, one of them can come
to act with nothing free. -/
theorem overrun (always : ∀ s q, acts q = true → ∃ answer t, W.answers s q answer t ∧
      free t = free s - 1) (checks : Checks acts clears a.1)
    (excess : free a.2 < pending acts a.1) :
    ∃ b, Reachable W (fun _ _ => True) a b ∧ 0 < pending acts b.1 ∧ free b.2 = 0 := by
  obtain ⟨pool, s⟩ := a
  induction left : free s generalizing pool s with
  | zero => exact ⟨(pool, s), .refl, Nat.zero_lt_of_lt excess, left⟩
  | succ room ih =>
      have some : 0 < pending acts pool := Nat.zero_lt_of_lt excess
      obtain ⟨program, member, act⟩ := List.countP_pos_iff.mp some
      obtain ⟨before, after, rfl⟩ := List.append_of_mem member
      cases program with
      | ret value => cases act
      | halt reason => cases act
      | ask q next =>
          obtain ⟨answer, t, answered, taken⟩ := always s q act
          have step : Step W (before ++ .ask q next :: after, s) (before ++ next answer :: after, t) :=
            .ask answered
          rcases resource.pending_step checks answered with ⟨_, count⟩ | ⟨other, _⟩
          · obtain ⟨last, reached, full⟩ := ih (before ++ next answer :: after) t (checks.step step)
              (by dsimp only at *; omega) (by omega)
            exact ⟨last, reached.head ⟨step, trivial⟩, full⟩
          · rw [show acts q = true from act] at other
            cases other

end Resource

end

end Pool

end Interact
