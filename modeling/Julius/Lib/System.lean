import Mathlib.Data.List.Forall2
import Julius.Lib.Program

set_option autoImplicit false

namespace Interact

/-- A labelled transition system. -/
structure LTS (S L : Type) where
  step : S → L → S → Prop

namespace LTS

variable {S T L : Type} {M : LTS S L} {A : LTS T L}

/-- A run is the list of labels taken, each with the state it leads to. -/
def IsRun (M : LTS S L) : S → List (L × S) → Prop
  | _, [] => True
  | s, (label, t) :: rest => M.step s label t ∧ M.IsRun t rest

@[simp] theorem isRun_nil (s : S) : M.IsRun s [] := trivial

@[simp] theorem isRun_cons (s t : S) (label : L) (rest : List (L × S)) :
    M.IsRun s ((label, t) :: rest) ↔ M.step s label t ∧ M.IsRun t rest := Iff.rfl

/-- The state a run ends in. -/
def final (s : S) : List (L × S) → S
  | [] => s
  | (_, t) :: rest => final t rest

@[simp] theorem final_nil (s : S) : final s ([] : List (L × S)) = s := rfl

@[simp] theorem final_cons (s t : S) (label : L) (rest : List (L × S)) :
    final s ((label, t) :: rest) = final t rest := rfl

/-- Every move of a run is made in a state that `P` admits it in. -/
def Along (P : S → L → Prop) : S → List (L × S) → Prop
  | _, [] => True
  | s, (label, t) :: rest => P s label ∧ Along P t rest

/-- What every admitted step preserves holds all along a run. -/
theorem IsRun.invariant {P : L → Prop} {I : S → Prop}
    (preserved : ∀ s label t, P label → I s → M.step s label t → I t) {s : S}
    {run : List (L × S)} (valid : M.IsRun s run) (admitted : ∀ move ∈ run, P move.1)
    (start : I s) : (∀ move ∈ run, I move.2) ∧ I (final s run) := by
  induction run generalizing s with
  | nil => exact ⟨fun _ member => absurd member List.not_mem_nil, start⟩
  | cons move rest ih =>
      obtain ⟨label, t⟩ := move
      have next : I t := preserved s label t (admitted _ List.mem_cons_self) start valid.1
      obtain ⟨along, last⟩ := ih valid.2 (fun move member => admitted move (List.mem_cons_of_mem _ member)) next
      refine ⟨fun move member => ?_, last⟩
      rcases List.mem_cons.mp member with rfl | later
      · exact next
      · exact along move later

/-- Forward simulation: an abstract run with the same labels follows the
concrete one, related to it after every step. -/
theorem IsRun.simulate {P : L → Prop} {R : S → T → Prop}
    (forward : ∀ s a label t, P label → R s a → M.step s label t →
      ∃ b, A.step a label b ∧ R t b) {s : S} {a : T}
    {run : List (L × S)} (valid : M.IsRun s run) (admitted : ∀ move ∈ run, P move.1)
    (start : R s a) :
    ∃ abstractRun, A.IsRun a abstractRun ∧
      List.Forall₂ (fun concrete abstract => concrete.1 = abstract.1 ∧ R concrete.2 abstract.2)
        run abstractRun := by
  induction run generalizing s a with
  | nil => exact ⟨[], trivial, .nil⟩
  | cons move rest ih =>
      obtain ⟨label, t⟩ := move
      obtain ⟨b, abstractStep, related⟩ :=
        forward s a label t (admitted _ List.mem_cons_self) start valid.1
      obtain ⟨abstractRest, abstractValid, followed⟩ :=
        ih valid.2 (fun move member => admitted move (List.mem_cons_of_mem _ member)) related
      exact ⟨(label, b) :: abstractRest, ⟨abstractStep, abstractValid⟩, .cons ⟨rfl, related⟩ followed⟩

end LTS

/-- How the body of a loop ends a pass. -/
inductive Flow (σ : Type) : Type
  | again (state : σ)
  | leave

def Flow.map {σ τ : Type} (f : σ → τ) : Flow σ → Flow τ
  | .again state => .again (f state)
  | .leave => .leave

/-- A program that starts up and then repeats a body on a state of its own. -/
structure Server (ι : Type) (ρ : ι → Type) (ε σ : Type) where
  start : Program ι ρ ε σ
  body : σ → Program ι ρ ε (Flow σ)

namespace Server

variable {ι : Type} {ρ : ι → Type} {ε σ S : Type}

/-- Where a server is: starting up, at the top of its loop, in a pass, or past the loop. -/
inductive Config (ι : Type) (ρ : ι → Type) (ε σ : Type) : Type
  | starting (rest : Program ι ρ ε σ)
  | top (state : σ)
  | serving (state : σ) (rest : Program ι ρ ε (Flow σ))
  | left

/-- One move of the server or of its environment. -/
inductive Step (V : Server ι ρ ε σ) (W : World ι ρ S) :
    Config ι ρ ε σ × S → Config ι ρ ε σ × S → Prop
  | drift {config : Config ι ρ ε σ} {s t : S} (moved : W.drift s t) :
      Step V W (config, s) (config, t)
  | startAsk {q : ι} {next : ρ q → Program ι ρ ε σ} {s t : S} {answer : ρ q}
      (answered : W.answers s q answer t) :
      Step V W (.starting (.ask q next), s) (.starting (next answer), t)
  | enter {state : σ} {s : S} :
      Step V W (.starting (.ret state), s) (.top state, s)
  | pass {state : σ} {s : S} : Step V W (.top state, s) (.serving state (V.body state), s)
  | ask {state : σ} {q : ι} {next : ρ q → Program ι ρ ε (Flow σ)} {s t : S} {answer : ρ q}
      (answered : W.answers s q answer t) :
      Step V W (.serving state (.ask q next), s) (.serving state (next answer), t)
  | again {old state : σ} {s : S} :
      Step V W (.serving old (.ret (.again state)), s) (.top state, s)
  | leave {old : σ} {s : S} : Step V W (.serving old (.ret .leave), s) (.left, s)

def Reachable (V : Server ι ρ ε σ) (W : World ι ρ S) (s₀ : S) :
    Config ι ρ ε σ × S → Prop :=
  Relation.ReflTransGen (Step V W) (.starting V.start, s₀)

/-- A pass may only go round again, and then the loop invariant `J` holds. -/
def onAgain (J : σ → S → Prop) (stopped : ε → S → Prop) : Except ε (Flow σ) → S → Prop
  | .ok (.again state), s => J state s
  | .ok .leave, _ => False
  | .error reason, s => stopped reason s

/-- Start-up hands over to the loop with the loop invariant in force. -/
def onStarted (J : σ → S → Prop) (failed : ε → S → Prop) : Except ε σ → S → Prop
  | .ok state, s => J state s
  | .error reason, s => failed reason s

/-- What holds wherever the server is: `failed` are the stops foreseen while it
starts up and `stopped` those foreseen in a pass. -/
def Safe (W : World ι ρ S) (guard : S → ι → Prop) (J : σ → S → Prop)
    (failed stopped : ε → S → Prop) : Config ι ρ ε σ × S → Prop
  | (.starting rest, s) => rest.wp W guard (onStarted J failed) s
  | (.top state, s) => J state s
  | (.serving _ rest, s) => rest.wp W guard (onAgain J stopped) s
  | (.left, _) => False

end Server

/-- A weakest precondition survives the moves of the environment when the postcondition does. -/
theorem Program.wp.of_drift {ι : Type} {ρ : ι → Type} {ε α S : Type} {W : World ι ρ S}
    {guard : S → ι → Prop} {post : Except ε α → S → Prop}
    (stable : ∀ outcome s t, W.drift s t → post outcome s → post outcome t)
    {program : Program ι ρ ε α} {s t : S} (moved : W.drift s t)
    (holds : program.wp W guard post s) : program.wp W guard post t := by
  cases program with
  | ret value => exact stable _ _ _ moved holds
  | halt reason => exact stable _ _ _ moved holds
  | ask q next => exact fun s₁ later => holds s₁ (.head moved later)

namespace Server

variable {ι : Type} {ρ : ι → Type} {ε σ S : Type}

/-- The loop rule: if start-up establishes a stable `J` and every pass begun
under `J` ends by going round again under `J`, then the server never leaves
its loop, every query is asked under its guard and every stop is a foreseen one. -/
theorem Reachable.safe {V : Server ι ρ ε σ} {W : World ι ρ S} {guard : S → ι → Prop}
    {J : σ → S → Prop} {failed stopped : ε → S → Prop} {s₀ : S}
    (stableJ : ∀ state s t, W.drift s t → J state s → J state t)
    (stableFailed : ∀ reason s t, W.drift s t → failed reason s → failed reason t)
    (stableStopped : ∀ reason s t, W.drift s t → stopped reason s → stopped reason t)
    (started : V.start.wp W guard (onStarted J failed) s₀)
    (pass : ∀ state s, J state s → (V.body state).wp W guard (onAgain J stopped) s)
    {config : Config ι ρ ε σ × S} (reached : V.Reachable W s₀ config) :
    Safe W guard J failed stopped config := by
  have stableStarted : ∀ outcome s t, W.drift s t →
      onStarted J failed outcome s → onStarted J failed outcome t := by
    intro outcome s t moved held
    cases outcome with
    | ok state => exact stableJ _ _ _ moved held
    | error reason => exact stableFailed _ _ _ moved held
  have stableAgain : ∀ outcome s t, W.drift s t →
      onAgain J stopped outcome s → onAgain J stopped outcome t := by
    intro outcome s t moved held
    match outcome with
    | .ok (.again state) => exact stableJ _ _ _ moved held
    | .ok .leave => exact held
    | .error reason => exact stableStopped _ _ _ moved held
  induction reached with
  | refl => exact started
  | tail _ step ih =>
      cases step with
      | @drift config s t moved =>
          cases config with
          | starting rest => exact ih.of_drift stableStarted moved
          | top state => exact stableJ _ _ _ moved ih
          | serving state rest => exact ih.of_drift stableAgain moved
          | left => exact ih
      | startAsk answered => exact (ih _ .refl).2 _ _ answered
      | enter => exact ih
      | pass => exact pass _ _ ih
      | ask answered => exact (ih _ .refl).2 _ _ answered
      | again => exact ih
      | leave => exact ih

/-- What the guard, the loop invariant and the foreseen stops all imply holds in every state. -/
theorem Safe.holds {W : World ι ρ S} {guard : S → ι → Prop} {J : σ → S → Prop}
    {failed stopped : ε → S → Prop} {P : S → Prop} (asking : ∀ s q, guard s q → P s)
    (looping : ∀ state s, J state s → P s) (failing : ∀ reason s, failed reason s → P s)
    (stopping : ∀ reason s, stopped reason s → P s)
    {config : Config ι ρ ε σ × S} (safe : Safe W guard J failed stopped config) : P config.2 := by
  obtain ⟨config, s⟩ := config
  cases config with
  | starting rest =>
      cases rest with
      | ret state => exact looping _ _ safe
      | halt reason => exact failing _ _ safe
      | ask q next => exact asking _ _ (safe s .refl).1
  | top state => exact looping _ _ safe
  | serving state rest =>
      cases rest with
      | ret flow =>
          cases flow with
          | again state => exact looping _ _ safe
          | leave => exact safe.elim
      | halt reason => exact stopping _ _ safe
      | ask q next => exact asking _ _ (safe s .refl).1
  | left => exact safe.elim

/-- The loop state a server is in a pass with, or about to begin one with. -/
def Config.state? : Config ι ρ ε σ → Option σ
  | .top state => some state
  | .serving state _ => some state
  | _ => none

/-- What the loop invariant says about the loop state, and no answer undoes, holds all through a pass. -/
theorem Reachable.keeps {V : Server ι ρ ε σ} {W : World ι ρ S} {guard : S → ι → Prop}
    {J K : σ → S → Prop} {failed stopped : ε → S → Prop} {s₀ : S}
    (safe : ∀ config, V.Reachable W s₀ config → Safe W guard J failed stopped config)
    (established : ∀ state s, J state s → K state s)
    (drifts : ∀ state s t, W.drift s t → K state s → K state t)
    (answers : ∀ state s q answer t, W.answers s q answer t → K state s → K state t)
    {config : Config ι ρ ε σ × S} (reached : V.Reachable W s₀ config) :
    ∀ state, config.1.state? = some state → K state config.2 := by
  induction reached with
  | refl =>
      intro state same
      cases same
  | tail before step ih =>
      intro state same
      cases step with
      | drift moved => exact drifts _ _ _ moved (ih state same)
      | startAsk answered => cases same
      | enter =>
          cases same
          exact established _ _ (safe _ before)
      | pass => exact ih state same
      | ask answered => exact answers _ _ _ _ _ answered (ih state same)
      | again =>
          cases same
          exact established _ _ (safe _ before)
      | leave => cases same

/-- Some chain of moves leads from `config` to a state that satisfies `goal`. -/
def CanReach (V : Server ι ρ ε σ) (W : World ι ρ S) (goal : Config ι ρ ε σ × S → Prop)
    (config : Config ι ρ ε σ × S) : Prop :=
  ∃ last, Relation.ReflTransGen (Step V W) config last ∧ goal last

section

variable {V : Server ι ρ ε σ} {W : World ι ρ S} {goal : Config ι ρ ε σ × S → Prop}
  {config next : Config ι ρ ε σ × S}

theorem CanReach.here (arrived : goal config) : V.CanReach W goal config :=
  ⟨config, .refl, arrived⟩

theorem CanReach.step (move : Step V W config next) (rest : V.CanReach W goal next) :
    V.CanReach W goal config := by
  obtain ⟨last, path, arrived⟩ := rest
  exact ⟨last, .head move path, arrived⟩

theorem CanReach.of_path (path : Relation.ReflTransGen (Step V W) config next)
    (rest : V.CanReach W goal next) : V.CanReach W goal config := by
  obtain ⟨last, further, arrived⟩ := rest
  exact ⟨last, path.trans further, arrived⟩

theorem CanReach.trans {middle : Config ι ρ ε σ × S → Prop} (first : V.CanReach W middle config)
    (rest : ∀ next, middle next → V.CanReach W goal next) : V.CanReach W goal config := by
  obtain ⟨next, path, halfway⟩ := first
  exact (rest next halfway).of_path path

/-- Queries that can always be answered within `P` do not keep a pass from going on. -/
theorem CanReach.asks {allowed : ι → Prop} {P : S → Prop}
    (answerable : ∀ s q, allowed q → P s → ∃ answer t, W.answers s q answer t ∧ P t)
    {α : Type} {first : Program ι ρ ε α} (asks : first.Asks allowed (fun _ => False)) {state : σ}
    {next : α → Program ι ρ ε (Flow σ)} {s : S} (start : P s)
    (rest : ∀ value t, P t → V.CanReach W goal (.serving state (next value), t)) :
    V.CanReach W goal (.serving state (first.bind next), s) := by
  induction first generalizing s with
  | ret value => exact rest value s start
  | halt reason => exact asks.elim
  | ask q follow ih =>
      obtain ⟨answer, t, answered, held⟩ := answerable s q asks.1 start
      exact .step (.ask answered) (ih answer (asks.2 answer) held)

end

end Server

end Interact
