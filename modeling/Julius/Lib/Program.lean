import Mathlib.Logic.Relation

set_option autoImplicit false

namespace Interact

/-- A program that talks to its environment: it returns a value, stops for a
reason, or asks one query and goes on with whatever answer it gets. -/
inductive Program (ι : Type) (ρ : ι → Type) (ε α : Type) : Type
  | ret (value : α)
  | halt (reason : ε)
  | ask (query : ι) (next : ρ query → Program ι ρ ε α)

namespace Program

variable {ι : Type} {ρ : ι → Type} {ε α β γ S : Type}

def bind (first : Program ι ρ ε α) (next : α → Program ι ρ ε β) : Program ι ρ ε β :=
  match first with
  | .ret value => next value
  | .halt reason => .halt reason
  | .ask query rest => .ask query (fun answer => (rest answer).bind next)

instance : Monad (Program ι ρ ε) where
  pure := .ret
  bind := .bind

/-- Ask one query and return its answer. -/
def query (q : ι) : Program ι ρ ε (ρ q) := .ask q .ret

@[simp] theorem pure_eq (value : α) : (pure value : Program ι ρ ε α) = .ret value := rfl

@[simp] theorem bind_eq (first : Program ι ρ ε α) (next : α → Program ι ρ ε β) :
    first >>= next = first.bind next := rfl

@[simp] theorem ret_bind (value : α) (next : α → Program ι ρ ε β) :
    (Program.ret value : Program ι ρ ε α).bind next = next value := rfl

@[simp] theorem halt_bind (reason : ε) (next : α → Program ι ρ ε β) :
    (Program.halt reason : Program ι ρ ε α).bind next = .halt reason := rfl

@[simp] theorem ask_bind (q : ι) (rest : ρ q → Program ι ρ ε α)
    (next : α → Program ι ρ ε β) :
    (Program.ask q rest).bind next = .ask q (fun answer => (rest answer).bind next) := rfl

theorem bind_assoc (program : Program ι ρ ε α) (first : α → Program ι ρ ε β)
    (second : β → Program ι ρ ε γ) :
    (program.bind first).bind second = program.bind (fun value => (first value).bind second) := by
  induction program with
  | ret value => rfl
  | halt reason => rfl
  | ask q rest ih => exact congrArg (Program.ask q) (funext ih)

end Program

/-- What a program runs against. `answers s q a t`: in state `s` the environment
may answer `q` by `a` and be in `t` afterwards. `drift`: what it may do of its
own accord before the next query reaches it. -/
structure World (ι : Type) (ρ : ι → Type) (S : Type) where
  answers : S → (query : ι) → ρ query → S → Prop
  drift : S → S → Prop

namespace World

variable {ι : Type} {ρ : ι → Type} {S : Type}

/-- Any number of moves of the environment on its own. -/
def Drifts (W : World ι ρ S) : S → S → Prop := Relation.ReflTransGen W.drift

/-- An environment that moves only when it is asked. -/
def Still (W : World ι ρ S) : Prop := ∀ s t, ¬ W.drift s t

theorem Still.eq_of_drifts {W : World ι ρ S} (still : W.Still) {s t : S}
    (moved : W.Drifts s t) : s = t := by
  induction moved with
  | refl => rfl
  | tail _ step _ => exact absurd step (still _ _)

theorem Drifts.preserves {W : World ι ρ S} {P : S → Prop} {s t : S}
    (moved : W.Drifts s t) (stable : ∀ s t, W.drift s t → P s → P t) (start : P s) : P t := by
  induction moved with
  | refl => exact start
  | tail _ step ih => exact stable _ _ step ih

end World

/-- A complete run of a program: the outcome and the state it leaves behind. -/
inductive Exec {ι : Type} {ρ : ι → Type} {ε α S : Type} (W : World ι ρ S) :
    Program ι ρ ε α → S → Except ε α → S → Prop
  | ret {value : α} {s : S} : Exec W (.ret value) s (.ok value) s
  | halt {reason : ε} {s : S} : Exec W (.halt reason) s (.error reason) s
  | ask {q : ι} {next : ρ q → Program ι ρ ε α} {s s₁ s₂ t : S} {answer : ρ q}
      {outcome : Except ε α} (moved : W.Drifts s s₁) (answered : W.answers s₁ q answer s₂)
      (rest : Exec W (next answer) s₂ outcome t) : Exec W (.ask q next) s outcome t

/-- A program of one query, in an environment that moves only when asked. -/
theorem Exec.of_query {ι : Type} {ρ : ι → Type} {ε α S : Type} {W : World ι ρ S} (still : W.Still)
    {q : ι} {result : ρ q → α} {value : α} {s t : S}
    (run : Exec W (.ask q (fun answer => (.ret (result answer) : Program ι ρ ε α))) s (.ok value) t) :
    ∃ answer, W.answers s q answer t ∧ result answer = value := by
  cases run with
  | ask moved answered rest =>
      cases still.eq_of_drifts moved
      cases rest
      exact ⟨_, answered, rfl⟩

/-- A run of a sequence runs the first part, and the rest unless the first part stopped. -/
theorem Exec.of_bind {ι : Type} {ρ : ι → Type} {ε α β S : Type} {W : World ι ρ S}
    {first : Program ι ρ ε α} {next : α → Program ι ρ ε β} {outcome : Except ε β} {s t : S}
    (run : Exec W (first.bind next) s outcome t) :
    (∃ value middle, Exec W first s (.ok value) middle ∧ Exec W (next value) middle outcome t) ∨
      ∃ reason, outcome = .error reason ∧ Exec W first s (.error reason) t := by
  induction first generalizing s with
  | ret value => exact Or.inl ⟨value, s, .ret, run⟩
  | halt reason =>
      cases run
      exact Or.inr ⟨reason, rfl, .halt⟩
  | ask q rest ih =>
      cases run with
      | ask moved answered later =>
          rcases ih _ later with ⟨value, middle, head, tail⟩ | ⟨reason, stopped, head⟩
          · exact Or.inl ⟨value, middle, .ask moved answered head, tail⟩
          · exact Or.inr ⟨reason, stopped, .ask moved answered head⟩

/-- A program that hands on what its first part returns. -/
theorem Exec.of_handing {ι : Type} {ρ : ι → Type} {ε α β S : Type} {W : World ι ρ S}
    {first : Program ι ρ ε α} {result : α → β} {value : β} {s t : S}
    (run : Exec W (first.bind (fun answer => .ret (result answer))) s (.ok value) t) :
    ∃ answer, Exec W first s (.ok answer) t ∧ result answer = value := by
  rcases run.of_bind with ⟨answer, middle, head, tail⟩ | ⟨reason, stopped, _⟩
  · cases tail
    exact ⟨answer, head, rfl⟩
  · cases stopped

namespace Program

variable {ι : Type} {ρ : ι → Type} {ε α β S : Type}

/-- Run a program against an environment that is a function of its state. -/
def runWith (answer : S → (query : ι) → ρ query × S) : Program ι ρ ε α → S → Except ε α × S
  | .ret value, s => (.ok value, s)
  | .halt reason, s => (.error reason, s)
  | .ask query next, s => (next (answer s query).1).runWith answer (answer s query).2

/-- A sequence runs its first part, and the rest from where that leaves off. -/
theorem runWith_bind (answer : S → (query : ι) → ρ query × S) (first : Program ι ρ ε α)
    (next : α → Program ι ρ ε β) (s : S) :
    (first.bind next).runWith answer s = match first.runWith answer s with
      | (.ok value, t) => (next value).runWith answer t
      | (.error reason, t) => (.error reason, t) := by
  induction first generalizing s with
  | ret value => rfl
  | halt reason => rfl
  | ask q rest ih => exact ih _ _

/-- Such a run is one of the runs in every world that admits the answers. -/
theorem exec_runWith {W : World ι ρ S} {answer : S → (query : ι) → ρ query × S}
    (admitted : ∀ s q, W.answers s q (answer s q).1 (answer s q).2) (program : Program ι ρ ε α)
    (s : S) : Exec W program s (program.runWith answer s).1 (program.runWith answer s).2 := by
  induction program generalizing s with
  | ret value => exact .ret
  | halt reason => exact .halt
  | ask q next ih => exact .ask .refl (admitted s q) (ih _ _)

/-- Weakest precondition against a world: whenever the program is about to ask
`q` in state `s`, `guard s q` holds, and whatever the answers are, a run that
ends satisfies `post`. -/
def wp (W : World ι ρ S) (guard : S → ι → Prop) (post : Except ε α → S → Prop) :
    Program ι ρ ε α → S → Prop
  | .ret value, s => post (.ok value) s
  | .halt reason, s => post (.error reason) s
  | .ask q next, s => ∀ s₁, W.Drifts s s₁ → guard s₁ q ∧
      ∀ answer s₂, W.answers s₁ q answer s₂ → (next answer).wp W guard post s₂

/-- What a first program must leave behind for the rest to reach `post`. -/
def onOk (next : α → S → Prop) (post : Except ε β → S → Prop) : Except ε α → S → Prop
  | .ok value, s => next value s
  | .error reason, s => post (.error reason) s

/-- Every query the program can ever ask is an allowed one, and so is every stop. -/
def Asks (allowed : ι → Prop) (stops : ε → Prop) : Program ι ρ ε α → Prop
  | .ret _ => True
  | .halt reason => stops reason
  | .ask q next => allowed q ∧ ∀ answer, (next answer).Asks allowed stops

theorem Asks.mono {allowed allowed' : ι → Prop} {stops stops' : ε → Prop} {program : Program ι ρ ε α}
    (asks : program.Asks allowed stops) (wider : ∀ q, allowed q → allowed' q)
    (stopsToo : ∀ reason, stops reason → stops' reason) : program.Asks allowed' stops' := by
  induction program with
  | ret value => trivial
  | halt reason => exact stopsToo _ asks
  | ask q follow ih => exact ⟨wider _ asks.1, fun answer => ih answer (asks.2 answer)⟩

theorem Asks.bind {allowed : ι → Prop} {stops : ε → Prop} {first : Program ι ρ ε α}
    {next : α → Program ι ρ ε β} (head : first.Asks allowed stops)
    (rest : ∀ value, (next value).Asks allowed stops) : (first.bind next).Asks allowed stops := by
  induction first with
  | ret value => exact rest value
  | halt reason => exact head
  | ask q follow ih => exact ⟨head.1, fun answer => ih answer (head.2 answer)⟩

/-- A program that never stops for a reason returns in every environment. -/
theorem Asks.returns {allowed : ι → Prop} {program : Program ι ρ ε α}
    (asks : program.Asks allowed (fun _ => False)) (answer : S → (query : ι) → ρ query × S)
    (s : S) : ∃ value t, program.runWith answer s = (.ok value, t) := by
  induction program generalizing s with
  | ret value => exact ⟨value, s, rfl⟩
  | halt reason => exact asks.elim
  | ask q next ih => exact ih _ (asks.2 _) _

section Rules

variable {W : World ι ρ S} {guard : S → ι → Prop}

@[simp] theorem onOk_ok (next : α → S → Prop) (post : Except ε β → S → Prop) (value : α) (s : S) :
    onOk next post (.ok value) s = next value s := rfl

@[simp] theorem onOk_error (next : α → S → Prop) (post : Except ε β → S → Prop)
    (reason : ε) (s : S) : onOk next post (.error reason) s = post (.error reason) s := rfl

@[simp] theorem wp_ret {post : Except ε α → S → Prop} (value : α) (s : S) :
    (Program.ret value : Program ι ρ ε α).wp W guard post s ↔ post (.ok value) s := Iff.rfl

@[simp] theorem wp_halt {post : Except ε α → S → Prop} (reason : ε) (s : S) :
    (Program.halt reason : Program ι ρ ε α).wp W guard post s ↔ post (.error reason) s := Iff.rfl

theorem wp_ask {post : Except ε α → S → Prop} (q : ι) (next : ρ q → Program ι ρ ε α) (s : S) :
    (Program.ask q next).wp W guard post s ↔ ∀ s₁, W.Drifts s s₁ → guard s₁ q ∧
      ∀ answer s₂, W.answers s₁ q answer s₂ → (next answer).wp W guard post s₂ := Iff.rfl

/-- Sequencing: the rest of the program takes over in the state the first part leaves. -/
theorem wp_bind {post : Except ε β → S → Prop} (first : Program ι ρ ε α)
    (next : α → Program ι ρ ε β) (s : S) :
    (first.bind next).wp W guard post s ↔
      first.wp W guard (onOk (fun value => (next value).wp W guard post) post) s := by
  induction first generalizing s with
  | ret value => rfl
  | halt reason => rfl
  | ask q rest ih =>
      simp only [ask_bind, wp_ask]
      constructor
      · intro holds s₁ moved
        exact ⟨(holds s₁ moved).1, fun answer s₂ answered =>
          (ih answer s₂).mp ((holds s₁ moved).2 answer s₂ answered)⟩
      · intro holds s₁ moved
        exact ⟨(holds s₁ moved).1, fun answer s₂ answered =>
          (ih answer s₂).mpr ((holds s₁ moved).2 answer s₂ answered)⟩

theorem wp_mono {guard' : S → ι → Prop} {post post' : Except ε α → S → Prop}
    {program : Program ι ρ ε α} {s : S} (holds : program.wp W guard post s)
    (guards : ∀ s q, guard s q → guard' s q)
    (implies : ∀ outcome t, post outcome t → post' outcome t) :
    program.wp W guard' post' s := by
  induction program generalizing s with
  | ret value => exact implies _ _ holds
  | halt reason => exact implies _ _ holds
  | ask q next ih =>
      intro s₁ moved
      exact ⟨guards _ _ (holds s₁ moved).1, fun answer s₂ answered =>
        ih answer ((holds s₁ moved).2 answer s₂ answered)⟩

/-- One query, when a stable assertion covers what the environment does first. -/
theorem wp_ask_of_stable {P : S → Prop} {post : Except ε α → S → Prop} {q : ι}
    {next : ρ q → Program ι ρ ε α} {s : S} (stable : ∀ s t, W.drift s t → P s → P t)
    (start : P s) (guarded : ∀ t, P t → guard t q)
    (rest : ∀ t answer t', P t → W.answers t q answer t' → (next answer).wp W guard post t') :
    (Program.ask q next).wp W guard post s := by
  intro s₁ moved
  have held : P s₁ := moved.preserves stable start
  exact ⟨guarded s₁ held, fun answer s₂ answered => rest s₁ answer s₂ held answered⟩

/-- In an environment that moves only when asked, a query is just its answers. -/
theorem wp_ask_of_still {post : Except ε α → S → Prop} (still : W.Still) (q : ι)
    (next : ρ q → Program ι ρ ε α) (s : S) :
    (Program.ask q next).wp W guard post s ↔ guard s q ∧
      ∀ answer t, W.answers s q answer t → (next answer).wp W guard post t := by
  constructor
  · intro holds
    exact holds s .refl
  · intro holds s₁ moved
    cases still.eq_of_drifts moved
    exact holds

/-- What every answer of the environment preserves, every program preserves. -/
theorem wp_of_preserved {I : S → Prop} (stable : ∀ s t, W.drift s t → I s → I t)
    (kept : ∀ s q answer t, W.answers s q answer t → I s → I t) (program : Program ι ρ ε α)
    (s : S) (start : I s) : program.wp W (fun _ _ => True) (fun _ t => I t) s := by
  induction program generalizing s with
  | ret value => exact start
  | halt reason => exact start
  | ask q next ih =>
      exact wp_ask_of_stable stable start (fun _ _ => trivial)
        (fun t answer t' held answered => ih answer t' (kept t q answer t' answered held))

/-- A program that asks only queries which leave `P` alone ends in `P`, and stops
only for the reasons it may. -/
theorem Asks.wp {allowed : ι → Prop} {stops : ε → Prop} {P : S → Prop} {program : Program ι ρ ε α}
    (asks : program.Asks allowed stops) (stable : ∀ s t, W.drift s t → P s → P t)
    (kept : ∀ s q answer t, allowed q → W.answers s q answer t → P s → P t)
    (guarded : ∀ s q, allowed q → P s → guard s q) {s : S} (start : P s) :
    program.wp W guard
      (fun outcome t => P t ∧ ∀ reason, outcome = .error reason → stops reason) s := by
  induction program generalizing s with
  | ret value => exact ⟨start, fun _ stopped => by cases stopped⟩
  | halt reason =>
      refine ⟨start, ?_⟩
      intro other stopped
      cases stopped
      exact asks
  | ask q follow ih =>
      apply wp_ask_of_stable stable start (fun t held => guarded t q asks.1 held)
      intro t answer t' held answered
      exact ih answer (asks.2 answer) (kept t q answer t' asks.1 answered held)

/-- Such a program as a first part can be skipped: the rest starts in some state that
still satisfies `P`. -/
theorem Asks.wp_bind {allowed : ι → Prop} {stops : ε → Prop} {P : S → Prop}
    {post : Except ε β → S → Prop} {first : Program ι ρ ε α} {next : α → Program ι ρ ε β}
    (asks : first.Asks allowed stops) (stable : ∀ s t, W.drift s t → P s → P t)
    (kept : ∀ s q answer t, allowed q → W.answers s q answer t → P s → P t)
    (guarded : ∀ s q, allowed q → P s → guard s q) {s : S} (start : P s)
    (stopped : ∀ reason t, stops reason → P t → post (.error reason) t)
    (rest : ∀ value t, P t → (next value).wp W guard post t) :
    (first.bind next).wp W guard post s := by
  rw [Program.wp_bind]
  apply wp_mono (asks.wp stable kept guarded start) (fun _ _ guarded => guarded)
  intro outcome t reached
  cases outcome with
  | ok value => exact rest value t reached.1
  | error reason => exact stopped reason t (reached.2 reason rfl) reached.1

/-- From any state in `I` the program meets the guards, and it leaves a state in `I`. -/
def Preserves (W : World ι ρ S) (guard : S → ι → Prop) (I : S → Prop)
    (program : Program ι ρ ε α) : Prop :=
  ∀ s, I s → program.wp W guard (fun _ t => I t) s

theorem Preserves.bind {I : S → Prop} {first : Program ι ρ ε α} {next : α → Program ι ρ ε β}
    (head : first.Preserves W guard I) (rest : ∀ value, (next value).Preserves W guard I) :
    (first.bind next).Preserves W guard I := by
  intro s start
  rw [Program.wp_bind]
  apply wp_mono (head s start) (fun _ _ guarded => guarded)
  intro outcome t held
  cases outcome with
  | ok value => exact rest value t held
  | error reason => exact held

theorem Asks.preserves {allowed : ι → Prop} {stops : ε → Prop} {I : S → Prop}
    {program : Program ι ρ ε α} (asks : program.Asks allowed stops)
    (stable : ∀ s t, W.drift s t → I s → I t)
    (kept : ∀ s q answer t, allowed q → W.answers s q answer t → I s → I t)
    (guarded : ∀ s q, allowed q → I s → guard s q) : program.Preserves W guard I := by
  intro s start
  apply wp_mono (asks.wp stable kept guarded start) (fun _ _ guarded => guarded)
  exact fun _ _ held => held.1

/-- A weakest precondition speaks about every complete run. -/
theorem wp.exec {post : Except ε α → S → Prop} {program : Program ι ρ ε α} {s t : S}
    {outcome : Except ε α} (holds : program.wp W guard post s)
    (run : Exec W program s outcome t) : post outcome t := by
  induction run with
  | ret => exact holds
  | halt => exact holds
  | ask moved answered _ ih => exact ih ((holds _ moved).2 _ _ answered)

end Rules

end Program

end Interact
