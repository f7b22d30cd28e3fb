import Julius.Lib.System

set_option autoImplicit false

/- Programs carried out over an interface below the one they are written for. -/
namespace Interact

/-- How each query is carried out over the lower interface, on a state `M` that only
the lower level knows. -/
def Layer (ι : Type) (ρ : ι → Type) (ι' : Type) (ρ' : ι' → Type) (ε M : Type) : Type :=
  (q : ι) → M → Program ι' ρ' ε (ρ q × M)

variable {ι ι' : Type} {ρ : ι → Type} {ρ' : ι' → Type} {ε α σ M S : Type}

def Program.lower (L : Layer ι ρ ι' ρ' ε M) : Program ι ρ ε α → M → Program ι' ρ' ε (α × M)
  | .ret value, m => .ret (value, m)
  | .halt reason, _ => .halt reason
  | .ask q next, m => (L q m).bind (fun result => (next result.1).lower L result.2)

/-- The lower state joins the state of the loop. -/
def Flow.beside : Flow σ × M → Flow (σ × M)
  | (.again state, m) => .again (state, m)
  | (.leave, _) => .leave

def Server.lower (L : Layer ι ρ ι' ρ' ε M) (V : Server ι ρ ε σ) (m : M) :
    Server ι' ρ' ε (σ × M) where
  start := V.start.lower L m
  body := fun state =>
    ((V.body state.1).lower L state.2).bind (fun result => .ret (Flow.beside result))

/-- The query takes one query of the lower interface, which means it, and what may be answered
to that is what may be answered to the query itself. -/
structure Layer.Carries (L : Layer ι ρ ι' ρ' ε M) (W : World ι ρ S) (W' : World ι' ρ' S)
    (means : ι' → ι → Prop) (q : ι) (m : M) (request : ι') (result : ρ' request → ρ q × M) :
    Prop where
  asks : L q m = .ask request (fun answer => .ret (result answer))
  meant : means request q
  sound : ∀ s answer t, W'.answers s request answer t → W.answers s q (result answer).1 t
  complete : ∀ s answer t, W.answers s q answer t →
    ∃ lower, W'.answers s request lower t ∧ (result lower).1 = answer

/-- The lower world moves like the upper one, and the allowed queries are carried out in it. -/
structure Layer.Faithful (L : Layer ι ρ ι' ρ' ε M) (W : World ι ρ S) (W' : World ι' ρ' S)
    (means : ι' → ι → Prop) (allowed : ι → Prop) : Prop where
  drift : W'.drift = W.drift
  carries : ∀ q m, allowed q → ∃ request result, L.Carries W W' means q m request result

/-- A place of a server, and the same place of the server carried out over the layer. -/
inductive Server.Lowered (L : Layer ι ρ ι' ρ' ε M) :
    Config ι ρ ε σ → Config ι' ρ' ε (σ × M) → Prop
  | starting (rest : Program ι ρ ε σ) (m : M) :
      Lowered L (.starting rest) (.starting (rest.lower L m))
  | top (state : σ) (m : M) : Lowered L (.top state) (.top (state, m))
  | serving (state : σ) (rest : Program ι ρ ε (Flow σ)) (before m : M) :
      Lowered L (.serving state rest)
        (.serving (state, before) ((rest.lower L m).bind (fun result => .ret (Flow.beside result))))
  | left : Lowered L .left .left

namespace Server

variable {L : Layer ι ρ ι' ρ' ε M} {W : World ι ρ S} {W' : World ι' ρ' S} {V : Server ι ρ ε σ}
  {allowed : ι → Prop} {stops : ε → Prop}

/-- The server is about to ask that query. -/
def Config.Asking (q : ι) : Config ι ρ ε σ → Prop
  | .starting (.ask p _) => p = q
  | .serving _ (.ask p _) => p = q
  | _ => False

/-- What is left to do where the server is asks only allowed queries. -/
def Config.Asks (allowed : ι → Prop) (stops : ε → Prop) : Config ι ρ ε σ → Prop
  | .starting rest => rest.Asks allowed stops
  | .serving _ rest => rest.Asks allowed stops
  | _ => True

theorem Step.asks (body : ∀ state, (V.body state).Asks allowed stops)
    {config next : Config ι ρ ε σ × S} (step : Step V W config next)
    (asks : config.1.Asks allowed stops) : next.1.Asks allowed stops := by
  cases step with
  | drift moved => exact asks
  | startAsk answered => exact asks.2 _
  | enter => trivial
  | pass => exact body _
  | ask answered => exact asks.2 _
  | again => trivial
  | leave => trivial

theorem Reachable.asks (start : V.start.Asks allowed stops)
    (body : ∀ state, (V.body state).Asks allowed stops) {s₀ : S} {config : Config ι ρ ε σ × S}
    (reached : V.Reachable W s₀ config) : config.1.Asks allowed stops := by
  induction reached with
  | refl => exact start
  | tail _ step ih => exact step.asks body ih

end Server

section

variable {L : Layer ι ρ ι' ρ' ε M} {W : World ι ρ S} {W' : World ι' ρ' S} {means : ι' → ι → Prop}

theorem Layer.Carries.lower {q : ι} {m : M} {request : ι'} {result : ρ' request → ρ q × M}
    (carries : L.Carries W W' means q m request result) (next : ρ q → Program ι ρ ε α) :
    (Program.ask q next).lower L m =
      .ask request (fun answer => (next (result answer).1).lower L (result answer).2) := by
  rw [Program.lower, carries.asks]
  rfl

variable {V : Server ι ρ ε σ} {allowed : ι → Prop} {stops : ε → Prop} {m₀ : M}

/-- A move of the server can be made over the layer too. -/
theorem Server.Step.down (faithful : L.Faithful W W' means allowed)
    {config next : Server.Config ι ρ ε σ}
    {s t : S} (step : Server.Step V W (config, s) (next, t)) (asks : config.Asks allowed stops)
    {lower : Server.Config ι' ρ' ε (σ × M)} (lowered : Server.Lowered L config lower) :
    ∃ after, Server.Lowered L next after ∧ Server.Step (V.lower L m₀) W' (lower, s) (after, t) := by
  cases step with
  | drift moved =>
      refine ⟨lower, lowered, .drift ?_⟩
      rw [faithful.drift]
      exact moved
  | startAsk answered =>
      cases lowered with
      | starting _ m =>
          obtain ⟨request, result, carries⟩ := faithful.carries _ m asks.1
          obtain ⟨answer, answeredBelow, same⟩ := carries.complete _ _ _ answered
          rw [carries.lower, ← same]
          exact ⟨_, .starting _ _, .startAsk answeredBelow⟩
  | enter =>
      cases lowered with
      | starting _ m => exact ⟨_, .top _ m, .enter⟩
  | pass =>
      cases lowered with
      | top _ m => exact ⟨_, .serving _ _ m m, .pass⟩
  | ask answered =>
      cases lowered with
      | serving _ _ before m =>
          obtain ⟨request, result, carries⟩ := faithful.carries _ m asks.1
          obtain ⟨answer, answeredBelow, same⟩ := carries.complete _ _ _ answered
          rw [carries.lower, ← same]
          exact ⟨_, .serving _ _ before _, .ask answeredBelow⟩
  | again =>
      cases lowered with
      | serving _ _ before m => exact ⟨_, .top _ m, .again⟩
  | leave =>
      cases lowered with
      | serving _ _ before m => exact ⟨_, .left, .leave⟩

/-- A move made over the layer is a move of the server. -/
theorem Server.Step.up (faithful : L.Faithful W W' means allowed) {config : Server.Config ι ρ ε σ}
    (asks : config.Asks allowed stops) {lower after : Server.Config ι' ρ' ε (σ × M)} {s t : S}
    (lowered : Server.Lowered L config lower)
    (step : Server.Step (V.lower L m₀) W' (lower, s) (after, t)) :
    ∃ next, Server.Lowered L next after ∧ Server.Step V W (config, s) (next, t) := by
  cases lowered with
  | starting rest m =>
      cases rest with
      | ret state =>
          cases step with
          | drift moved => exact ⟨_, .starting _ m, .drift (faithful.drift ▸ moved)⟩
          | enter => exact ⟨_, .top state m, .enter⟩
      | halt reason =>
          cases step with
          | drift moved => exact ⟨_, .starting _ m, .drift (faithful.drift ▸ moved)⟩
      | ask q next =>
          obtain ⟨request, result, carries⟩ := faithful.carries q m asks.1
          have shape := carries.lower next
          rw [shape] at step
          cases step with
          | drift moved => exact ⟨_, shape ▸ .starting _ m, .drift (faithful.drift ▸ moved)⟩
          | startAsk answered => exact ⟨_, .starting _ _, .startAsk (carries.sound _ _ _ answered)⟩
  | top state m =>
      cases step with
      | drift moved => exact ⟨_, .top state m, .drift (faithful.drift ▸ moved)⟩
      | pass => exact ⟨_, .serving state _ m m, .pass⟩
  | serving state rest before m =>
      cases rest with
      | ret flow =>
          cases flow with
          | again other =>
              cases step with
              | drift moved => exact ⟨_, .serving state _ before m, .drift (faithful.drift ▸ moved)⟩
              | again => exact ⟨_, .top other m, .again⟩
          | leave =>
              cases step with
              | drift moved => exact ⟨_, .serving state _ before m, .drift (faithful.drift ▸ moved)⟩
              | leave => exact ⟨_, .left, .leave⟩
      | halt reason =>
          cases step with
          | drift moved => exact ⟨_, .serving state _ before m, .drift (faithful.drift ▸ moved)⟩
      | ask q next =>
          obtain ⟨request, result, carries⟩ := faithful.carries q m asks.1
          have shape := carries.lower next
          rw [shape] at step
          cases step with
          | drift moved =>
              exact ⟨_, shape ▸ .serving state _ before m, .drift (faithful.drift ▸ moved)⟩
          | ask answered =>
              exact ⟨_, .serving state _ before _, .ask (carries.sound _ _ _ answered)⟩
  | left =>
      cases step with
      | drift moved => exact ⟨_, .left, .drift (faithful.drift ▸ moved)⟩

/-- A server is about to ask something just when it is about to ask what means that over the
layer. -/
theorem Server.Lowered.asks_alike (faithful : L.Faithful W W' means allowed)
    {config : Server.Config ι ρ ε σ} (asks : config.Asks allowed stops)
    {lower : Server.Config ι' ρ' ε (σ × M)} (lowered : Server.Lowered L config lower) :
    (∃ q request, (∀ p, config.Asking p ↔ q = p) ∧ (∀ p, lower.Asking p ↔ request = p) ∧
      means request q) ∨ ((∀ p, ¬ config.Asking p) ∧ ∀ p, ¬ lower.Asking p) := by
  cases lowered with
  | starting rest m =>
      cases rest with
      | ret state => exact Or.inr ⟨fun _ => id, fun _ => id⟩
      | halt reason => exact Or.inr ⟨fun _ => id, fun _ => id⟩
      | ask q next =>
          obtain ⟨request, result, carries⟩ := faithful.carries q m asks.1
          rw [carries.lower next]
          exact Or.inl ⟨q, request, fun _ => Iff.rfl, fun _ => Iff.rfl, carries.meant⟩
  | top state m => exact Or.inr ⟨fun _ => id, fun _ => id⟩
  | serving state rest before m =>
      cases rest with
      | ret flow => exact Or.inr ⟨fun _ => id, fun _ => id⟩
      | halt reason => exact Or.inr ⟨fun _ => id, fun _ => id⟩
      | ask q next =>
          obtain ⟨request, result, carries⟩ := faithful.carries q m asks.1
          rw [carries.lower next]
          exact Or.inl ⟨q, request, fun _ => Iff.rfl, fun _ => Iff.rfl, carries.meant⟩
  | left => exact Or.inr ⟨fun _ => id, fun _ => id⟩

/-- What the server is about to ask over the layer means what it is about to ask. -/
theorem Server.Lowered.asking (faithful : L.Faithful W W' means allowed)
    {config : Server.Config ι ρ ε σ} (asks : config.Asks allowed stops)
    {lower : Server.Config ι' ρ' ε (σ × M)} (lowered : Server.Lowered L config lower) {request : ι'}
    (asking : lower.Asking request) : ∃ q, config.Asking q ∧ means request q := by
  rcases lowered.asks_alike faithful asks with ⟨q, below, asked, askedBelow, meant⟩ | ⟨-, nothing⟩
  · obtain rfl := (askedBelow request).mp asking
    exact ⟨q, (asked q).mpr rfl, meant⟩
  · exact absurd asking (nothing request)

/-- Whatever the server is about to ask, it is about to ask over the layer too. -/
theorem Server.Lowered.asked (faithful : L.Faithful W W' means allowed)
    {config : Server.Config ι ρ ε σ} (asks : config.Asks allowed stops)
    {lower : Server.Config ι' ρ' ε (σ × M)} (lowered : Server.Lowered L config lower) {q : ι}
    (asking : config.Asking q) : ∃ request, lower.Asking request ∧ means request q := by
  rcases lowered.asks_alike faithful asks with ⟨p, below, asked, askedBelow, meant⟩ | ⟨nothing, -⟩
  · obtain rfl := (asked q).mp asking
    exact ⟨below, (askedBelow below).mpr rfl, meant⟩
  · exact absurd asking (nothing q)

section

variable (faithful : L.Faithful W W' means allowed) (start : V.start.Asks allowed stops)
  (body : ∀ state, (V.body state).Asks allowed stops)

include faithful start body

/-- Wherever the server can be, it can be over the layer. -/
theorem Server.Reachable.down {s₀ : S} {config : Server.Config ι ρ ε σ × S}
    (reached : V.Reachable W s₀ config) :
    ∃ lower, Server.Lowered L config.1 lower ∧
      (V.lower L m₀).Reachable W' s₀ (lower, config.2) := by
  induction reached with
  | refl => exact ⟨_, .starting _ m₀, .refl⟩
  | tail before step ih =>
      obtain ⟨lower, lowered, path⟩ := ih
      obtain ⟨after, next, move⟩ :=
        step.down faithful (Server.Reachable.asks start body before) lowered
      exact ⟨after, next, path.tail move⟩

/-- Wherever it can be over the layer, the server can be. -/
theorem Server.Reachable.up {s₀ : S} {lower : Server.Config ι' ρ' ε (σ × M) × S}
    (reached : (V.lower L m₀).Reachable W' s₀ lower) :
    ∃ config, Server.Lowered L config lower.1 ∧ V.Reachable W s₀ (config, lower.2) := by
  induction reached with
  | refl => exact ⟨_, .starting _ m₀, .refl⟩
  | tail before step ih =>
      obtain ⟨config, lowered, path⟩ := ih
      obtain ⟨next, after, move⟩ :=
        step.up faithful (Server.Reachable.asks start body path) lowered
      exact ⟨next, after, path.tail move⟩

/-- And there it is about to ask what means the query of the server. -/
theorem Server.Reachable.asking {s₀ : S} {lower : Server.Config ι' ρ' ε (σ × M)} {s : S}
    (reached : (V.lower L m₀).Reachable W' s₀ (lower, s)) {request : ι'}
    (asking : lower.Asking request) :
    ∃ config q, V.Reachable W s₀ (config, s) ∧ config.Asking q ∧ means request q := by
  obtain ⟨config, lowered, path⟩ := reached.up faithful start body
  obtain ⟨q, asked, meant⟩ :=
    lowered.asking faithful (Server.Reachable.asks start body path) asking
  exact ⟨config, q, path, asked, meant⟩

end

end

end Interact
