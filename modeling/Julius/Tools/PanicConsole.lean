import Julius.Init.Texts
import Julius.Tools.PanicReport

set_option autoImplicit false

/- What julius-init prints is nothing to tools/panic-parse.py, its panics included. -/
namespace Julius

open Interact

/-- Not the two characters that all words the line loop looks for have next to each other:
`c(` in `panic(`, `ke` in `kernel panic` and `kt` in `backtrace`. -/
def Apart (a b : Char) : Prop := ¬ ((a = 'c' ∧ b = '(') ∨ (a = 'k' ∧ (b = 'e' ∨ b = 't')))

instance : DecidableRel Apart := fun _ _ => inferInstanceAs (Decidable (¬ _))

/-- A text with no such pair, whatever it follows. -/
structure Quiet (s : Str) : Prop where
  apart : (lower s).IsChain Apart
  begins : ∀ c ∈ (lower s).head?, c ≠ '(' ∧ c ≠ 'e' ∧ c ≠ 't'

theorem Quiet.empty : Quiet [] := ⟨List.isChain_nil, nofun⟩

theorem Quiet.append {first second : Str} (front : Quiet first) (back : Quiet second) :
    Quiet (first ++ second) := by
  constructor
  · rw [lower_append]
    refine List.isChain_append.mpr ⟨front.apart, back.apart, ?_⟩
    rintro a _ b begins (⟨_, rfl⟩ | ⟨_, rfl | rfl⟩)
    · exact (back.begins _ begins).1 rfl
    · exact (back.begins _ begins).2.1 rfl
    · exact (back.begins _ begins).2.2 rfl
  · intro c first'
    rw [lower_append] at first'
    cases lowered : lower first with
    | nil =>
        rw [lowered] at first'
        exact back.begins c first'
    | cons d rest =>
        rw [lowered] at first'
        exact front.begins c (lowered ▸ first')

theorem Quiet.flatMap {α : Type} {text : α → Str} {items : List α}
    (quiet : ∀ x ∈ items, Quiet (text x)) : Quiet (items.flatMap text) := by
  induction items with
  | nil => exact .empty
  | cons x items ih =>
      rw [List.flatMap_cons]
      exact (quiet x List.mem_cons_self).append
        (ih (fun y member => quiet y (List.mem_cons_of_mem _ member)))

theorem lower_singleton_ne (c : Char) : lower [c] ≠ [] := by
  rw [lower, List.flatMap_singleton]
  split
  · exact List.cons_ne_nil _ _
  · split
    · exact List.cons_ne_nil _ _
    · exact List.cons_ne_nil _ _

/-- A line end is next to nothing that the words have next to each other. -/
theorem newlines_apart (behindCr : Bool) {s : Str} (apart : (lower s).IsChain Apart) :
    (lower (newlines behindCr s)).IsChain Apart ∧
      ∀ c ∈ (lower (newlines behindCr s)).head?,
        c = '\n' ∨ behindCr = true ∨ c ∈ (lower s).head? := by
  have before : ∀ d, Apart '\n' d := by
    rintro d (⟨ended, _⟩ | ⟨ended, _⟩)
    · cases ended
    · cases ended
  have behind : ∀ d, Apart d '\n' := by
    rintro d (⟨_, ended⟩ | ⟨_, ended | ended⟩)
    · cases ended
    · cases ended
    · cases ended
  induction s generalizing behindCr with
  | nil => exact ⟨List.isChain_nil, nofun⟩
  | cons c s ih =>
      have parts : lower (c :: s) = lower [c] ++ lower s := lower_append [c] s
      rw [parts] at apart ⊢
      obtain ⟨first, rest, between⟩ := List.isChain_append.mp apart
      rw [newlines]
      split
      · refine ⟨?_, fun d ends => Or.inl (Option.some.inj ends).symm⟩
        show ('\n' :: lower (newlines true s)).IsChain Apart
        exact List.isChain_cons.mpr ⟨fun d _ => before d, (ih true rest).1⟩
      · split
        · rename_i both
          exact ⟨(ih false rest).1, fun d _ => Or.inr (Or.inl both.2)⟩
        · obtain ⟨chain, begins⟩ := ih false rest
          have same : lower (c :: newlines false s) = lower [c] ++ lower (newlines false s) :=
            lower_append [c] _
          rw [same]
          constructor
          · refine List.isChain_append.mpr ⟨first, chain, fun d last e head => ?_⟩
            rcases begins e head with rfl | impossible | head'
            · exact behind d
            · cases impossible
            · exact between d last e head'
          · intro d head
            cases lowered : lower [c] with
            | nil => exact absurd lowered (lower_singleton_ne c)
            | cons e tail =>
                rw [lowered] at head
                exact Or.inr (Or.inr head)

theorem Quiet.universalNewlines {s : Str} (quiet : Quiet s) : Quiet (universalNewlines s) := by
  obtain ⟨chain, begins⟩ := newlines_apart false quiet.apart
  refine ⟨chain, fun c first => ?_⟩
  rcases begins c first with rfl | impossible | same
  · decide
  · cases impossible
  · exact quiet.begins c same

/-- No part of a quiet text has a word with such a pair in it. -/
theorem Quiet.without {s part word : Str} (quiet : Quiet s) (within : part <:+: s)
    (paired : ¬ word.IsChain Apart) : ¬ word <:+: lower part := by
  intro found
  have inside : word <:+: lower s := found.trans (within.flatMap _)
  exact paired <| List.IsChain.infix quiet.apart inside

theorem Quiet.line {s part : Str} (quiet : Quiet s) (within : part <:+: s) :
    PanicLog.startsPanic part = false ∧ PanicLog.startsBacktrace part = false := by
  have header : ∀ word : String, ¬ (lower word.toList).IsChain Apart →
      contains part word = false := fun word paired =>
    decide_eq_false (fun found => quiet.without within paired (found.flatMap _))
  constructor
  · exact Bool.or_eq_false_iff.mpr
      ⟨decide_eq_false (quiet.without within (by decide)),
        decide_eq_false (quiet.without within (by decide))⟩
  · exact Bool.or_eq_false_iff.mpr ⟨header _ (by decide), header _ (by decide)⟩

theorem initTexts_quiet : ∀ s ∈ initTexts, Quiet s.toList := by
  have table : initTexts.all (fun s => decide ((lower s.toList).IsChain Apart) &&
      (lower s.toList).head?.all (fun c => c ≠ '(' ∧ c ≠ 'e' ∧ c ≠ 't')) = true := by
    simp only [initTexts, banner, List.all_cons, List.all_nil, String.toList_append]
    repeat rw [String.toList_ofList]
    decide +kernel
  intro s member
  obtain ⟨apart, begins⟩ := (Bool.and_eq_true _ _).mp (List.all_eq_true.mp table s member)
  refine ⟨of_decide_eq_true apart, fun c first => ?_⟩
  rw [Option.mem_def.mp first] at begins
  exact of_decide_eq_true begins

/-- A number has no `(` and no `k`. -/
theorem hexText_quiet (v : Word) : Quiet (hexText v) := by
  obtain ⟨numeral, text, shortest⟩ := hexText_eq v
  have address : ∀ c ∈ hexText v, isAddressChar c = true := by
    intro c member
    rw [text] at member
    rcases List.mem_append.mp member with mark | digit
    · exact List.all_eq_true.mp (by decide : "0x".toList.all isAddressChar = true) c mark
    · exact List.all_eq_true.mp (by decide : digits.all isAddressChar = true) c
        (shortest.digits c digit)
  have lowered := lower_address address
  constructor
  · apply List.Pairwise.isChain
    apply List.pairwise_of_forall_mem_list
    rintro a inside b behind (⟨_, rfl⟩ | ⟨rfl, _⟩)
    · exact absurd (lowered _ behind) (by decide)
    · exact absurd (lowered _ inside) (by decide)
  · rw [text, lower_append]
    intro c first
    rw [← Option.some.inj first]
    decide

/-- The console of PID 1 is quiet, wherever it is and whatever the kernel answers. -/
theorem consoleText_quiet (memory : Memory) (stack : JuliusSimpleMsg)
    {place : Server.Config Trap Trap.Answer Panic (InitState × JuliusSimpleMsg) × List Event}
    (reached : (juliusStart memory stack).Reachable anyKernel [] place) :
    Quiet (consoleText place.2) := by
  obtain ⟨start, body⟩ := juliusStart_tells memory stack
  apply Quiet.flatMap
  rintro ⟨trap, answer⟩ member
  have tells : trap.Tells := anyKernel_asked start body reached _ member
  cases trap with
  | write fd text =>
      show Quiet (if fd = 2 then text.toList else [])
      split
      · rcases tells with known | ⟨v, rfl⟩
        · exact initTexts_quiet text known
        · exact hexText_quiet v
      · exact .empty
  | _ => exact .empty

namespace PanicLog

/-- Until the first panic and the first header nothing is collected. -/
theorem foldl_nothing {lines : List Str}
    (nothing : ∀ line ∈ lines, isPanicLine line = false ∧ isHeaderLine line = false) :
    lines.foldl parseLine .empty = .empty := by
  induction lines with
  | nil => rfl
  | cons line lines ih =>
      have idle : PanicLog.empty.parseLine line = .empty := by
        obtain ⟨quiet, plain⟩ := nothing line List.mem_cons_self
        have same : PanicLog.empty.detectPanic (rstrip line) = .empty := by
          rw [detectPanic, show startsPanic (rstrip line) = false from quiet,
            if_neg Bool.false_ne_true]
        unfold parseLine
        dsimp only
        rw [same, show startsBacktrace (rstrip line) = false from plain, if_neg Bool.false_ne_true]
        rfl
      rw [List.foldl_cons, idle]
      exact ih (fun line member => nothing line (List.mem_cons_of_mem _ member))

end PanicLog

end Julius
