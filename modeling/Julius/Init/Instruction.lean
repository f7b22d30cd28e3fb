import Julius.Libc.Abi
import Mathlib.Data.List.TakeWhile
import Julius.Init.Texts

set_option autoImplicit false

/- julius-init down to the `syscall` instruction. -/
namespace Julius

open Interact

theorem utf8ByteSize_ofList (text : List Char) :
    (String.ofList text).utf8ByteSize = (text.map Char.utf8Size).sum := by
  induction text with
  | nil => rfl
  | cons c rest ih =>
      have one : (String.ofList [c]).utf8ByteSize = c.utf8Size := by simp
      have split : String.ofList (c :: rest) = String.ofList [c] ++ String.ofList rest := by
        rw [← String.ofList_append, List.singleton_append]
      rw [split, String.utf8ByteSize_append, List.map_cons, List.sum_cons, one, ih]

theorem utf8ByteSize_ofList_le (text : List Char) :
    (String.ofList text).utf8ByteSize ≤ 4 * text.length := by
  rw [utf8ByteSize_ofList]
  induction text with
  | nil => exact Nat.zero_le _
  | cons c rest ih =>
      have first := c.utf8Size_le_four
      rw [List.map_cons, List.sum_cons, List.length_cons]
      omega

-- Taken as lists of characters, line by line for the banner, the texts are cheap to evaluate.
theorem initTexts_fit :
    initTexts.all (fun s => s.toList.all (· ≠ '\x00') && s.utf8ByteSize < 2 ^ 64) = true := by
  simp only [initTexts, banner, List.all_cons, List.all_nil, String.toList_append, List.all_append,
    String.utf8ByteSize_append]
  repeat rw [String.toList_ofList]
  repeat rw [utf8ByteSize_ofList]
  decide +kernel

/-- A number is at most a buffer long, and stops before its first NUL. -/
theorem putHexText_fits (v : Word) : '\x00' ∉ (putHexText v (fun _ => '\x00')).1.toList ∧
    (putHexText v (fun _ => '\x00')).1.utf8ByteSize < 2 ^ 64 := by
  unfold putHexText
  split
  · exact ⟨by decide, by decide⟩
  · unfold Buffer.cString
    dsimp only
    generalize (putHexBuffer v fun _ => '\x00').1 = i
    generalize (putHexBuffer v fun _ => '\x00').2 = buf
    have room : ((List.range 19).map (fun k : Nat => buf (i + k))).length ≤ 19 := by simp
    generalize (List.range 19).map (fun k : Nat => buf (i + k)) = chars at room ⊢
    rw [String.toList_ofList]
    constructor
    · exact fun member => absurd (List.mem_takeWhile_imp member) (by decide)
    · have kept := (List.takeWhile_sublist (l := chars) (fun c => decide (c ≠ '\x00'))).length_le
      have size := utf8ByteSize_ofList_le (chars.takeWhile (fun c => decide (c ≠ '\x00')))
      omega

/-- All that PID 1 writes are texts a C string can hold. -/
theorem Trap.Tells.fits {trap : Trap} (tells : trap.Tells) : trap.Fits := by
  cases trap with
  | write fd text =>
      rcases tells with member | ⟨v, rfl⟩
      · have fits := (Bool.and_eq_true _ _).mp (List.all_eq_true.mp initTexts_fit text member)
        refine ⟨fun inside => ?_, of_decide_eq_true fits.2⟩
        exact of_decide_eq_true (List.all_eq_true.mp fits.1 _ inside) rfl
      · exact putHexText_fits v
  | _ => trivial

theorem juliusStart_fits (memory : Memory) (stack : JuliusSimpleMsg) :
    (juliusStart memory stack).start.Asks Trap.Fits (fun _ => True) ∧
      ∀ state, ((juliusStart memory stack).body state).Asks Trap.Fits (fun _ => True) :=
  ⟨(juliusStart_tells memory stack).1.mono (fun _ => Trap.Tells.fits) (fun _ _ => trivial),
    fun state => ((juliusStart_tells memory stack).2 state).mono (fun _ => Trap.Tells.fits)
      (fun _ _ => trivial)⟩

/-- PID 1 on a machine: each of its calls goes through the registers and the memory. -/
def juliusStartOn (slot : Trap → Word) (memory : Memory) (stack : JuliusSimpleMsg)
    (machine : Machine) :
    Server Machine (fun _ => Word × Memory) Panic ((InitState × JuliusSimpleMsg) × Machine) :=
  (juliusStart memory stack).lower (abiLayer slot) machine

/-- Over the instruction PID 1 is, in every run with every kernel, at the same places as with
its calls taken as a whole, and at no others. Every instruction it comes to is, by number and
arguments, the call it is about to make. -/
theorem juliusStart_instruction {S : Type} (K : World Trap Trap.Answer S) (slot : Trap → Word)
    (there : ∀ trap, slot trap ≠ null) (memory : Memory) (stack : JuliusSimpleMsg)
    (machine : Machine) (s₀ : S) :
    (∀ config s, (juliusStart memory stack).Reachable K s₀ (config, s) →
      ∃ lower, Server.Lowered (abiLayer slot) config lower ∧
        (juliusStartOn slot memory stack machine).Reachable (abiKernel K) s₀ (lower, s)) ∧
    (∀ lower s, (juliusStartOn slot memory stack machine).Reachable (abiKernel K) s₀ (lower, s) →
      ∃ config, Server.Lowered (abiLayer slot) config lower ∧
        (juliusStart memory stack).Reachable K s₀ (config, s)) ∧
    ∀ lower s instruction,
      (juliusStartOn slot memory stack machine).Reachable (abiKernel K) s₀ (lower, s) →
      lower.Asking instruction →
      ∃ config trap, (juliusStart memory stack).Reachable K s₀ (config, s) ∧
        config.Asking trap ∧ instruction.trap? = some trap := by
  have faithful := abiLayer_faithful (K := K) there
  obtain ⟨start, body⟩ := juliusStart_fits memory stack
  refine ⟨?_, ?_, ?_⟩
  · intro config s reached
    exact reached.down faithful start body
  · intro lower s reached
    exact reached.up faithful start body
  · intro lower s instruction reached asking
    exact reached.asking faithful start body asking

/-- Under a kernel that may answer anything, from cleared registers and memory: the
instruction for the banner has been executed, and the next one is for the line behind it. -/
theorem juliusStart_instruction_second : ∃ lower instruction config,
    (juliusStartOn (fun _ => 0x1000) (fun _ => 0) ⟨⟨0, 0, 0, 0, 0, 0⟩⟩
      ⟨⟨0, 0, 0, 0, 0, 0, 0⟩, fun _ => 0⟩).Reachable (abiKernel anyKernel) []
        (lower, [⟨.write 2 banner, (0 : Word)⟩]) ∧
      lower.Asking instruction ∧
      (juliusStart (fun _ => 0) ⟨⟨0, 0, 0, 0, 0, 0⟩⟩).Reachable anyKernel []
        (config, [⟨.write 2 banner, (0 : Word)⟩]) ∧
      config.Asking (.write 2 "init: PID 1 starting\r\n") ∧
      instruction.trap? = some (.write 2 "init: PID 1 starting\r\n") := by
  let memory : Memory := fun _ => 0
  let stack : JuliusSimpleMsg := ⟨⟨0, 0, 0, 0, 0, 0⟩⟩
  have there : ∀ trap : Trap, (fun _ => 0x1000 : Trap → Word) trap ≠ null :=
    fun _ => (by decide : (0x1000 : Word) ≠ null)
  obtain ⟨down, -, asking⟩ := juliusStart_instruction anyKernel (fun _ => 0x1000) there memory stack
    ⟨⟨0, 0, 0, 0, 0, 0, 0⟩, fun _ => 0⟩ []
  have told : anyKernel.answers [] (.write 2 banner) (0 : Word)
      [⟨.write 2 banner, (0 : Word)⟩] := rfl
  have reached : (juliusStart memory stack).Reachable anyKernel [] (_, _) :=
    .tail .refl (.startAsk told)
  obtain ⟨lower, lowered, below⟩ := down _ _ reached
  have asks := Server.Reachable.asks (juliusStart_fits memory stack).1
    (juliusStart_fits memory stack).2 reached
  obtain ⟨instruction, asked, meant⟩ := lowered.asked (q := .write 2 "init: PID 1 starting\r\n")
    (abiLayer_faithful (K := anyKernel) there) asks rfl
  obtain ⟨config, trap, place, next, decoded⟩ := asking _ _ _ below asked
  cases Option.some.inj (meant.symm.trans decoded)
  exact ⟨lower, instruction, config, below, asked, place, next, decoded⟩

end Julius
