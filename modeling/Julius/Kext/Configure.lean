import Mathlib.Tactic.LinearCombination
import Julius.Kext.Stream

set_option autoImplicit false

/- `hw_init` in front of an arbitrary device: the divisors it writes, what it leaves
in the registers, and whether it comes to an end. -/
namespace Julius

open Interact (Program)

theorem baud16_toNat (baud : Reg) : (baud16 baud).toNat = 16 * baud.toNat % 2 ^ 32 := by
  have sixteen : (16 : Reg).toNat = 16 := rfl
  rw [baud16, BitVec.toNat_setWidth, BitVec.toNat_mul, sixteen]
  omega

/-- Where `16 * baud` does not wrap, the divisors are the integer quotients of the source. -/
theorem baudDivisors_toNat {baud : Reg} (small : baud.toNat < 2 ^ 28) :
    (baudDivisors baud).1.toNat = 24000000 / (16 * baud.toNat) ∧
      (baudDivisors baud).2.toNat =
        (24000000 % (16 * baud.toNat) * 64 + baud.toNat / 2) / baud.toNat := by
  have clock : juliusUartClockHz.toNat = 24000000 := rfl
  have factor : (64 : Word).toNat = 64 := rfl
  have two : (2 : Reg).toNat = 2 := rfl
  have divisor := baud16_toNat baud
  rw [Nat.mod_eq_of_lt (by omega)] at divisor
  have half : baud.toNat / 2 < 2 ^ 27 := by omega
  have rest : 24000000 % (16 * baud.toNat) ≤ 24000000 := Nat.mod_le _ _
  constructor
  · rw [baudDivisors, BitVec.toNat_setWidth, BitVec.toNat_udiv, clock, divisor]
    exact Nat.mod_eq_of_lt (Nat.lt_of_le_of_lt (Nat.div_le_self _ _) (by decide))
  · have sum : (juliusUartClockHz % baud16 baud * 64 + (baud / 2).setWidth 64).toNat =
        24000000 % (16 * baud.toNat) * 64 + baud.toNat / 2 := by
      rw [BitVec.toNat_add, BitVec.toNat_mul, BitVec.toNat_umod, clock, divisor, factor,
        BitVec.toNat_setWidth, BitVec.toNat_udiv, two]
      generalize 24000000 % (16 * baud.toNat) = r at rest ⊢
      omega
    have below : 24000000 % (16 * baud.toNat) * 64 + baud.toNat / 2 < 2 ^ 32 := by
      generalize 24000000 % (16 * baud.toNat) = r at rest ⊢
      omega
    have wide : (baud.setWidth 64).toNat = baud.toNat := by
      rw [BitVec.toNat_setWidth]
      omega
    rw [baudDivisors, BitVec.toNat_setWidth, BitVec.toNat_udiv, sum, wide]
    exact Nat.mod_eq_of_lt (Nat.lt_of_le_of_lt (Nat.div_le_self _ _) below)

/-- The divisors are in range and the nearest to the rate: `64 * IBRD + FBRD` is at most
half a unit off `4 * 24000000 / baud`. -/
def DivisorsRight (baud ibrd fbrd : Nat) : Prop :=
  1 ≤ ibrd ∧ ibrd ≤ 65535 ∧ fbrd ≤ 63 ∧
    2 * ((baud : Int) * (64 * ibrd + fbrd) - 4 * 24000000).natAbs ≤ baud

instance (baud ibrd fbrd : Nat) : Decidable (DivisorsRight baud ibrd fbrd) :=
  inferInstanceAs (Decidable (1 ≤ ibrd ∧ ibrd ≤ 65535 ∧ fbrd ≤ 63 ∧
    2 * ((baud : Int) * (64 * ibrd + fbrd) - 4 * 24000000).natAbs ≤ baud))

/-- The fraction comes out sixteen times too large, so that it is right only where it is zero. -/
theorem divisorsRight_iff (baud : Nat) (low : 23 ≤ baud) (high : baud ≤ 1500000) :
    DivisorsRight baud (24000000 / (16 * baud))
        ((24000000 % (16 * baud) * 64 + baud / 2) / baud) ↔
      128 * (24000000 % (16 * baud)) < baud := by
  have whole := Nat.div_add_mod 24000000 (16 * baud)
  have ibrdLow : 1 ≤ 24000000 / (16 * baud) := Nat.div_pos (by omega) (by omega)
  have ibrdHigh : 24000000 / (16 * baud) ≤ 65535 :=
    (Nat.div_le_div_left (show 16 * 23 ≤ 16 * baud by omega) (by decide)).trans (by decide)
  have fraction := Nat.div_add_mod (24000000 % (16 * baud) * 64 + baud / 2) baud
  have less := Nat.mod_lt (24000000 % (16 * baud) * 64 + baud / 2) (show 0 < baud by omega)
  unfold DivisorsRight
  generalize 24000000 / (16 * baud) = ibrd at *
  generalize 24000000 % (16 * baud) = rest at *
  generalize (rest * 64 + baud / 2) % baud = excess at *
  generalize (rest * 64 + baud / 2) / baud = fbrd at *
  have error : (baud : Int) * (64 * ibrd + fbrd) - 4 * 24000000 =
      ((baud * fbrd : Nat) : Int) - 4 * rest := by
    have scaled : ((16 * baud * ibrd + rest : Nat) : Int) = 24000000 := congrArg Nat.cast whole
    push_cast at scaled ⊢
    linear_combination 4 * scaled
  rw [error]
  cases fbrd with
  | zero => omega
  | succ fbrd =>
      have unit : baud ≤ baud * (fbrd + 1) := Nat.le_mul_of_pos_right _ (Nat.succ_pos _)
      omega

section

variable {reads : Nat → Reg} {regs : Word} {limit : Nat} {baud : Reg}

/-- What `hw_init` returns and writes: it comes past the receive FIFO or not, and past
the division or not. -/
theorem hwInit_outcome (t : Trace) :
    let run := runDevice reads (hwInit limit regs baud) t
    if (drainBytes reads (drainFrom reads t.position) limit).isSome then
      if baud16 baud = 0 then
        run.1 = .error .divideByZero ∧
          writesOf run.2.events = writesOf t.events ++ [(pl011CR, 0)]
      else run.1 = .ok () ∧
        writesOf run.2.events = writesOf t.events ++ (pl011CR, 0) :: hwInitWrites baud
    else run.1 = .error .receiving ∧
      writesOf run.2.events = writesOf t.events ++ [(pl011CR, 0)] := by
  intro run
  have ran : run = _ := run_hwInit limit baud t
  cases found : drainBytes reads (drainFrom reads t.position) limit with
  | none =>
      rw [found] at ran
      rw [ran]
      refine ⟨rfl, ?_⟩
      rw [Trace.push_events, writesOf_append, writesOf_hwInitEvents, writesOf_drainEvents]
  | some bytes =>
      rw [found] at ran
      have drained : writesOf (drainEvents regs bytes ++ [.read regs pl011FR]) = [] := by
        rw [writesOf_append, writesOf_drainEvents]
        rfl
      dsimp only at ran
      rw [run_hwInitTail] at ran
      rw [Option.isSome_some, if_pos rfl]
      by_cases zero : baud16 baud = 0
      · rw [if_pos zero] at ran ⊢
        rw [ran]
        refine ⟨rfl, ?_⟩
        rw [Trace.push_events, writesOf_append, writesOf_hwInitEvents, drained]
      · rw [if_neg zero] at ran ⊢
        rw [ran]
        refine ⟨rfl, ?_⟩
        simp only [Trace.push_events, writesOf_append, writesOf_hwInitEvents, drained,
          writesOf_writes, List.append_assoc]
        exact congrArg (fun rest => writesOf t.events ++ (pl011CR, 0) :: rest) (List.append_nil _)

end

/-- `set_baud` is `hw_init` after a message. -/
theorem setBaud_outcome (reads : Nat → Reg) (limit : Nat) (regs : Word) (baud : Reg) :
    let run := runDevice reads (setBaud limit regs baud) .start
    if (drainBytes reads (drainFrom reads 0) limit).isSome then
      if baud16 baud = 0 then
        run.1 = .error .divideByZero ∧ writesOf run.2.events = [(pl011CR, 0)]
      else run.1 = .ok () ∧ writesOf run.2.events = (pl011CR, 0) :: hwInitWrites baud
    else run.1 = .error .receiving ∧ writesOf run.2.events = [(pl011CR, 0)] :=
  hwInit_outcome (Trace.start.push 0 [.log "JuliusSerial: changing baud to %u\n" [baud.toNat]])

/-- The values written to one register, in order. -/
def valuesAt (offset : Reg) (writes : List (Reg × Reg)) : List Reg :=
  (writes.filter (fun write => write.1 = offset)).map Prod.snd

/-- For every rate with a divisor, and every device: `hw_init` writes each divisor
register once, and what it writes is right exactly if the remainder of the clock is
small enough for the fraction to be zero. -/
theorem hwInit_divisors_iff (baud : Reg) (low : 23 ≤ baud.toNat) (high : baud.toNat ≤ 1500000)
    (limit : Nat) (regs : Word) (reads : Nat → Reg)
    (returned : (runDevice reads (hwInit limit regs baud) .start).1 = .ok ()) :
    let written := writesOf (runDevice reads (hwInit limit regs baud) .start).2.events
    ∃ ibrd fbrd, valuesAt pl011IBRD written = [ibrd] ∧ valuesAt pl011FBRD written = [fbrd] ∧
      (DivisorsRight baud.toNat ibrd.toNat fbrd.toNat ↔
        128 * (24000000 % (16 * baud.toNat)) < baud.toNat) := by
  intro written
  obtain ⟨ibrd, fbrd⟩ := @baudDivisors_toNat baud (by omega)
  have outcome := @hwInit_outcome reads regs limit baud .start
  dsimp only at outcome
  rw [returned] at outcome
  split at outcome
  · split at outcome
    · cases outcome.1
    · have values : written = (pl011CR, 0) :: hwInitWrites baud := outcome.2
      refine ⟨(baudDivisors baud).1, (baudDivisors baud).2, ?_, ?_, ?_⟩
      · rw [values]
        rfl
      · rw [values]
        rfl
      · rw [ibrd, fbrd]
        exact divisorsRight_iff baud.toNat low high
  · cases outcome.1

/-- 250000 baud divides the clock. -/
theorem hwInit_divisors_exact : ∃ ibrd fbrd,
    valuesAt pl011IBRD (writesOf
      (runDevice (fun _ => pl011FrRXFE) (hwInit 1 0x1000 250000) .start).2.events) = [ibrd] ∧
      DivisorsRight 250000 ibrd.toNat fbrd := by
  obtain ⟨ibrd, fbrd, integer, _, right⟩ := hwInit_divisors_iff 250000 (by decide) (by decide) 1
    0x1000 (fun _ => pl011FrRXFE) (by decide +kernel)
  exact ⟨ibrd, fbrd.toNat, integer, right.mpr (by decide)⟩

/-- The default rate: IBRD is 13, but FBRD comes out as 21 and not as 1. -/
theorem hwInit_default_rate :
    let written := writesOf
      (runDevice (fun _ => pl011FrRXFE) (hwInit 1 0x1000 juliusUartBaud) .start).2.events
    valuesAt pl011IBRD written = [13] ∧ valuesAt pl011FBRD written = [21] ∧
      ¬ DivisorsRight juliusUartBaud.toNat 13 21 ∧ DivisorsRight juliusUartBaud.toNat 13 1 := by
  decide +kernel

theorem baud16_exact_iff (baud : Reg) :
    (baud16 baud).toNat = 16 * baud.toNat ↔ baud.toNat < 2 ^ 28 := by
  rw [baud16_toNat]
  omega

theorem baud16_ne_zero {baud : Reg} (nonzero : baud ≠ 0) (small : baud.toNat < 2 ^ 28) :
    baud16 baud ≠ 0 := by
  intro zero
  have divisor := (baud16_exact_iff baud).mpr small
  rw [zero] at divisor
  have vanishes : baud.toNat = 0 := (Nat.mul_eq_zero.mp divisor.symm).resolve_left (by decide)
  exact nonzero (BitVec.eq_of_toNat_eq vanishes)

/-- The divisors that the source means, where the divisor does not wrap. -/
theorem baudDivisors_ofNat {baud : Reg} (small : baud.toNat < 2 ^ 28) :
    baudDivisors baud = (BitVec.ofNat 32 (24000000 / (16 * baud.toNat)),
      BitVec.ofNat 32 ((24000000 % (16 * baud.toNat) * 64 + baud.toNat / 2) / baud.toNat)) := by
  obtain ⟨integer, fraction⟩ := baudDivisors_toNat small
  rw [← integer, ← fraction, BitVec.ofNat_toNat, BitVec.ofNat_toNat, BitVec.setWidth_eq,
    BitVec.setWidth_eq]

/-- The registers after some writes: each one holds what its last write left there,
which is for the hardware to say. -/
def registersAfter (kept : Reg → Reg → Reg) (before : Reg → Reg) (writes : List (Reg × Reg)) :
    Reg → Reg :=
  writes.foldl (fun held write => Function.update held write.1 (kept write.1 write.2)) before

/-- What `set_baud` may do at a rate without a divisor, as far as it has come when it has
followed the receive FIFO for `limit` bytes: no division by zero, no wrapped divisor, and
the configuration is what it was. -/
def AloneWithin (kept : Reg → Reg → Reg) (before : Reg → Reg) (regs : Word) (baud : Reg)
    (reads : Nat → Reg) (limit : Nat) : Prop :=
  let run := runDevice reads (setBaud limit regs baud) .start
  run.1 ≠ .error .divideByZero ∧
    (run.1 ≠ .error .receiving → (baud16 baud).toNat = 16 * baud.toNat) ∧
    ∀ offset ∈ [pl011CR, pl011IBRD, pl011FBRD, pl011LCRH],
      registersAfter kept before (writesOf run.2.events) offset = before offset

/-- `set_baud` leaves the UART alone: from some number of followed bytes on, however many
more there are. A call that returns has then returned, and one that is still receiving
never returns. -/
def LeftAlone (kept : Reg → Reg → Reg) (before : Reg → Reg) (regs : Word) (baud : Reg)
    (reads : Nat → Reg) : Prop :=
  ∃ enough, ∀ limit, enough ≤ limit → AloneWithin kept before regs baud reads limit

/-- The registers hold what `hw_init` leaves in them at a rate whose divisor does not wrap. -/
def AlreadySet (kept : Reg → Reg → Reg) (before : Reg → Reg) (baud : Reg) : Prop :=
  baud ≠ 0 ∧ baud.toNat < 2 ^ 28 ∧
    before pl011CR = kept pl011CR (pl011CrTXE ||| pl011CrRXE ||| pl011CrUARTEN) ∧
    before pl011IBRD = kept pl011IBRD (BitVec.ofNat 32 (24000000 / (16 * baud.toNat))) ∧
    before pl011FBRD = kept pl011FBRD (BitVec.ofNat 32
      ((24000000 % (16 * baud.toNat) * 64 + baud.toNat / 2) / baud.toNat)) ∧
    before pl011LCRH = kept pl011LCRH (pl011LcrhWLEN8 ||| pl011LcrhFEN)

theorem registersAfter_disabled (kept : Reg → Reg → Reg) (before : Reg → Reg) :
    (∀ offset ∈ [pl011CR, pl011IBRD, pl011FBRD, pl011LCRH],
      registersAfter kept before [(pl011CR, 0)] offset = before offset) ↔
      before pl011CR = kept pl011CR 0 := by
  have control : registersAfter kept before [(pl011CR, 0)] pl011CR = kept pl011CR 0 := rfl
  have others : ∀ offset ∈ [pl011IBRD, pl011FBRD, pl011LCRH],
      registersAfter kept before [(pl011CR, 0)] offset = before offset := by
    simp only [List.forall_mem_cons, List.not_mem_nil, false_implies, implies_true, and_true]
    exact ⟨rfl, rfl, rfl⟩
  rw [List.forall_mem_cons, control]
  exact ⟨fun same => same.1.symm, fun same => ⟨same.symm, others⟩⟩

theorem registersAfter_configured (kept : Reg → Reg → Reg) (before : Reg → Reg) (baud : Reg) :
    (∀ offset ∈ [pl011CR, pl011IBRD, pl011FBRD, pl011LCRH],
      registersAfter kept before ((pl011CR, 0) :: hwInitWrites baud) offset = before offset) ↔
      before pl011CR = kept pl011CR (pl011CrTXE ||| pl011CrRXE ||| pl011CrUARTEN) ∧
        before pl011IBRD = kept pl011IBRD (baudDivisors baud).1 ∧
        before pl011FBRD = kept pl011FBRD (baudDivisors baud).2 ∧
        before pl011LCRH = kept pl011LCRH (pl011LcrhWLEN8 ||| pl011LcrhFEN) := by
  have control : registersAfter kept before ((pl011CR, 0) :: hwInitWrites baud) pl011CR =
      kept pl011CR (pl011CrTXE ||| pl011CrRXE ||| pl011CrUARTEN) := rfl
  have integer : registersAfter kept before ((pl011CR, 0) :: hwInitWrites baud) pl011IBRD =
      kept pl011IBRD (baudDivisors baud).1 := rfl
  have fraction : registersAfter kept before ((pl011CR, 0) :: hwInitWrites baud) pl011FBRD =
      kept pl011FBRD (baudDivisors baud).2 := rfl
  have line : registersAfter kept before ((pl011CR, 0) :: hwInitWrites baud) pl011LCRH =
      kept pl011LCRH (pl011LcrhWLEN8 ||| pl011LcrhFEN) := rfl
  simp only [List.forall_mem_cons, List.not_mem_nil, false_implies, implies_true, and_true,
    control, integer, fraction, line]
  constructor
  · exact fun same => ⟨same.1.symm, same.2.1.symm, same.2.2.1.symm, same.2.2.2.symm⟩
  · exact fun same => ⟨same.1.symm, same.2.1.symm, same.2.2.1.symm, same.2.2.2.symm⟩

section

variable {kept : Reg → Reg → Reg} {before : Reg → Reg} {regs : Word} {baud : Reg}
  {reads : Nat → Reg} {limit : Nat}

/-- Past the receive FIFO the whole configuration is written, unless the division traps. -/
theorem aloneWithin_drained (found : (drainBytes reads (drainFrom reads 0) limit).isSome) :
    AloneWithin kept before regs baud reads limit ↔ AlreadySet kept before baud := by
  have outcome := setBaud_outcome reads limit regs baud
  unfold AloneWithin AlreadySet
  generalize runDevice reads (setBaud limit regs baud) .start = run at outcome ⊢
  dsimp only at outcome ⊢
  rw [if_pos found] at outcome
  by_cases zero : baud16 baud = 0
  · rw [if_pos zero] at outcome
    constructor
    · exact fun alone => absurd outcome.1 alone.1
    · rintro ⟨nonzero, small, -⟩
      exact absurd zero (baud16_ne_zero nonzero small)
  · rw [if_neg zero] at outcome
    obtain ⟨returned, written⟩ := outcome
    rw [returned, written, registersAfter_configured]
    constructor
    · rintro ⟨-, exact16, held⟩
      have small := (baud16_exact_iff baud).mp (exact16 (by rintro ⟨⟩))
      have divisors := baudDivisors_ofNat small
      rw [divisors] at held
      exact ⟨by rintro rfl; exact zero rfl, small, held⟩
    · rintro ⟨-, small, held⟩
      refine ⟨(by rintro ⟨⟩), fun _ => (baud16_exact_iff baud).mpr small, ?_⟩
      rw [baudDivisors_ofNat small]
      exact held

/-- Before it has come past the receive FIFO it has only switched the UART off. -/
theorem aloneWithin_receiving (found : ¬ (drainBytes reads (drainFrom reads 0) limit).isSome) :
    AloneWithin kept before regs baud reads limit ↔ before pl011CR = kept pl011CR 0 := by
  have outcome := setBaud_outcome reads limit regs baud
  unfold AloneWithin
  generalize runDevice reads (setBaud limit regs baud) .start = run at outcome ⊢
  dsimp only at outcome ⊢
  rw [if_neg found] at outcome
  obtain ⟨receiving, written⟩ := outcome
  rw [receiving, written, registersAfter_disabled]
  exact ⟨fun alone => alone.2.2,
    fun disabled => ⟨(by rintro ⟨⟩), fun past => absurd rfl past, disabled⟩⟩

end

/-- `set_baud` leaves the UART as it was exactly where the registers hold beforehand what it
puts there: the whole configuration if the receive FIFO is ever seen empty, and a
disabled UART if it never is, so that the call does not return. -/
theorem setBaud_leftAlone_iff (kept : Reg → Reg → Reg) (before : Reg → Reg) (regs : Word)
    (baud : Reg) (reads : Nat → Reg) :
    LeftAlone kept before regs baud reads ↔
      ((∃ j, rxEmpty (reads (drainFrom reads 0 + 2 * j)) = true) ∧
        AlreadySet kept before baud) ∨
      ((∀ j, rxEmpty (reads (drainFrom reads 0 + 2 * j)) = false) ∧
        before pl011CR = kept pl011CR 0) := by
  have drained := drainBytes_isSome reads (drainFrom reads 0)
  by_cases ends : ∃ j, rxEmpty (reads (drainFrom reads 0 + 2 * j)) = true
  · obtain ⟨j, empty⟩ := ends
    have found : ∀ limit, j + 1 ≤ limit →
        (drainBytes reads (drainFrom reads 0) limit).isSome :=
      fun limit past => (drained limit).mpr ⟨j, past, empty⟩
    have past : ¬ ∀ j, rxEmpty (reads (drainFrom reads 0 + 2 * j)) = false := by
      intro full
      rw [full j] at empty
      cases empty
    rw [or_iff_left (fun stuck => past stuck.1), and_iff_right ⟨j, empty⟩]
    constructor
    · rintro ⟨enough, alone⟩
      exact (aloneWithin_drained (found _ (Nat.le_max_right enough (j + 1)))).mp
        (alone _ (Nat.le_max_left enough (j + 1)))
    · exact fun set => ⟨j + 1, fun limit past => (aloneWithin_drained (found limit past)).mpr set⟩
  · have receiving : ∀ limit, ¬ (drainBytes reads (drainFrom reads 0) limit).isSome := by
      intro limit found
      obtain ⟨j, -, empty⟩ := (drained limit).mp found
      exact ends ⟨j, empty⟩
    have full : ∀ j, rxEmpty (reads (drainFrom reads 0 + 2 * j)) = false :=
      fun j => Bool.eq_false_iff.mpr (fun empty => ends ⟨j, empty⟩)
    rw [or_iff_right (fun past => ends past.1), and_iff_right full]
    constructor
    · rintro ⟨enough, alone⟩
      exact (aloneWithin_receiving (receiving enough)).mp (alone enough (Nat.le_refl _))
    · exact fun off => ⟨0, fun limit _ => (aloneWithin_receiving (receiving limit)).mpr off⟩

/-- Rate 0 divides by zero, with the UART already disabled. -/
theorem setBaud_zero : ¬ LeftAlone (fun _ value => value) (fun _ => pl011CrUARTEN) 0x1000 0
    (fun _ => pl011FrRXFE) := by
  rintro ⟨enough, alone⟩
  have drained := (drainBytes_isSome (fun _ => pl011FrRXFE)
    (drainFrom (fun _ => pl011FrRXFE) 0) (enough + 1)).mpr ⟨0, Nat.succ_pos _, rfl⟩
  have set := (aloneWithin_drained drained).mp (alone _ (Nat.le_succ enough))
  exact set.1 rfl

/-- An operation comes to an end in front of the device: from some number of followed
bytes on, it returns, and has done the same however many more it may follow. -/
def Finishes {α : Type} (reads : Nat → Reg) (operation : Nat → Kext α) : Prop :=
  ∃ limit value t, ∀ more, limit ≤ more →
    runDevice reads (operation more) .start = (.ok value, t)

section

variable (reads : Nat → Reg) (regs : Word)

/-- Once `hw_init` comes past the receive FIFO, more patience changes nothing. -/
theorem hwInit_settles {reads : Nat → Reg} {regs : Word} {baud : Reg} {limit bytes : Nat}
    (found : drainBytes reads (drainFrom reads 0) limit = some bytes) {more : Nat}
    (longer : limit ≤ more) : runDevice reads (hwInit more regs baud) .start =
      runDevice reads (hwInit limit regs baud) .start := by
  rw [run_hwInit, run_hwInit, show Trace.start.position = 0 from rfl, found,
    drainBytes_mono found longer]

/-- `hw_init` finishes exactly if the receive FIFO is ever seen empty: nothing else
ends the loop that drains it. -/
theorem hwInit_finishes_iff {baud : Reg} (divides : baud16 baud ≠ 0) :
    Finishes reads (fun limit => hwInit limit regs baud) ↔
      ∃ j, rxEmpty (reads (drainFrom reads 0 + 2 * j)) = true := by
  constructor
  · rintro ⟨limit, value, t, same⟩
    have returned := same limit (Nat.le_refl _)
    have ran := @run_hwInit reads regs limit baud .start
    rw [returned] at ran
    have drained : (drainBytes reads (drainFrom reads 0) limit).isSome := by
      by_contra full
      have none := Option.not_isSome_iff_eq_none.mp full
      rw [show Trace.start.position = 0 from rfl, none] at ran
      cases congrArg Prod.fst ran
    obtain ⟨j, -, empty⟩ := (drainBytes_isSome _ _ _).mp drained
    exact ⟨j, empty⟩
  · rintro ⟨j, empty⟩
    have drained := (drainBytes_isSome reads (drainFrom reads 0) (j + 1)).mpr
      ⟨j, Nat.lt_succ_self _, empty⟩
    obtain ⟨bytes, found⟩ := Option.isSome_iff_exists.mp drained
    have outcome := @hwInit_outcome reads regs (j + 1) baud .start
    dsimp only at outcome
    rw [show Trace.start.position = 0 from rfl, if_pos drained, if_neg divides] at outcome
    refine ⟨j + 1, (), (runDevice reads (hwInit (j + 1) regs baud) .start).2, fun more longer => ?_⟩
    rw [hwInit_settles found longer]
    exact Prod.ext outcome.1 rfl

/-- An operation that follows no loop of the device's and never stops midway finishes. -/
theorem finishes_of_asks {α : Type} {allowed : Io → Prop} {operation : Kext α}
    (asks : operation.Asks allowed (fun _ => False)) : Finishes reads (fun _ => operation) := by
  obtain ⟨value, t, returned⟩ := asks.returns (device reads) .start
  exact ⟨0, value, t, fun _ _ => returned⟩

/-- Every operation of the driver finishes. -/
def AllFinish (baud : Reg) : Prop :=
  Finishes reads (fun limit => hwInit limit regs baud) ∧
    (∀ c, Finishes reads (fun _ => putChar regs c)) ∧
    Finishes reads (fun _ => getChar regs) ∧
    ∀ s, Finishes reads (fun _ => putString regs s)

/-- The waits of `put_char` are bounded, and `get_char` has none, so that all depends on
the receive FIFO that `hw_init` drains. -/
theorem allFinish_iff {baud : Reg} (divides : baud16 baud ≠ 0) :
    AllFinish reads regs baud ↔ ∃ j, rxEmpty (reads (drainFrom reads 0 + 2 * j)) = true := by
  constructor
  · exact fun all => (hwInit_finishes_iff reads regs divides).mp all.1
  · intro empty
    refine ⟨(hwInit_finishes_iff reads regs divides).mpr empty, ?_, ?_, ?_⟩
    · exact fun c => finishes_of_asks reads (putChar_asks c)
    · exact finishes_of_asks reads getChar_asks
    · exact fun s => finishes_of_asks reads (putString_asks s)

end

/-- An idle UART. -/
theorem allFinish_idle : AllFinish (fun _ => pl011FrRXFE) 0x1000 juliusUartBaud :=
  (allFinish_iff (fun _ => pl011FrRXFE) 0x1000 (by decide)).mpr ⟨0, by decide⟩

/-- A device that reads as all zeroes never shows an empty receive FIFO. -/
theorem allFinish_zeroes : ¬ AllFinish (fun _ => 0) 0x1000 juliusUartBaud := by
  intro all
  obtain ⟨_, empty⟩ :=
    (@hwInit_finishes_iff (fun _ => 0) 0x1000 juliusUartBaud (by decide)).mp all.1
  exact absurd empty (by decide)

end Julius
