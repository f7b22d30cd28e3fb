import Julius.Kext.Stream

set_option autoImplicit false

/- `put_char` and `put_string` in front of an arbitrary sequence of flag values. -/
namespace Julius

open Interact (Program)

/-- What one call may do: it polls FR until a poll shows room, at most 100001 times,
and sends the byte exactly if one did. -/
def PutCharRight (regs : Word) (c : Byte) (reads : Nat → Reg) : Prop :=
  let run := runDevice reads (putChar regs c) .start
  run.1 = .ok () ∧ run.2.position ≤ 100001 ∧
    readsOf run.2.events = List.replicate run.2.position pl011FR ∧
    (∀ k, k + 1 < run.2.position → txFull (reads k) = true) ∧
    ((∃ k < run.2.position, txFull (reads k) = false) →
      writesOf run.2.events = [(pl011DR, c.setWidth 32)]) ∧
    ((∀ k < run.2.position, txFull (reads k) = true) → writesOf run.2.events = [])

section

variable {reads : Nat → Reg} {regs : Word}

/-- A call reads FR once a poll, and writes its byte unless it made all of its polls. -/
theorem putChar_traced (mapped : regs ≠ 0) (c : Byte) (t : Trace) :
    let run := runDevice reads (putChar regs c) t
    let polls := waitPolls txFull reads t.position 100000
    run.1 = .ok () ∧ run.2.position = t.position + polls ∧
      readsOf run.2.events = readsOf t.events ++ List.replicate polls pl011FR ∧
      writesOf run.2.events = writesOf t.events ++
        if polls = 100001 then [] else [(pl011DR, c.setWidth 32)] := by
  intro run polls
  have ran : run = _ := run_putChar mapped c t
  rw [ran]
  refine ⟨rfl, rfl, ?_, ?_⟩
  · simp only [Trace.push_events, readsOf_append, readsOf_waitEvents]
    split <;> exact congrArg _ (List.append_nil _)
  · simp only [Trace.push_events, writesOf_append, writesOf_waitEvents]
    by_cases all : polls = 100001
    · rw [if_pos all, if_pos all]
      rfl
    · rw [if_neg all, if_neg all]
      rfl

/-- A call is right exactly if making all of its polls means that none of them showed room. -/
theorem putChar_right_iff_expired (mapped : regs ≠ 0) (c : Byte) :
    PutCharRight regs c reads ↔ (waitPolls txFull reads 0 100000 = 100001 ↔
      ∀ k < waitPolls txFull reads 0 100000, txFull (reads k) = true) := by
  obtain ⟨returned, position, asked, written⟩ := @putChar_traced reads regs mapped c .start
  rw [show Trace.start.position = 0 from rfl] at position asked written
  rw [Nat.zero_add] at position
  have bound := waitPolls_le txFull reads 0 100000
  have waiting := @waitPolls_waiting txFull reads 0 100000
  simp only [Nat.zero_add] at waiting
  unfold PutCharRight
  dsimp only
  rw [returned, position, asked, written]
  generalize waitPolls txFull reads 0 100000 = polls at bound waiting ⊢
  constructor
  · rintro ⟨-, -, -, -, sent, kept⟩
    constructor
    · intro all k before
      by_contra clear
      have nothing := sent ⟨k, before, by simpa using clear⟩
      rw [if_pos all] at nothing
      cases nothing
    · intro full
      by_contra early
      have nothing := kept full
      rw [if_neg early] at nothing
      cases nothing
  · intro expired
    refine ⟨rfl, bound, rfl, fun k before => waiting before, ?_, ?_⟩
    · rintro ⟨k, before, clear⟩
      have early : polls ≠ 100001 := by
        intro all
        rw [expired.mp all k before] at clear
        cases clear
      rw [if_neg early]
      rfl
    · intro full
      rw [if_pos (expired.mpr full)]
      rfl

/-- Room that shows up at the very last poll comes too late: the count is zero by then. -/
theorem putChar_late (mapped : regs ≠ 0) (c : Byte) (full : ∀ k < 100000, txFull (reads k) = true)
    (clear : txFull (reads 100000) = false) : ¬ PutCharRight regs c reads := by
  rw [putChar_right_iff_expired mapped]
  intro expired
  have all : waitPolls txFull reads 0 100000 = 100001 :=
    (waitPolls_eq_iff txFull reads 0 100000).mpr (by simpa using full)
  rw [expired.mp all 100000 (by rw [all]; decide)] at clear
  cases clear

/-- `put_char` is right exactly if it is not the last of its 100001 polls that is
the first to show room. -/
theorem putChar_right_iff (mapped : regs ≠ 0) (c : Byte) :
    PutCharRight regs c reads ↔
      ¬ ((∀ k < 100000, txFull (reads k) = true) ∧ txFull (reads 100000) = false) := by
  constructor
  · rintro right ⟨full, clear⟩
    exact putChar_late mapped c full clear right
  · intro onTime
    rw [putChar_right_iff_expired mapped]
    constructor
    · intro all k before
      have full := (waitPolls_eq_iff txFull reads 0 100000).mp all
      simp only [Nat.zero_add] at full
      by_cases last : k = 100000
      · rw [last]
        by_contra clear
        exact onTime ⟨full, by simpa using clear⟩
      · exact full k (by omega)
    · intro full
      by_contra early
      have bound := waitPolls_le txFull reads 0 100000
      have positive := waitPolls_pos txFull reads 0 100000
      have before : waitPolls txFull reads 0 100000 ≤ 100000 := by omega
      have clear := waitPolls_early txFull reads before
      rw [Nat.zero_add, full _ (by omega)] at clear
      cases clear

end

/-- Room at the first poll. -/
theorem putChar_right_ready : PutCharRight 0x1000 0x41 (fun _ => 0) :=
  (putChar_right_iff (by decide) 0x41).mpr (fun late => absurd (late.1 0 (by decide)) (by decide))

/-- A FIFO that has room at the last permitted poll, where the counter has just reached zero. -/
theorem putChar_last_poll :
    ¬ PutCharRight 0x1000 0x41 (fun k => if k < 100000 then pl011FrTXFF else 0) := by
  have full : ∀ k < 100000,
      txFull ((fun k => if k < 100000 then pl011FrTXFF else 0 : Nat → Reg) k) = true := by
    intro k before
    simp only [before, ↓reduceIte]
    decide
  exact putChar_late (by decide) 0x41 full (by decide)

def lineFeed : Byte := BitVec.ofNat 8 '\n'.toNat

def carriageReturn : Byte := BitVec.ofNat 8 '\r'.toNat

/-- `E(s)`: the bytes that go out for `s`, a CR before each LF. -/
def expand : List Byte → List Byte
  | [] => []
  | c :: s => if c = lineFeed then carriageReturn :: c :: expand s else c :: expand s

/-- `put_char` on one byte after the other. -/
def putAll (regs : Word) : List Byte → Kext Unit
  | [] => return
  | c :: rest => do
      putChar regs c
      putAll regs rest

theorem putString_eq (regs : Word) (s : List Byte) : putString regs s = putAll regs (expand s) := by
  induction s with
  | nil => rfl
  | cons c s ih =>
      unfold putString expand
      rw [ih]
      by_cases newline : c = lineFeed
      · rw [if_pos newline, if_pos (show c = BitVec.ofNat 8 '\n'.toNat from newline)]
        rfl
      · rw [if_neg newline, if_neg (show ¬ c = BitVec.ofNat 8 '\n'.toNat from newline)]
        rfl

/-- One call of `put_char`: its byte, and the trace before and after it. -/
structure PutCall where
  byte : Byte
  before : Trace
  after : Trace

/-- The call gives up: its first 100000 polls all show a full FIFO. One more poll may
follow, but room that shows up there comes too late. -/
def PutCall.TimedOut (reads : Nat → Reg) (call : PutCall) : Prop :=
  ∀ k < 100000, txFull (reads (call.before.position + k)) = true

instance (reads : Nat → Reg) : DecidablePred (PutCall.TimedOut reads) := fun call =>
  decidable_of_iff _ (waitPolls_eq_iff txFull reads call.before.position 100000)

/-- The call says on the log that it gave up. -/
def PutCall.Logged (call : PutCall) : Prop :=
  Io.log "JuliusSerial: TX timeout!\n" [] ∈ call.after.events.drop call.before.events.length

/-- The calls for some bytes, each one in the state that the last one leaves. -/
def putCalls (regs : Word) (reads : Nat → Reg) (t : Trace) : List Byte → List PutCall
  | [] => []
  | c :: rest =>
      let after := (runDevice reads (putChar regs c) t).2
      ⟨c, t, after⟩ :: putCalls regs reads after rest

section

variable {reads : Nat → Reg} {regs : Word}

theorem putCalls_bytes (t : Trace) (bytes : List Byte) :
    (putCalls regs reads t bytes).map PutCall.byte = bytes := by
  induction bytes generalizing t with
  | nil => rfl
  | cons c rest ih => exact congrArg (c :: ·) (ih _)

/-- A call writes its byte to DR, and nothing else, unless it times out. -/
theorem putChar_sent (mapped : regs ≠ 0) (c : Byte) (t : Trace) :
    let after := (runDevice reads (putChar regs c) t).2
    (runDevice reads (putChar regs c) t).1 = .ok () ∧ writesOf after.events = writesOf t.events ++
      if PutCall.TimedOut reads ⟨c, t, after⟩ then [] else [(pl011DR, c.setWidth 32)] := by
  intro after
  have timedOut : waitPolls txFull reads t.position 100000 = 100001 ↔
      PutCall.TimedOut reads ⟨c, t, after⟩ := waitPolls_eq_iff txFull reads t.position 100000
  obtain ⟨returned, -, -, written⟩ := @putChar_traced reads regs mapped c t
  refine ⟨returned, written.trans ?_⟩
  simp only [timedOut]

/-- What goes out for some bytes: those whose call does not time out. -/
theorem run_putAll (mapped : regs ≠ 0) (bytes : List Byte) (t : Trace) :
    (runDevice reads (putAll regs bytes) t).1 = .ok () ∧
      writesOf (runDevice reads (putAll regs bytes) t).2.events = writesOf t.events ++
        ((putCalls regs reads t bytes).filter (fun call => ¬ call.TimedOut reads)).map
          (fun call => (pl011DR, call.byte.setWidth 32)) := by
  induction bytes generalizing t with
  | nil => exact ⟨rfl, (List.append_nil _).symm⟩
  | cons c rest ih =>
      obtain ⟨returned, written⟩ := @putChar_sent reads regs mapped c t
      have step : runDevice reads (putAll regs (c :: rest)) t =
          runDevice reads (putAll regs rest) (runDevice reads (putChar regs c) t).2 :=
        run_bind (Prod.ext returned rfl)
      obtain ⟨ended, later⟩ := ih (runDevice reads (putChar regs c) t).2
      rw [step]
      refine ⟨ended, ?_⟩
      rw [later, written, putCalls, List.append_assoc]
      congr 1
      by_cases late : PutCall.TimedOut reads ⟨c, t, (runDevice reads (putChar regs c) t).2⟩
      · rw [if_pos late, List.filter_cons_of_neg (by simpa using late), List.nil_append]
      · rw [if_neg late, List.filter_cons_of_pos (by simpa using late)]
        rfl

end

end Julius
