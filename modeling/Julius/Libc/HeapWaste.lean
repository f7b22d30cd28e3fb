import Mathlib.Algebra.GroupWithZero.Nat
import Julius.Libc.HeapSizes

set_option autoImplicit false

/- How much of the granted memory the heap leaves unused. Each extension abandons the
end of the current region; what is abandoned is charged to the request that did not
fit into it. -/
namespace Julius

open Interact

namespace HeapSession

/-- The bytes of all granted regions. -/
def mapped (s : HeapSession) : Nat := (s.granted.map Extent.size).sum

/-- The bytes of the returned blocks, each one rounded up. -/
def handedOut (s : HeapSession) : Nat := (s.returned.map (fun b => roundUp b.size)).sum

/-- The largest returned block, rounded up. -/
def largest (s : HeapSession) : Nat := (s.returned.map (fun b => roundUp b.size)).foldl max 0

/-- The part of the current region that is still to be handed out. Where the bump
pointer is null, what is handed out is not seen as a block. -/
def slack (s : HeapSession) : Nat :=
  if s.heap.heapPtr = null then 0
  else min (s.heap.heapEnd.toNat - s.heap.heapPtr.toNat) (max (2 ^ 20) s.largest)

/-- The potential: what the blocks do not pay for twice is still in the current region. -/
structure Thrifty (s : HeapSession) : Prop where
  initialised : s.heap.heapBase ≠ null
  paid : s.mapped ≤ 2 * s.handedOut + s.slack

theorem slack_le (s : HeapSession) : s.slack ≤ max (2 ^ 20) s.largest := by
  unfold slack
  split
  · exact Nat.zero_le _
  · exact Nat.min_le_right _ _

theorem slack_le_room (s : HeapSession) :
    s.slack ≤ s.heap.heapEnd.toNat - s.heap.heapPtr.toNat := by
  unfold slack
  split
  · exact Nat.zero_le _
  · exact Nat.min_le_left _ _

theorem slack_eq (s : HeapSession) (nonnull : s.heap.heapPtr.toNat ≠ 0) :
    s.slack = min (s.heap.heapEnd.toNat - s.heap.heapPtr.toNat) (max (2 ^ 20) s.largest) :=
  if_neg (fun isNull => nonnull (congrArg BitVec.toNat isNull))

/-- A block more on the ledger. -/
theorem after_block (s : HeapSession) (n : Word) {p : Word} (h : Heap) (after : List Extent)
    (nonnull : p ≠ null) :
    let t := s.after (.malloc n) after (.ok (p, h, s.memory))
    t.handedOut = s.handedOut + roundUp n.toNat ∧ t.largest = max s.largest (roundUp n.toNat) := by
  intro t
  have returned : t.returned = s.returned ++ [⟨p.toNat, n.toNat⟩] := if_neg nonnull
  unfold handedOut largest
  rw [returned, List.map_append, List.sum_append, List.foldl_append]
  exact ⟨rfl, rfl⟩

end HeapSession

/-- A request for memory on an initialised heap is the body of `julius_malloc`. -/
theorem malloc_step {ok : Extent → Prop} {s t : HeapSession} {n : Word}
    (initialised : s.heap.heapBase ≠ null) (step : (heapApi ok).step s (.malloc n) t) :
    ∃ p h' after, BumpOutcome ok s.heap s.granted n p h' after ∧
      t = s.after (.malloc n) after (.ok (p, h', s.memory)) := by
  obtain ⟨_, outcome, after, run, rfl⟩ := step
  rcases Exec.of_bind run with ⟨result, middle, reached, rest⟩ | ⟨reason, rfl, stopped⟩
  · cases rest
    rcases juliusMalloc_outcome reached with ⟨⟨_, failed⟩, _⟩ | ⟨h₀, _, p, h', entered, same, bump⟩
    · cases failed
    · cases same
      rcases mallocEnter_outcome entered with ⟨_, rfl, rfl⟩ | ⟨isNull, _⟩
      · exact ⟨p, h', _, bump, rfl⟩
      · exact absurd isNull initialised
  · rcases juliusMalloc_outcome stopped with ⟨_, isNull, _⟩ | ⟨_, _, _, _, _, same, _⟩
    · exact absurd isNull initialised
    · cases same

/-- What a successful `julius_mem_init` leaves: one region of 1 MiB, all of it unused. -/
theorem memInit_step {ok : Extent → Prop} {s t : HeapSession}
    (step : (heapApi ok).step s .memInit t) (running : t.panicked = none) :
    ∃ base : Word, ok ⟨base.toNat, heapInitialSize.toNat⟩ ∧
      t.heap = ⟨base, base + heapInitialSize, base⟩ ∧ t.returned = s.returned ∧
      t.granted = s.granted ++ [⟨base.toNat, heapInitialSize.toNat⟩] := by
  obtain ⟨_, outcome, after, run, rfl⟩ := step
  rcases Exec.of_bind run with ⟨h, middle, reached, rest⟩ | ⟨reason, rfl, stopped⟩
  · cases rest
    obtain ⟨base, valid, fresh, rfl, rfl⟩ := (wp_juliusMemInit_outcome s.granted).exec reached
    exact ⟨base, valid, rfl, rfl, rfl⟩
  · cases running

/-- A block out of the current region: what it takes from there it pays for. -/
theorem paid_within {s t : HeapSession} {size : Nat} (small : size < 2 ^ 63)
    (paid : s.mapped ≤ 2 * s.handedOut + s.slack) (positive : s.heap.heapPtr.toNat ≠ 0)
    (granted : t.mapped = s.mapped) (used : t.handedOut = s.handedOut + size)
    (most : t.largest = max s.largest size) (limit : t.heap.heapEnd = s.heap.heapEnd)
    (bumped : t.heap.heapPtr.toNat = (s.heap.heapPtr.toNat + size) % 2 ^ 64) :
    t.mapped ≤ 2 * t.handedOut + t.slack := by
  have room := s.slack_le_room
  have bound := s.heap.heapEnd.isLt
  rw [granted, used]
  by_cases wraps : 2 ^ 64 ≤ s.heap.heapPtr.toNat + size
  · omega
  · have slack := s.slack_eq positive
    rw [t.slack_eq (by omega), bumped, limit, most]
    omega

/-- A block out of a new region: it is larger than what is abandoned for it. -/
theorem paid_mapped {s t : HeapSession} {size extend start : Nat}
    (paid : s.mapped ≤ 2 * s.handedOut + s.slack)
    (full : s.heap.heapEnd.toNat < (s.heap.heapPtr.toNat + size) % 2 ^ 64)
    (extension : extend = if size < 2 ^ 20 then 2 ^ 20 else size * 2)
    (positive : start ≠ 0) (below : start + extend < 2 ^ 64)
    (granted : t.mapped = s.mapped + extend) (used : t.handedOut = s.handedOut + size)
    (most : t.largest = max s.largest size) (limit : t.heap.heapEnd.toNat = start + extend)
    (bumped : t.heap.heapPtr.toNat = (start + size) % 2 ^ 64) :
    t.mapped ≤ 2 * t.handedOut + t.slack := by
  have room := s.slack_le_room
  rw [granted, used]
  have fits : size ≤ extend := by split at extension <;> omega
  rw [t.slack_eq (by omega), bumped, limit, most]
  split at extension <;> omega

/-- One request keeps the potential. -/
theorem thrifty_malloc {s t : HeapSession} {n : Word} (moderate : n.toNat ≤ 2 ^ 62)
    (thrifty : s.Thrifty) (step : (heapApi Grantable).step s (.malloc n) t) : t.Thrifty := by
  obtain ⟨initialised, paid⟩ := thrifty
  obtain ⟨p, h', after, bump, rfl⟩ := malloc_step initialised step
  have small : roundUp n.toNat < 2 ^ 63 := (roundUp_lt _).trans (by omega)
  have rounded : (align n heapAlign).toNat = roundUp n.toNat := by
    rw [align_toNat]
    omega
  have next (q : Word) : (q + align n heapAlign).toNat = (q.toNat + roundUp n.toNat) % 2 ^ 64 := by
    rw [BitVec.toNat_add, rounded]
  cases bump with
  | within fits =>
      refine ⟨initialised, ?_⟩
      by_cases isNull : s.heap.heapPtr = null
      · -- nothing is recorded, and nothing was left to pay for
        have settled : s.slack = 0 := if_pos isNull
        have kept : (s.after (.malloc n) s.granted (.ok (s.heap.heapPtr,
            { s.heap with heapPtr := s.heap.heapPtr + align n heapAlign }, s.memory))).returned =
              s.returned := if_pos isNull
        unfold HeapSession.handedOut at paid ⊢
        rw [kept]
        exact paid.trans (by omega)
      · have positive : s.heap.heapPtr.toNat ≠ 0 := fun zero => isNull (BitVec.eq_of_toNat_eq zero)
        obtain ⟨used, most⟩ := s.after_block n
          { s.heap with heapPtr := s.heap.heapPtr + align n heapAlign } s.granted isNull
        exact paid_within small paid positive rfl used most rfl (next _)
  | refused full => exact ⟨initialised, paid⟩
  | mapped full valid fresh =>
      rw [BitVec.lt_def, next] at full
      have extend := mallocExtend_toNat (align n heapAlign)
      rw [rounded, Nat.mod_eq_of_lt (by omega)] at extend
      obtain ⟨below, nowhere⟩ := valid
      simp only [Extent.limit_mk] at below nowhere
      have isBlock : p ≠ null := by
        rintro rfl
        have empty := nowhere.mp rfl
        split at extend <;> omega
      have positive : p.toNat ≠ 0 := fun zero => isBlock (BitVec.eq_of_toNat_eq zero)
      obtain ⟨used, most⟩ := s.after_block n
        { s.heap with heapEnd := p + mallocExtend (align n heapAlign),
                      heapPtr := p + align n heapAlign }
        (s.granted ++ [⟨p.toNat, (mallocExtend (align n heapAlign)).toNat⟩]) isBlock
      refine ⟨initialised, ?_⟩
      refine paid_mapped paid full extend positive below ?_ used most ?_ (next _)
      · unfold HeapSession.mapped
        exact (congrArg List.sum List.map_append).trans List.sum_append
      · exact (BitVec.toNat_add _ _).trans (Nat.mod_eq_of_lt below)

/-- In every run of one successful `julius_mem_init` and any number of requests of at most
`2^62` bytes, any extension of which the kernel may refuse: the granted regions are no
larger than twice the blocks and one region more. -/
theorem heap_waste (memory : Memory) (s : HeapSession) (run : List (HeapCall × HeapSession))
    (valid : (heapApi Grantable).IsRun (.start memory) ((.memInit, s) :: run))
    (initialised : s.panicked = none)
    (mallocs : ∀ move ∈ run, ∃ n, move.1 = .malloc n ∧ n.toNat ≤ 2 ^ 62) :
    let t := LTS.final s run
    t.mapped ≤ 2 * t.handedOut + max (2 ^ 20) t.largest := by
  intro t
  obtain ⟨base, valid₀, heap, _, granted⟩ := memInit_step valid.1 initialised
  have started : s.Thrifty := by
    have initial : heapInitialSize.toNat = 2 ^ 20 := rfl
    obtain ⟨below, nowhere⟩ := valid₀
    simp only [Extent.limit_mk, initial] at below nowhere
    have positive : base.toNat ≠ 0 := fun zero => absurd (nowhere.mp zero) (by decide)
    have limit : (base + heapInitialSize).toNat = base.toNat + 2 ^ 20 := by
      rw [BitVec.toNat_add, initial, Nat.mod_eq_of_lt below]
    have one : s.mapped = 2 ^ 20 := by
      have only : s.granted = [⟨base.toNat, heapInitialSize.toNat⟩] := granted
      rw [HeapSession.mapped, only, List.map_singleton, List.sum_singleton, initial]
    refine ⟨?_, ?_⟩
    · rw [heap]
      exact fun isNull => positive (congrArg BitVec.toNat isNull)
    · rw [one, s.slack_eq (by rw [heap]; exact positive), heap]
      dsimp only
      rw [limit]
      omega
  have thrifty : t.Thrifty :=
    (valid.2.invariant (P := fun call => ∃ n, call = .malloc n ∧ n.toNat ≤ 2 ^ 62)
      (fun s call t admitted thrifty step => by
        obtain ⟨n, rfl, moderate⟩ := admitted
        exact thrifty_malloc moderate thrifty step)
      mallocs started).2
  exact thrifty.paid.trans (Nat.add_le_add_left t.slack_le _)

/-- A run against the shelf is labelled with the calls it was asked for. -/
theorem HeapSession.calls_labels {ok : Extent → Prop} [DecidablePred ok] (s : HeapSession)
    (calls : List HeapCall) : ∀ move ∈ s.calls ok calls, move.1 ∈ calls := by
  induction calls generalizing s with
  | nil => exact fun _ member => absurd member List.not_mem_nil
  | cons call rest ih =>
      intro move member
      rw [HeapSession.calls] at member
      rcases List.mem_cons.mp member with rfl | later
      · exact List.mem_cons_self
      · split at later
        · exact List.mem_cons_of_mem _ (ih _ move later)
        · exact absurd later List.not_mem_nil

/-- Two blocks in two regions: the second one does not fit the first region, half of which
is abandoned. -/
theorem heap_waste_two_regions :
    let booted := (HeapSession.start fun _ => 0xff).call Grantable .memInit
    let t := LTS.final booted (booted.calls Grantable [.malloc 0x80000, .malloc 0x100000])
    t.mapped = 0x300000 ∧ t.handedOut = 0x180000 ∧
      t.mapped ≤ 2 * t.handedOut + max (2 ^ 20) t.largest := by
  intro booted t
  have running : booted.panicked = none := by decide +kernel
  have valid : (heapApi Grantable).IsRun (.start fun _ => 0xff) ((.memInit, booted) ::
      booted.calls Grantable [.malloc 0x80000, .malloc 0x100000]) :=
    ⟨HeapSession.call_step Grantable _ rfl _, HeapSession.calls_isRun Grantable _ running _⟩
  refine ⟨by decide +kernel, by decide +kernel, heap_waste _ booted _ valid running ?_⟩
  intro move member
  have label := booted.calls_labels _ move member
  simp only [List.mem_cons, List.not_mem_nil, or_false] at label
  rcases label with same | same
  · exact ⟨_, same, by decide⟩
  · exact ⟨_, same, by decide⟩

end Julius
