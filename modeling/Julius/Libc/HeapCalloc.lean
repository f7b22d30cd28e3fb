import Mathlib.Data.BitVec
import Julius.Libc.MemLoops
import Julius.Libc.HeapSizes

set_option autoImplicit false

/- The pairs of arguments that `julius_calloc` serves. -/
namespace Julius

open Interact

/-- A region as the kernel grants it in whole pages, of which only the alignment matters here. -/
def Paged (region : Extent) : Prop :=
  Grantable region ∧ 16 ∣ region.start ∧ 16 ∣ region.size

instance : DecidablePred Paged := fun region =>
  inferInstanceAs (Decidable (Grantable region ∧ 16 ∣ region.start ∧ 16 ∣ region.size))

/-- The request for `product` bytes, of which `total` reach `julius_malloc`, is
refused in the end, or it is passed on unchanged and fits. An extension for
exactly `2^63` bytes asks the kernel for none, and comes back as a null pointer. -/
def Clears (h : Heap) (total : Word) (product : Nat) (refused : Prop) : Prop :=
  (h.heapEnd < h.heapPtr + align total heapAlign ∧ (refused ∨ roundUp total.toNat = 2 ^ 63)) ∨
    (product < 2 ^ 64 ∧ Fits h total.toNat refused)

/-- What a call for `product` bytes that returns `p` may do: nothing is handed
out, or a block of that size, in one region and apart from all blocks, which is
all that the call writes, and writes with zeros. -/
def CallocRight (s : HeapSession) (product : Nat) (p : Word) (m' : Memory) (after : List Extent) :
    Prop :=
  p = null ∨
    ((∃ r ∈ after, Extent.Within ⟨p.toNat, product⟩ r) ∧
      (∀ b ∈ s.returned, Disjoint b.cells (Extent.cells ⟨p.toNat, product⟩)) ∧
      ∀ a : Word, m' a = if p.toNat ≤ a.toNat ∧ a.toNat < p.toNat + product then 0 else s.memory a)

/-- The heap after an extension for exactly `2^63` bytes: it has no room at all. -/
def Heap.Void (h : Heap) : Prop := h.heapEnd.toNat = 0 ∧ h.heapPtr.toNat = 2 ^ 63

/-- The blocks returned are those of an arena whose room the globals name, as long as they name any. -/
structure HeapSession.Carved (s : HeapSession) (A : Arena) : Prop where
  granted : A.granted = s.granted
  blocks : A.blocks = s.returned
  paged : ∀ r ∈ A.granted, Paged r
  room : s.heap.heapBase ≠ null → s.heap.Backs Paged A ∨ s.heap.Void

theorem paged_grantable (r : Extent) (paged : Paged r) : Grantable r := paged.1

theorem start_carved (memory : Memory) : (HeapSession.start memory).Carved Arena.empty where
  granted := rfl
  blocks := rfl
  paged _ member := absurd member List.not_mem_nil
  room nonnull := absurd rfl nonnull

/-- A request that fits, on a heap without room, is refused or gets a region of its own. -/
theorem BumpOutcome.serves_void (A : Arena) {h h' : Heap} {n p : Word} {after : List Extent}
    (void : h.Void) (bump : BumpOutcome Paged h A.granted n p h' after)
    (fits : Fits h n.toNat (after = A.granted)) :
    ∃ B : Arena, B.granted = after ∧ (h'.Backs Paged B ∨ h'.Void) ∧
      ((p = null ∧ B.blocks = A.blocks) ∨
        (p ≠ null ∧ B.blocks = A.blocks ++ [⟨p.toNat, n.toNat⟩])) := by
  obtain ⟨empty, beyond⟩ := void
  obtain ⟨noWrap, served⟩ := fits
  cases bump with
  | within fits =>
      rw [BitVec.lt_def, BitVec.toNat_add, align_toNat] at fits
      omega
  | refused full => exact ⟨A, rfl, Or.inr ⟨empty, beyond⟩, Or.inl ⟨rfl, rfl⟩⟩
  | mapped full valid fresh =>
      obtain ⟨B, same, backed, nonnull, blocks⟩ :=
        Heap.backs_fresh paged_grantable A h.heapBase valid fresh (by omega)
      exact ⟨B, same, Or.inl backed, Or.inr ⟨nonnull, blocks⟩⟩

/-- A request that clears leaves the globals on an arena, with the new block in it. -/
theorem BumpOutcome.settles (A : Arena) {h h' : Heap} {n p : Word} {product : Nat}
    {after : List Extent} (room : h.Backs Paged A ∨ h.Void)
    (bump : BumpOutcome Paged h A.granted n p h' after)
    (clears : Clears h n product (after = A.granted)) :
    ∃ B : Arena, B.granted = after ∧ (h'.Backs Paged B ∨ h'.Void) ∧
      ((p = null ∧ B.blocks = A.blocks) ∨
        (p ≠ null ∧ product < 2 ^ 64 ∧ B.blocks = A.blocks ++ [⟨p.toNat, n.toNat⟩])) := by
  rcases clears with ⟨full, nothing⟩ | ⟨small, fits⟩
  · cases bump with
    | within fits => exact absurd full fits
    | refused full => exact ⟨A, rfl, room, Or.inl ⟨rfl, rfl⟩⟩
    | mapped full valid fresh =>
        have half : roundUp n.toNat = 2 ^ 63 := by simpa using nothing
        have rounded : (align n heapAlign).toNat = 2 ^ 63 := by
          rw [align_toNat, half]
          rfl
        have none : (mallocExtend (align n heapAlign)).toNat = 0 := by
          rw [mallocExtend_toNat, rounded]
          rfl
        have isNull : p.toNat = 0 := (paged_grantable _ valid).2.mpr none
        refine ⟨A.grant _ fresh, rfl, Or.inr ⟨?_, ?_⟩,
          Or.inl ⟨BitVec.eq_of_toNat_eq isNull, rfl⟩⟩
        · rw [BitVec.toNat_add, isNull, none]
        · rw [BitVec.toNat_add, isNull, rounded]
          rfl
  · have handed : ∃ B : Arena, B.granted = after ∧ (h'.Backs Paged B ∨ h'.Void) ∧
        ((p = null ∧ B.blocks = A.blocks) ∨
          (p ≠ null ∧ B.blocks = A.blocks ++ [⟨p.toNat, n.toNat⟩])) := by
      rcases room with backs | void
      · obtain ⟨B, same, backed, blocks⟩ := bump.serves paged_grantable backs fits
        exact ⟨B, same, Or.inl backed, blocks⟩
      · exact bump.serves_void A void fits
    obtain ⟨B, same, further, isNull | ⟨nonnull, blocks⟩⟩ := handed
    · exact ⟨B, same, further, Or.inl isNull⟩
    · exact ⟨B, same, further, Or.inr ⟨nonnull, small, blocks⟩⟩

/-- A block at the returned pointer that lies in one region is one that fits: on
aligned regions the rounding does not leave the region either. -/
theorem BumpOutcome.fits_of_within (A : Arena) {h h' : Heap} {n p : Word} {after : List Extent}
    {r : Extent} (room : h.Backs Paged A ∨ h.Void) (paged : ∀ r ∈ after, Paged r)
    (bump : BumpOutcome Paged h A.granted n p h' after) (nonnull : p ≠ null) (held : r ∈ after)
    (within : Extent.Within ⟨p.toNat, n.toNat⟩ r) :
    Clears h n n.toNat (after = A.granted) := by
  obtain ⟨⟨below, _⟩, startAligned, sizeAligned⟩ := paged r held
  obtain ⟨start, inside⟩ : r.start ≤ p.toNat ∧ p.toNat + n.toNat ≤ r.limit := within
  have covers := le_roundUp n.toNat
  have tight := roundUp_lt n.toNat
  have aligned := dvd_roundUp n.toNat
  have bound := roundUp_le n
  have ordered : h.heapPtr.toNat ≤ h.heapEnd.toNat ∨
      h.heapEnd.toNat = 0 ∧ h.heapPtr.toNat = 2 ^ 63 := by
    rcases room with backs | void
    · exact Or.inl (backs.start_pos paged_grantable).2
    · exact Or.inr void
  have ptrAligned : 16 ∣ h.heapPtr.toNat := by
    rcases room with backs | void
    · rw [backs.ptr]
      exact backs.aligned (fun r paged => paged.2.1)
    · rw [void.2]
      decide
  unfold Extent.limit at below inside
  cases bump with
  | within fits =>
      rw [BitVec.lt_def, BitVec.toNat_add, align_toNat] at fits
      exact Or.inr ⟨n.isLt, by omega, Or.inl (by omega)⟩
  | refused full => exact absurd rfl nonnull
  | mapped full valid fresh =>
      rw [BitVec.lt_def, BitVec.toNat_add, align_toNat] at full
      have extend := mallocExtend_toNat (align n heapAlign)
      rw [align_toNat] at extend
      have nowhere : p.toNat = 0 ↔ (mallocExtend (align n heapAlign)).toNat = 0 := valid.1.2
      have positive : p.toNat ≠ 0 := fun none => nonnull (BitVec.eq_of_toNat_eq none)
      have small : roundUp n.toNat < 2 ^ 63 := by
        rcases List.mem_append.mp held with old | new
        · have apart := fresh r old
          simp only [Extent.Apart, Extent.limit] at apart
          omega
        · obtain rfl := List.mem_singleton.mp new
          dsimp only at inside sizeAligned
          split at extend <;> omega
      exact Or.inr ⟨n.isLt, by omega, Or.inr (Or.inl small)⟩

/-- A null pointer is returned only where nothing was handed out. -/
theorem BumpOutcome.refused_of_null (A : Arena) {h h' : Heap} {n p : Word} {after : List Extent}
    (room : h.Backs Paged A ∨ h.Void) (bump : BumpOutcome Paged h A.granted n p h' after)
    (isNull : p = null) :
    h.heapEnd < h.heapPtr + align n heapAlign ∧ (after = A.granted ∨ roundUp n.toNat = 2 ^ 63) := by
  have none : p.toNat = 0 := congrArg BitVec.toNat isNull
  cases bump with
  | within fits =>
      rcases room with backs | void
      · have start := (backs.start_pos paged_grantable).1
        omega
      · have beyond := void.2
        omega
  | refused full => exact ⟨full, Or.inl rfl⟩
  | mapped full valid fresh =>
      have extend := mallocExtend_toNat (align n heapAlign)
      have nowhere : p.toNat = 0 ↔ (mallocExtend (align n heapAlign)).toNat = 0 := valid.1.2
      have bound := roundUp_le n
      rw [align_toNat, nowhere.mp none] at extend
      refine ⟨full, Or.inr ?_⟩
      split at extend <;> omega

/-- The bytes that `julius_calloc` writes are those of the block, where it is the product. -/
theorem juliusMemset_clears (m : Memory) (p n a : Word) (fits : p.toNat + n.toNat ≤ 2 ^ 64) :
    juliusMemset m p 0 n a =
      if p.toNat ≤ a.toNat ∧ a.toNat < p.toNat + n.toNat then 0 else m a := by
  have written := juliusMemset_writes m p 0 n fits a.toNat a.isLt
  rw [Memory.peek_toNat, Memory.peek_toNat, List.length_replicate] at written
  rw [written]
  split
  · rename_i inside
    rw [List.getD_eq_getElem?_getD, List.getElem?_replicate, if_pos (by omega)]
    rfl
  · rfl

theorem BumpOutcome.callocRight_iff (A : Arena) {s : HeapSession} {h h' : Heap} {n p : Word}
    {product : Nat} {after : List Extent} {m' : Memory} (room : h.Backs Paged A ∨ h.Void)
    (bump : BumpOutcome Paged h A.granted n p h' after) (blocks : A.blocks = s.returned)
    (paged : ∀ r ∈ after, Paged r) (total : n.toNat = product % 2 ^ 64)
    (memory : m' = if p = null then s.memory else juliusMemset s.memory p 0 n) :
    CallocRight s product p m' after ↔ Clears h n product (after = A.granted) := by
  constructor
  · rintro (isNull | ⟨⟨r, held, within⟩, _, _⟩)
    · exact Or.inl (bump.refused_of_null A room isNull)
    · by_cases isNull : p = null
      · exact Or.inl (bump.refused_of_null A room isNull)
      · have inside : p.toNat + product ≤ r.limit := within.2
        have below := (paged r held).1.1
        have exact : product = n.toNat := by omega
        rw [exact] at within ⊢
        exact bump.fits_of_within A room paged isNull held within
  · intro clears
    obtain ⟨B, rfl, _, ⟨isNull, _⟩ | ⟨nonnull, small, extended⟩⟩ := bump.settles A room clears
    · exact Or.inl isNull
    · have exact : product = n.toNat := by omega
      rw [exact]
      have apart := B.blocks_apart
      rw [extended, List.pairwise_append] at apart
      obtain ⟨r, held, within⟩ := B.blocks_within ⟨p.toNat, n.toNat⟩ (by simp [extended])
      have below := (paged r held).1.1
      have inside : p.toNat + n.toNat ≤ r.limit := within.2
      refine Or.inr ⟨⟨r, held, within⟩, ?_, ?_⟩
      · intro b member
        rw [← blocks] at member
        exact (apart.2.2 b member _ (List.mem_singleton.mpr rfl)).disjoint
      · intro a
        rw [memory, if_neg nonnull]
        exact juliusMemset_clears s.memory p n a (by omega)

theorem HeapCall.asks_toNat {call : HeapCall} {n : Word} (asks : call.asks = some n) :
    n.toNat = call.requested % 2 ^ 64 := by
  cases call with
  | malloc size =>
      cases asks
      exact (Nat.mod_eq_of_lt n.isLt).symm
  | calloc nmemb size =>
      cases asks
      exact BitVec.toNat_mul _ _
  | memInit => cases asks
  | free ptr => cases asks

/-- The room that the body of `julius_malloc` works on, in an arena with the blocks of the session. -/
theorem HeapSession.Carved.entered {s : HeapSession} {A : Arena} {h : Heap} {granted : List Extent}
    (carved : s.Carved A)
    (entered : Exec (vmKernel Paged) (mallocEnter s.heap) s.granted (.ok h) granted) :
    ∃ B : Arena, B.granted = granted ∧ B.blocks = s.returned ∧ (h.Backs Paged B ∨ h.Void) := by
  rw [← carved.granted] at entered
  obtain ⟨B, same, blocks, unchanged | backed⟩ := mallocEnter_backs paged_grantable entered
  · obtain ⟨nonnull, rfl, rfl⟩ := unchanged
    exact ⟨B, same, carved.blocks, carved.room nonnull⟩
  · exact ⟨B, same, blocks.trans carved.blocks, Or.inl backed⟩

theorem heapApi_granted {ok : Extent → Prop} {s t : HeapSession} {call : HeapCall}
    (step : (heapApi ok).step s call t) (admissible : ∀ r ∈ s.granted, ok r) :
    ∀ r ∈ t.granted, ok r := by
  obtain ⟨_, outcome, after, run, rfl⟩ := step
  have kept := (wp_granted_ok _ s.granted admissible).exec run
  cases outcome <;> exact kept

theorem carved_step (s t : HeapSession) (call : HeapCall) (carved : ∃ A, s.Carved A)
    (step : (heapApiUnder Paged
      (fun call h n refused => Clears h n call.requested refused)).step s call t) :
    ∃ B, t.Carved B := by
  obtain ⟨moved, clears⟩ := step
  obtain ⟨A, carved⟩ := carved
  have paged := heapApi_granted moved (carved.granted ▸ carved.paged)
  cases heapApi_moves moved with
  | panicked => exact ⟨A, carved.granted, carved.blocks, carved.paged, carved.room⟩
  | idle => exact ⟨A, carved⟩
  | initialised valid fresh =>
      rw [← carved.granted] at fresh paged
      exact ⟨A.grant _ fresh, by rw [← carved.granted]; rfl, carved.blocks, paged,
        fun _ => Or.inl (Heap.backs_initial paged_grantable A _ valid fresh)⟩
  | @allocated n p h₀ h' granted after m' asks entered bump memory =>
      have cleared := clears _ _ _ asks entered bump.granted_prefix
      obtain ⟨B, rfl, blocks, room⟩ := carved.entered entered
      obtain ⟨C, rfl, further, handed⟩ := bump.settles B room cleared
      refine ⟨C, rfl, ?_, paged, fun _ => further⟩
      rcases handed with ⟨isNull, unchanged⟩ | ⟨nonnull, small, extended⟩
      · simp only [HeapSession.after, isNull, ↓reduceIte]
        exact unchanged.trans blocks
      · have total := HeapCall.asks_toNat asks
        rw [Nat.mod_eq_of_lt small] at total
        simp only [HeapSession.after, nonnull, ↓reduceIte]
        rw [extended, blocks, total]

/-- In every run in which each request clears, from every session reached, for
all arguments and answers of the kernel: what `julius_calloc` returns is right
exactly if its request clears, on the heap that entering `julius_malloc` leaves. -/
theorem juliusCalloc_right_iff (memory : Memory) (run : List (HeapCall × HeapSession))
    (valid : (heapApiUnder Paged
      (fun call h n refused => Clears h n call.requested refused)).IsRun (.start memory) run) :
    let s := LTS.final (.start memory) run
    ∀ nmemb size p h' m' after,
      Exec (vmKernel Paged) (juliusCalloc s.heap s.memory nmemb size) s.granted
        (.ok (p, h', m')) after →
      ∃ h granted, Exec (vmKernel Paged) (mallocEnter s.heap) s.granted (.ok h) granted ∧
        granted <+: after ∧ (CallocRight s (nmemb.toNat * size.toNat) p m' after ↔
          Clears h (nmemb * size) (nmemb.toNat * size.toNat) (after = granted)) := by
  intro s nmemb size p h' m' after called
  obtain ⟨A, carved⟩ : ∃ A, s.Carved A :=
    (valid.invariant (P := fun _ => True)
      (fun s call t _ carved step => carved_step s t call carved step)
      (fun _ _ => trivial) ⟨_, start_carved memory⟩).2
  have paged := (wp_granted_ok _ s.granted (carved.granted ▸ carved.paged)).exec called
  obtain ⟨inner, allocated, same⟩ := juliusCalloc_outcome called
  rcases juliusMalloc_outcome allocated with ⟨⟨_, rfl⟩, _⟩ | ⟨h, granted, q, g, entered, rfl, bump⟩
  · cases same
  · cases same
    obtain ⟨B, rfl, blocks, room⟩ := carved.entered entered
    exact ⟨h, B.granted, entered, bump.granted_prefix,
      bump.callocRight_iff B room blocks paged (BitVec.toNat_mul _ _) rfl⟩

/-- A cleared 2 by 24 behind a cleared 3 by 8. -/
theorem juliusCalloc_right_second :
    let s := LTS.final (.start fun _ => 0xff)
      ((HeapSession.start fun _ => 0xff).calls Paged [.memInit, .calloc 3 8])
    s.returned = [⟨2 ^ 32, 24⟩] ∧ ∀ p h' m' after,
      Exec (vmKernel Paged) (juliusCalloc s.heap s.memory 2 24) s.granted (.ok (p, h', m')) after →
      CallocRight s 48 p m' after := by
  let booted := (HeapSession.start fun _ => 0xff).call Paged .memInit
  have valid : (heapApiUnder Paged (fun call h n refused => Clears h n call.requested refused)).IsRun
      (.start fun _ => 0xff)
      ((HeapSession.start fun _ => 0xff).calls Paged [.memInit, .calloc 3 8]) := by
    refine ⟨⟨HeapSession.call_step _ _ rfl _, fun _ _ _ asks => by cases asks⟩,
      ⟨HeapSession.call_step _ booted (by decide) _, ?_⟩, trivial⟩
    intro n h granted asks entered _
    cases asks
    rcases mallocEnter_outcome entered with ⟨_, rfl, _⟩ | ⟨isNull, _⟩
    · exact Or.inr ⟨by decide, by decide, Or.inl (by decide)⟩
    · exact absurd isNull (by decide)
  refine ⟨by decide, ?_⟩
  intro p h' m' after called
  obtain ⟨h, granted, entered, _, right⟩ := juliusCalloc_right_iff _ _ valid 2 24 p h' m' after called
  rcases mallocEnter_outcome entered with ⟨_, rfl, _⟩ | ⟨isNull, _⟩
  · exact right.mpr (Or.inr ⟨by decide, by decide, Or.inl (by decide)⟩)
  · exact absurd isNull (by decide)

/-- `calloc(2^32, 2^32)`: the product wraps to zero, and the call succeeds with no byte behind it. -/
theorem juliusCalloc_square :
    let s := LTS.final (.start fun _ => 0xff)
      ((HeapSession.start fun _ => 0xff).calls Paged [.memInit])
    (heapApi Paged).IsRun (.start fun _ => 0xff)
        ((HeapSession.start fun _ => 0xff).calls Paged [.memInit]) ∧
      Exec (vmKernel Paged) (juliusCalloc s.heap s.memory (2 ^ 32) (2 ^ 32)) s.granted
        (.ok (s.heap.heapPtr, s.heap, s.memory)) s.granted ∧
      ¬ CallocRight s (2 ^ 32 * 2 ^ 32) s.heap.heapPtr s.memory s.granted := by
  refine ⟨HeapSession.calls_isRun _ _ rfl _, .ret, ?_⟩
  rintro (isNull | ⟨⟨r, held, _, inside⟩, _, _⟩)
  · exact absurd isNull (by decide)
  · obtain rfl := List.mem_singleton.mp held
    exact absurd inside (by decide)

end Julius
