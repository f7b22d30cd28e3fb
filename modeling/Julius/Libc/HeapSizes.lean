import Julius.Libc.HeapGeometry

set_option autoImplicit false

/- The sizes that `julius_malloc` serves. No bound is put on a request here, so
that each of the three computations of the allocator can wrap. -/
namespace Julius

open Interact

/-- A region as the kernel can grant it: it ends below the end of the address
space, and it is at address zero exactly if it is empty. -/
def Grantable (region : Extent) : Prop :=
  region.limit < 2 ^ 64 ∧ (region.start = 0 ↔ region.size = 0)

instance : DecidablePred Grantable := fun region =>
  inferInstanceAs (Decidable (region.limit < 2 ^ 64 ∧ (region.start = 0 ↔ region.size = 0)))

/-- `n` bytes rounded up to the alignment, as a number that never wraps. -/
def roundUp (n : Nat) : Nat := (n + 15) / 16 * 16

theorem le_roundUp (n : Nat) : n ≤ roundUp n := by
  unfold roundUp
  omega

theorem roundUp_lt (n : Nat) : roundUp n < n + 16 := by
  unfold roundUp
  omega

theorem dvd_roundUp (n : Nat) : 16 ∣ roundUp n := ⟨_, Nat.mul_comm _ _⟩

theorem align_toNat (n : Word) : (align n heapAlign).toNat = roundUp n.toNat % 2 ^ 64 := by
  have wrapped : (align n heapAlign).toNat = (n.toNat + 15) % 2 ^ 64 / 16 * 16 :=
    align_sixteen_wrap n
  have bound := n.isLt
  unfold roundUp
  omega

theorem roundUp_le (n : Word) : roundUp n.toNat ≤ 2 ^ 64 := by
  have bound := n.isLt
  unfold roundUp
  omega

theorem mallocExtend_toNat (size : Word) :
    (mallocExtend size).toNat = if size.toNat < 2 ^ 20 then 2 ^ 20 else size.toNat * 2 % 2 ^ 64 := by
  have initial : heapInitialSize.toNat = 2 ^ 20 := rfl
  have double : (2 : Word).toNat = 2 := rfl
  simp only [mallocExtend, BitVec.lt_def, initial]
  split
  · exact initial
  · rw [BitVec.toNat_mul, double]

/-- The word that a call hands to `julius_malloc`. -/
def HeapCall.asks : HeapCall → Option Word
  | .malloc size => some size
  | .calloc nmemb size => some (nmemb * size)
  | _ => none

/-- What one call does to a session. An allocation is the body of `julius_malloc`
on the heap `h₀` that entering it leaves. -/
inductive HeapSession.Moves (ok : Extent → Prop) (s : HeapSession) (call : HeapCall) :
    HeapSession → Prop
  | panicked {reason : Panic} : Moves ok s call { s with panicked := some reason }
  | idle : Moves ok s call s
  | initialised {base : Word} (valid : ok ⟨base.toNat, heapInitialSize.toNat⟩)
      (fresh : ∀ r ∈ s.granted, r.Apart ⟨base.toNat, heapInitialSize.toNat⟩) :
      Moves ok s call
        { s with heap := ⟨base, base + heapInitialSize, base⟩,
                 granted := s.granted ++ [⟨base.toNat, heapInitialSize.toNat⟩] }
  | allocated {n p : Word} {h₀ h' : Heap} {granted after : List Extent} {m' : Memory}
      (asks : call.asks = some n)
      (entered : Exec (vmKernel ok) (mallocEnter s.heap) s.granted (.ok h₀) granted)
      (bump : BumpOutcome ok h₀ granted n p h' after)
      (memory : m' = if p = null then s.memory else call.fill s.memory p) :
      Moves ok s call (s.after call after (.ok (p, h', m')))

theorem mallocEnter_outcome {ok : Extent → Prop} {h h₀ : Heap} {granted after : List Extent}
    (entered : Exec (vmKernel ok) (mallocEnter h) granted (.ok h₀) after) :
    (h.heapBase ≠ null ∧ h₀ = h ∧ after = granted) ∨
      (h.heapBase = null ∧ ∃ base : Word, ok ⟨base.toNat, heapInitialSize.toNat⟩ ∧
        (∀ r ∈ granted, r.Apart ⟨base.toNat, heapInitialSize.toNat⟩) ∧
        h₀ = ⟨base, base + heapInitialSize, base⟩ ∧
        after = granted ++ [⟨base.toNat, heapInitialSize.toNat⟩]) := by
  unfold mallocEnter at entered
  split at entered
  · rename_i uninitialised
    exact Or.inr ⟨uninitialised, (wp_juliusMemInit_outcome granted).exec entered⟩
  · rename_i initialised
    cases entered
    exact Or.inl ⟨initialised, rfl, rfl⟩

/-- A failed initialisation is the only way that a call to `julius_malloc` stops. -/
theorem juliusMalloc_outcome {ok : Extent → Prop} {h : Heap} {n : Word}
    {granted after : List Extent} {outcome : Except Panic (Word × Heap)}
    (run : Exec (vmKernel ok) (juliusMalloc h n) granted outcome after) :
    ((∃ reason, outcome = .error reason) ∧ h.heapBase = null ∧ after = granted) ∨
      ∃ h₀ middle p h', Exec (vmKernel ok) (mallocEnter h) granted (.ok h₀) middle ∧
        outcome = .ok (p, h') ∧ BumpOutcome ok h₀ middle n p h' after := by
  unfold juliusMalloc at run
  rcases run.of_bind with ⟨h₀, middle, entered, rest⟩ | ⟨reason, rfl, stopped⟩
  · have reached := (wp_mallocBump_outcome h₀ middle n).exec rest
    cases outcome with
    | error reason => exact reached.elim
    | ok result => exact Or.inr ⟨h₀, middle, result.1, result.2, entered, rfl, reached⟩
  · unfold mallocEnter at stopped
    split at stopped
    · rename_i uninitialised
      have reached := (wp_juliusMemInit_outcome granted).exec stopped
      exact Or.inl ⟨⟨reason, rfl⟩, uninitialised, reached.2⟩
    · cases stopped

/-- `julius_calloc` is `julius_malloc` of the product in the machine, and clears that many bytes. -/
theorem juliusCalloc_outcome {ok : Extent → Prop} {h : Heap} {m : Memory} {nmemb size : Word}
    {granted after : List Extent} {outcome : Except Panic (Word × Heap × Memory)}
    (run : Exec (vmKernel ok) (juliusCalloc h m nmemb size) granted outcome after) :
    ∃ inner, Exec (vmKernel ok) (juliusMalloc h (nmemb * size)) granted inner after ∧
      outcome = inner.map (fun result => (result.1, result.2,
        if result.1 = null then m else juliusMemset m result.1 0 (nmemb * size))) := by
  unfold juliusCalloc at run
  rcases run.of_bind with ⟨result, middle, allocated, rest⟩ | ⟨reason, rfl, stopped⟩
  · cases rest
    refine ⟨.ok result, allocated, ?_⟩
    simp only [Except.map, ne_eq, ite_not]
  · exact ⟨.error reason, stopped, rfl⟩

theorem heapApi_moves {ok : Extent → Prop} {s t : HeapSession} {call : HeapCall}
    (step : (heapApi ok).step s call t) : s.Moves ok call t := by
  obtain ⟨running, outcome, after, run, rfl⟩ := step
  obtain ⟨heap, memory, granted, returned, panicked⟩ := s
  obtain rfl : panicked = none := running
  cases call with
  | memInit =>
      rcases Exec.of_bind run with ⟨h, middle, reached, rest⟩ | ⟨reason, rfl, stopped⟩
      · cases rest
        obtain ⟨base, valid, fresh, rfl, rfl⟩ := (wp_juliusMemInit_outcome granted).exec reached
        exact .initialised valid fresh
      · obtain ⟨rfl, rfl⟩ := (wp_juliusMemInit_outcome granted).exec stopped
        exact .panicked
  | malloc size =>
      rcases Exec.of_bind run with ⟨result, middle, reached, rest⟩ | ⟨reason, rfl, stopped⟩
      · cases rest
        rcases juliusMalloc_outcome reached with ⟨⟨_, failed⟩, _⟩ | ⟨h₀, _, p, h', entered, same, bump⟩
        · cases failed
        · cases same
          exact .allocated rfl entered bump (ite_self _).symm
      · rcases juliusMalloc_outcome stopped with ⟨_, _, rfl⟩ | ⟨_, _, _, _, _, same, _⟩
        · exact .panicked
        · cases same
  | calloc nmemb size =>
      obtain ⟨inner, reached, rfl⟩ := juliusCalloc_outcome run
      rcases juliusMalloc_outcome reached with ⟨⟨reason, rfl⟩, _, rfl⟩ | ⟨h₀, _, p, h', entered, rfl, bump⟩
      · exact .panicked
      · exact .allocated rfl entered bump rfl
  | free ptr =>
      cases run
      exact .idle

/-- The globals name the room of the arena, which is the end of the region granted last. -/
structure Heap.Backs (ok : Extent → Prop) (h : Heap) (A : Arena) : Prop where
  ptr : h.heapPtr.toNat = A.room.start
  limit : h.heapEnd.toNat = A.room.limit
  aligned : (∀ r, ok r → 16 ∣ r.start) → 16 ∣ A.room.start
  region : ∃ r, A.granted.getLast? = some r ∧ ok r ∧ r.size ≠ 0 ∧ A.room.Within r ∧
    A.room.limit = r.limit

theorem Heap.Backs.mapped {ok : Extent → Prop} {h : Heap} {A : Arena} (backs : h.Backs ok A) :
    A.Mapped := by
  obtain ⟨r, last, _, _, within, _⟩ := backs.region
  exact ⟨r, List.mem_of_getLast? last, within⟩

/-- No sum that `julius_malloc(n)` computes on `h` wraps: neither the new bump
pointer, nor, if the kernel grants a new region for it, the size of that region. -/
def Fits (h : Heap) (n : Nat) (refused : Prop) : Prop :=
  h.heapPtr.toNat + roundUp n < 2 ^ 64 ∧
    (h.heapPtr.toNat + roundUp n ≤ h.heapEnd.toNat ∨ roundUp n < 2 ^ 63 ∨ refused)

/-- What a call for `n` bytes may do to the heap: nothing, or hand out `n` bytes
of the current region and move the bump pointer behind them. -/
def MallocRight (h : Heap) (granted : List Extent) (n : Nat) (p : Word) (h' : Heap)
    (after : List Extent) : Prop :=
  (p = null ∧ h' = h) ∨
    (p ≠ null ∧ ∃ r, after.getLast? = some r ∧ r.start ≤ p.toNat ∧ p.toNat + n ≤ r.limit ∧
      (after = granted → h.heapPtr.toNat ≤ p.toNat) ∧
      p.toNat + n ≤ h'.heapPtr.toNat ∧ h'.heapPtr.toNat ≤ h'.heapEnd.toNat)

section

variable {ok : Extent → Prop} (granting : ∀ r, ok r → Grantable r)
include granting

/-- A region that is not empty does not begin at the null address. -/
theorem Heap.Backs.start_pos {h : Heap} {A : Arena} (backs : h.Backs ok A) :
    0 < h.heapPtr.toNat ∧ h.heapPtr.toNat ≤ h.heapEnd.toNat := by
  obtain ⟨r, _, valid, nonempty, within, _⟩ := backs.region
  have grantable := granting r valid
  have ptr := backs.ptr
  have limit := backs.limit
  unfold Grantable Extent.Within Extent.limit at *
  omega

/-- A fresh region of `extend` bytes at `base`, taken into use. -/
theorem Heap.backs_grant (A : Arena) (base extend : Word)
    (valid : ok ⟨base.toNat, extend.toNat⟩) (nonempty : extend.toNat ≠ 0)
    (fresh : ∀ r ∈ A.granted, r.Apart ⟨base.toNat, extend.toNat⟩) (heapBase : Word) :
    (Heap.mk heapBase (base + extend) base).Backs ok (A.grant _ fresh) where
  ptr := rfl
  limit := by
    have below : base.toNat + extend.toNat < 2 ^ 64 := (granting _ valid).1
    show (base + extend).toNat = base.toNat + extend.toNat
    rw [BitVec.toNat_add]
    omega
  aligned regions := regions _ valid
  region := ⟨_, List.getLast?_concat, valid, nonempty, ⟨Nat.le_refl _, Nat.le_refl _⟩, rfl⟩

omit granting in
/-- Handing out `n` bytes of a room that has space for them. -/
theorem Heap.Backs.carve {A : Arena} {h : Heap} (backs : h.Backs ok A) (n used : Word)
    (rounded : used.toNat = roundUp n.toNat) (fits : roundUp n.toNat ≤ A.room.size) :
    ∃ B : Arena, B.granted = A.granted ∧
      (Heap.mk h.heapBase h.heapEnd (h.heapPtr + used)).Backs ok B ∧
      B.blocks = A.blocks ++ [⟨h.heapPtr.toNat, n.toNat⟩] := by
  have covers := le_roundUp n.toNat
  have ptr := backs.ptr
  have limit := backs.limit
  have bound := h.heapEnd.isLt
  obtain ⟨r, last, valid, nonempty, within, same⟩ := backs.region
  unfold Extent.Within Extent.limit at *
  refine ⟨A.carve n.toNat (roundUp n.toNat) backs.mapped covers fits, rfl,
    ⟨?_, ?_, ?_, r, last, valid, nonempty, ⟨?_, ?_⟩, ?_⟩, by rw [ptr]; rfl⟩
  · show (h.heapPtr + used).toNat = A.room.start + roundUp n.toNat
    rw [BitVec.toNat_add]
    omega
  · show h.heapEnd.toNat = A.room.start + roundUp n.toNat + (A.room.size - roundUp n.toNat)
    omega
  · exact fun regions => Nat.dvd_add (backs.aligned regions) (dvd_roundUp _)
  · show r.start ≤ A.room.start + roundUp n.toNat
    omega
  · show A.room.start + roundUp n.toNat + (A.room.size - roundUp n.toNat) ≤ r.start + r.size
    omega
  · show A.room.start + roundUp n.toNat + (A.room.size - roundUp n.toNat) = r.start + r.size
    omega

/-- A fresh region for less than `2^63` bytes has room for them. -/
theorem Heap.backs_fresh (A : Arena) {base n : Word} (heapBase : Word)
    (valid : ok ⟨base.toNat, (mallocExtend (align n heapAlign)).toNat⟩)
    (fresh : ∀ r ∈ A.granted, r.Apart ⟨base.toNat, (mallocExtend (align n heapAlign)).toNat⟩)
    (small : roundUp n.toNat < 2 ^ 63) :
    ∃ B : Arena, B.granted = A.granted ++ [⟨base.toNat, (mallocExtend (align n heapAlign)).toNat⟩] ∧
      (Heap.mk heapBase (base + mallocExtend (align n heapAlign))
        (base + align n heapAlign)).Backs ok B ∧
      base ≠ null ∧ B.blocks = A.blocks ++ [⟨base.toNat, n.toNat⟩] := by
  have rounded : (align n heapAlign).toNat = roundUp n.toNat := by
    rw [align_toNat]
    omega
  have extend := mallocExtend_toNat (align n heapAlign)
  rw [rounded] at extend
  have space : roundUp n.toNat ≤ (mallocExtend (align n heapAlign)).toNat ∧
      (mallocExtend (align n heapAlign)).toNat ≠ 0 := by
    split at extend <;> omega
  have backed := Heap.backs_grant granting A base _ valid space.2 fresh heapBase
  obtain ⟨B, same, further, blocks⟩ := backed.carve n _ rounded space.1
  refine ⟨B, same, further, ?_, blocks⟩
  rintro rfl
  exact space.2 ((granting _ valid).2.mp rfl)

/-- A call that fits keeps the heap on an arena, with the new block in it. -/
theorem BumpOutcome.serves {A : Arena} {h h' : Heap} {n p : Word} {after : List Extent}
    (backs : h.Backs ok A) (bump : BumpOutcome ok h A.granted n p h' after)
    (fits : Fits h n.toNat (after = A.granted)) :
    ∃ B : Arena, B.granted = after ∧ h'.Backs ok B ∧
      ((p = null ∧ B.blocks = A.blocks) ∨
        (p ≠ null ∧ B.blocks = A.blocks ++ [⟨p.toNat, n.toNat⟩])) := by
  obtain ⟨start, room⟩ := backs.start_pos granting
  obtain ⟨noWrap, served⟩ := fits
  have rounded : (align n heapAlign).toNat = roundUp n.toNat := by
    rw [align_toNat]
    omega
  have sum : (h.heapPtr + align n heapAlign).toNat = h.heapPtr.toNat + roundUp n.toNat := by
    rw [BitVec.toNat_add, rounded]
    omega
  cases bump with
  | within fits =>
      rw [BitVec.lt_def, sum] at fits
      have limit := backs.limit
      have ptr := backs.ptr
      unfold Extent.limit at limit
      obtain ⟨B, same, backed, blocks⟩ := backs.carve n _ rounded (by omega)
      refine ⟨B, same, backed, Or.inr ⟨?_, blocks⟩⟩
      rintro isNull
      rw [isNull] at start
      exact absurd start (by decide)
  | refused full => exact ⟨A, rfl, backs, Or.inl ⟨rfl, rfl⟩⟩
  | mapped full valid fresh =>
      rw [BitVec.lt_def, sum] at full
      have small : roundUp n.toNat < 2 ^ 63 := by
        rcases served with within | small | same
        · omega
        · exact small
        · simp at same
      obtain ⟨B, same, backed, nonnull, blocks⟩ :=
        Heap.backs_fresh granting A h.heapBase valid fresh small
      exact ⟨B, same, backed, Or.inr ⟨nonnull, blocks⟩⟩

/-- `julius_malloc(n)` is right exactly if `n` fits, whatever the kernel answers. -/
theorem BumpOutcome.right_iff {A : Arena} {h h' : Heap} {n p : Word} {after : List Extent}
    (backs : h.Backs ok A) (bump : BumpOutcome ok h A.granted n p h' after) :
    MallocRight h A.granted n.toNat p h' after ↔ Fits h n.toNat (after = A.granted) := by
  obtain ⟨start, room⟩ := backs.start_pos granting
  have covers := le_roundUp n.toNat
  have tight := roundUp_lt n.toNat
  have bound := roundUp_le n
  have sum (q : Word) : (q + align n heapAlign).toNat = (q.toNat + roundUp n.toNat) % 2 ^ 64 := by
    rw [BitVec.toNat_add, align_toNat, Nat.add_mod_mod]
  unfold MallocRight Fits
  cases bump with
  | within fits =>
      rw [BitVec.lt_def, sum] at fits
      have nonnull : h.heapPtr ≠ null := fun isNull => by simp [isNull, null] at start
      obtain ⟨r, last, _, _, within, same⟩ := backs.region
      have ptr := backs.ptr
      have limit := backs.limit
      unfold Extent.Within at within
      simp only [sum]
      constructor
      · rintro (⟨isNull, _⟩ | ⟨_, _, _, _, _, _, inside, _⟩)
        · exact absurd isNull nonnull
        · omega
      · rintro ⟨noWrap, _⟩
        exact Or.inr ⟨nonnull, r, last, by omega, by omega, fun _ => Nat.le_refl _, by omega, by omega⟩
  | refused full =>
      rw [BitVec.lt_def, sum] at full
      simp only [or_true, and_true, true_or, true_iff, and_self]
      omega
  | mapped full valid fresh =>
      rw [BitVec.lt_def, sum] at full
      have extend := mallocExtend_toNat (align n heapAlign)
      obtain ⟨below, nowhere⟩ := granting _ valid
      simp only [Extent.limit_mk] at below nowhere
      have limit : (p + mallocExtend (align n heapAlign)).toNat =
          p.toNat + (mallocExtend (align n heapAlign)).toNat := by
        rw [BitVec.toNat_add, Nat.mod_eq_of_lt below]
      have grew : A.granted ++ [⟨p.toNat, (mallocExtend (align n heapAlign)).toNat⟩] ≠ A.granted := by
        simp
      rw [align_toNat] at extend
      simp only [sum, limit]
      constructor
      · rintro (⟨isNull, same⟩ | ⟨_, _, _, _, _, _, inside, ordered⟩)
        · -- an empty region at address zero: the old bump pointer is gone
          have none : p.toNat = 0 := congrArg BitVec.toNat isNull
          have kept : (p + mallocExtend (align n heapAlign)).toNat = h.heapEnd.toNat :=
            congrArg (fun g => g.heapEnd.toNat) same
          rw [limit, nowhere.mp none, none] at kept
          omega
        · split at extend <;> omega
      · rintro ⟨noWrap, served⟩
        have small : roundUp n.toNat < 2 ^ 63 := by
          rcases served with inRoom | small | same
          · omega
          · exact small
          · exact absurd same grew
        have space : roundUp n.toNat ≤ (mallocExtend (align n heapAlign)).toNat ∧
            (mallocExtend (align n heapAlign)).toNat ≠ 0 := by
          split at extend <;> omega
        have nonnull : p ≠ null := fun isNull =>
          space.2 (nowhere.mp (congrArg BitVec.toNat isNull))
        refine Or.inr ⟨nonnull, _, List.getLast?_concat, Nat.le_refl _, ?_,
          fun same => absurd same grew, by omega, by omega⟩
        simp only [Extent.limit_mk]
        omega

end

/-- The heap interface, restricted to the calls of which each one that reaches the
body of `julius_malloc` meets `Q`, on the heap that this body works on. -/
def heapApiUnder (ok : Extent → Prop) (Q : HeapCall → Heap → Word → Prop → Prop) :
    LTS HeapSession HeapCall where
  step s call t := (heapApi ok).step s call t ∧ ∀ n h granted, call.asks = some n →
    Exec (vmKernel ok) (mallocEnter s.heap) s.granted (.ok h) granted → granted <+: t.granted →
      Q call h n (t.granted = granted)

/-- The globals of the session name the room of some arena over the granted regions. -/
def HeapSession.Stands (ok : Extent → Prop) (s : HeapSession) : Prop :=
  ∃ A : Arena, A.granted = s.granted ∧ (s.heap.heapBase ≠ null → s.heap.Backs ok A)

theorem start_stands (ok : Extent → Prop) (memory : Memory) : (HeapSession.start memory).Stands ok :=
  ⟨Arena.empty, rfl, fun nonnull => absurd rfl nonnull⟩

theorem BumpOutcome.granted_prefix {ok : Extent → Prop} {h h' : Heap} {n p : Word}
    {granted after : List Extent} (bump : BumpOutcome ok h granted n p h' after) :
    granted <+: after := by
  cases bump with
  | within room => exact List.prefix_rfl
  | refused full => exact List.prefix_rfl
  | mapped full valid fresh => exact List.prefix_append _ _

section

variable {ok : Extent → Prop} (granting : ∀ r, ok r → Grantable r)
include granting

theorem Heap.backs_initial (A : Arena) (base : Word) (valid : ok ⟨base.toNat, heapInitialSize.toNat⟩)
    (fresh : ∀ r ∈ A.granted, r.Apart ⟨base.toNat, heapInitialSize.toNat⟩) :
    (Heap.mk base (base + heapInitialSize) base).Backs ok (A.grant _ fresh) :=
  Heap.backs_grant granting A base heapInitialSize valid (by decide) fresh base

/-- Entering `julius_malloc` leaves the heap as it is, or on a fresh region with the same blocks. -/
theorem mallocEnter_backs {A : Arena} {h h₀ : Heap} {after : List Extent}
    (entered : Exec (vmKernel ok) (mallocEnter h) A.granted (.ok h₀) after) :
    ∃ B : Arena, B.granted = after ∧ B.blocks = A.blocks ∧
      ((h.heapBase ≠ null ∧ h₀ = h ∧ B = A) ∨ h₀.Backs ok B) := by
  rcases mallocEnter_outcome entered with ⟨nonnull, rfl, rfl⟩ | ⟨_, base, valid, fresh, rfl, rfl⟩
  · exact ⟨A, rfl, rfl, Or.inl ⟨nonnull, rfl, rfl⟩⟩
  · exact ⟨A.grant _ fresh, rfl, rfl, Or.inr (Heap.backs_initial granting A base valid fresh)⟩

theorem stands_step (s t : HeapSession) (call : HeapCall) (stands : s.Stands ok)
    (step : (heapApiUnder ok (fun _ h n refused => Fits h n.toNat refused)).step s call t) :
    t.Stands ok := by
  obtain ⟨moved, fits⟩ := step
  obtain ⟨A, same, backs⟩ := stands
  cases heapApi_moves moved with
  | panicked => exact ⟨A, same, backs⟩
  | idle => exact ⟨A, same, backs⟩
  | initialised valid fresh =>
      rw [← same] at fresh ⊢
      exact ⟨A.grant _ fresh, rfl, fun _ => Heap.backs_initial granting A _ valid fresh⟩
  | allocated asks entered bump memory =>
      have fitted := fits _ _ _ asks entered bump.granted_prefix
      rw [← same] at entered
      obtain ⟨B, rfl, _, unchanged | backed⟩ := mallocEnter_backs granting entered
      · obtain ⟨nonnull, rfl, rfl⟩ := unchanged
        obtain ⟨C, extended, further, _⟩ := bump.serves granting (backs nonnull) fitted
        exact ⟨C, extended, fun _ => further⟩
      · obtain ⟨C, extended, further, _⟩ := bump.serves granting backed fitted
        exact ⟨C, extended, fun _ => further⟩

end

/-- In every run in which each request fits, on every heap reached after
initialisation and for every request and answer of the kernel: `julius_malloc`
returns, and it is right exactly if the request fits. -/
theorem juliusMalloc_right_iff (memory : Memory) (run : List (HeapCall × HeapSession))
    (valid : (heapApiUnder Grantable (fun _ h n refused => Fits h n.toNat refused)).IsRun
      (.start memory) run) :
    let s := LTS.final (.start memory) run
    s.heap.heapBase ≠ null → ∀ n outcome after,
      Exec (vmKernel Grantable) (juliusMalloc s.heap n) s.granted outcome after →
      ∃ p h', outcome = .ok (p, h') ∧
        (MallocRight s.heap s.granted n.toNat p h' after ↔
          Fits s.heap n.toNat (after = s.granted)) := by
  intro s initialised n outcome after called
  have granting : ∀ r, Grantable r → Grantable r := fun _ grantable => grantable
  have stands : s.Stands Grantable :=
    (valid.invariant (P := fun _ => True)
      (fun s call t _ stands step => stands_step granting s t call stands step)
      (fun _ _ => trivial) (start_stands Grantable memory)).2
  obtain ⟨A, same, backs⟩ := stands
  rcases juliusMalloc_outcome called with ⟨_, isNull, _⟩ | ⟨h₀, middle, p, h', entered, rfl, bump⟩
  · exact absurd isNull initialised
  · refine ⟨p, h', rfl, ?_⟩
    rcases mallocEnter_outcome entered with ⟨_, rfl, rfl⟩ | ⟨isNull, _⟩
    · rw [← same] at bump ⊢
      exact bump.right_iff granting (backs initialised)
    · exact absurd isNull initialised

/-- 24 bytes, then 40 more on the heap they leave. -/
theorem juliusMalloc_right_forty :
    let s := LTS.final (.start fun _ => 0xff)
      ((HeapSession.start fun _ => 0xff).calls Grantable [.memInit, .malloc 24])
    s.heap.heapPtr = 0x100000020#64 ∧ ∀ outcome after,
      Exec (vmKernel Grantable) (juliusMalloc s.heap 40) s.granted outcome after →
      ∃ p h', outcome = .ok (p, h') ∧ MallocRight s.heap s.granted 40 p h' after := by
  let booted := (HeapSession.start fun _ => 0xff).call Grantable .memInit
  have valid : (heapApiUnder Grantable (fun _ h n refused => Fits h n.toNat refused)).IsRun
      (.start fun _ => 0xff)
      ((HeapSession.start fun _ => 0xff).calls Grantable [.memInit, .malloc 24]) := by
    refine ⟨⟨HeapSession.call_step _ _ rfl _, fun _ _ _ asks => by cases asks⟩,
      ⟨HeapSession.call_step _ booted (by decide) _, ?_⟩, trivial⟩
    intro n h granted asks entered _
    cases asks
    rcases mallocEnter_outcome entered with ⟨_, rfl, _⟩ | ⟨isNull, _⟩
    · exact ⟨by decide, Or.inl (by decide)⟩
    · exact absurd isNull (by decide)
  refine ⟨by decide, ?_⟩
  intro outcome after called
  obtain ⟨p, h', same, right⟩ := juliusMalloc_right_iff _ _ valid (by decide) 40 outcome after called
  exact ⟨p, h', same, right.mpr ⟨by decide, Or.inl (by decide)⟩⟩

/-- `malloc(2^64 - 1)`: `ALIGN` wraps to zero, so that the bump pointer itself is returned. -/
theorem juliusMalloc_all_ones :
    let s := LTS.final (.start fun _ => 0xff)
      ((HeapSession.start fun _ => 0xff).calls Grantable [.memInit])
    (heapApi Grantable).IsRun (.start fun _ => 0xff)
        ((HeapSession.start fun _ => 0xff).calls Grantable [.memInit]) ∧
      s.heap.heapBase ≠ null ∧
      Exec (vmKernel Grantable) (juliusMalloc s.heap (-1)) s.granted
        (.ok (s.heap.heapPtr, s.heap)) s.granted ∧
      ¬ MallocRight s.heap s.granted (2 ^ 64 - 1) s.heap.heapPtr s.heap s.granted := by
  refine ⟨HeapSession.calls_isRun _ _ rfl _, by decide, ?_, ?_⟩
  · exact .ret
  · rintro (⟨isNull, _⟩ | ⟨_, _, _, _, _, _, inside, _⟩)
    · exact absurd isNull (by decide)
    · exact absurd inside (by decide)

end Julius
