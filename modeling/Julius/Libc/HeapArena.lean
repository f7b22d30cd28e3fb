import Julius.Lib.Arena
import Julius.Libc.Mem

set_option autoImplicit false

/- The heap globals against the arena of a bump allocator, for every sequence of
answers of `mach_vm_allocate`. -/
namespace Julius

open Interact

/-- The answers of `mach_vm_allocate` to a request of `size` bytes: a failure, or
a region of that size which meets `ok` and is apart from all regions granted before. -/
inductive VmGrants (ok : Extent → Prop) (granted : List Extent) (size : Word) :
    KernReturn × Word → List Extent → Prop
  | refused {kr : KernReturn} {addr : Word} (failed : kr ≠ kernSuccess) :
      VmGrants ok granted size (kr, addr) granted
  | mapped {addr : Word} (valid : ok ⟨addr.toNat, size.toNat⟩)
      (fresh : ∀ r ∈ granted, r.Apart ⟨addr.toNat, size.toNat⟩) :
      VmGrants ok granted size (kernSuccess, addr) (granted ++ [⟨addr.toNat, size.toNat⟩])

def vmAnswers (ok : Extent → Prop) (granted : List Extent) :
    (trap : Trap) → trap.Answer → List Extent → Prop
  | .vmAllocate _ _ size _, answer, after => VmGrants ok granted size answer after
  | _, _, after => after = granted

/-- The kernel as the heap sees it: all it remembers is the regions it granted. -/
def vmKernel (ok : Extent → Prop) : World Trap Trap.Answer (List Extent) where
  answers := vmAnswers ok
  drift _ _ := False

/-- A user region lies below the canonical boundary `2^47`. -/
def BelowUserLimit (region : Extent) : Prop := region.limit ≤ 2 ^ 47

instance : DecidablePred BelowUserLimit :=
  fun region => inferInstanceAs (Decidable (region.limit ≤ 2 ^ 47))

/-- A kernel that puts its regions `2^40` bytes apart, and is out of space where
that is no admissible place. -/
def shelfKernel (ok : Extent → Prop) [DecidablePred ok] (granted : List Extent) :
    (trap : Trap) → trap.Answer × List Extent
  | .vmAllocate _ _ size _ =>
      let addr : Word := BitVec.ofNat 64 (2 ^ 32 + granted.length * 2 ^ 40)
      let region : Extent := ⟨addr.toNat, size.toNat⟩
      if ok region ∧ ∀ r ∈ granted, r.Apart region then
        ((kernSuccess, addr), granted ++ [region])
      else ((3, null), granted)
  | .taskSelf => ((0x103 : MachPort), granted)
  | .write _ text => (BitVec.ofNat 64 text.length, granted)
  | .machMsg msg .. => ((kernSuccess, msg), granted)
  | .portAllocate .. => ((kernSuccess, (0x203 : MachPort)), granted)
  | .portInsertRight .. => (kernSuccess, granted)
  | .taskSetBootstrapPort .. => (kernSuccess, granted)

theorem shelfKernel_admitted (ok : Extent → Prop) [DecidablePred ok] (granted : List Extent)
    (trap : Trap) : (vmKernel ok).answers granted trap (shelfKernel ok granted trap).1
      (shelfKernel ok granted trap).2 := by
  cases trap with
  | vmAllocate task addr size flags =>
      show VmGrants ok granted size _ _
      unfold shelfKernel
      dsimp only
      split
      · rename_i place
        exact .mapped place.1 place.2
      · exact .refused (by decide)
  | _ => rfl

/-- No condition on the queries. -/
abbrev anyQuery {S : Type} : S → Trap → Prop := fun _ _ => True

section

variable {ok : Extent → Prop} {α β : Type}

theorem vmKernel_still : (vmKernel ok).Still := fun _ _ moved => moved

/-- Console output leaves the regions alone. -/
theorem wp_vmKernel_write {first : Libc α} {next : α → Libc β}
    {post : Except Panic β → List Extent → Prop} {granted : List Extent}
    (asks : first.Asks Trap.IsWrite (fun _ => False))
    (rest : ∀ value, (next value).wp (vmKernel ok) anyQuery post granted) :
    (first.bind next).wp (vmKernel ok) anyQuery post granted := by
  apply asks.wp_bind (P := (· = granted)) (fun s t moved => absurd moved (vmKernel_still s t)) _
    (fun _ _ _ _ => trivial) rfl (fun _ _ never _ => never.elim)
  · intro value t same
    exact same ▸ rest value
  · intro s q answer t allowed answered held
    cases q <;> first | exact allowed.elim | exact Eq.trans answered held

/-- A panic stops with its message and leaves the regions alone. -/
theorem wp_vmKernel_panic {post : Except Panic α → List Extent → Prop} {granted : List Extent}
    (msg : String) (stopped : post (.error ⟨msg⟩) granted) :
    (juliusPanic msg : Libc α).wp (vmKernel ok) anyQuery post granted := by
  unfold juliusPanic
  simp only [Program.bind_eq]
  refine wp_vmKernel_write (juliusPuts_asks _) (fun _ => ?_)
  refine wp_vmKernel_write (juliusPuts_asks _) (fun _ => ?_)
  exact wp_vmKernel_write (juliusPuts_asks _) (fun _ => stopped)

theorem wp_vmKernel_taskSelf {next : MachPort → Libc β}
    {post : Except Panic β → List Extent → Prop} {granted : List Extent}
    (rest : ∀ self, (next self).wp (vmKernel ok) anyQuery post granted) :
    (juliusMachTaskSelf.bind next).wp (vmKernel ok) anyQuery post granted := by
  refine (Program.wp_ask_of_still vmKernel_still _ _ _).mpr ⟨trivial, ?_⟩
  rintro self t rfl
  exact rest self

/-- A request for a region is refused, or answered by a fresh region. -/
theorem wp_vmKernel_vmAllocate {next : KernReturn × Word → Libc β}
    {post : Except Panic β → List Extent → Prop} {granted : List Extent}
    {task : MachPort} {addr size : Word} {flags : BitVec 32}
    (refused : ∀ kr out, kr ≠ kernSuccess →
      (next (kr, out)).wp (vmKernel ok) anyQuery post granted)
    (mapped : ∀ base : Word, ok ⟨base.toNat, size.toNat⟩ →
      (∀ r ∈ granted, r.Apart ⟨base.toNat, size.toNat⟩) →
      (next (kernSuccess, base)).wp (vmKernel ok) anyQuery post
        (granted ++ [⟨base.toNat, size.toNat⟩])) :
    ((juliusVmAllocate task addr size flags).bind next).wp (vmKernel ok) anyQuery post granted := by
  refine (Program.wp_ask_of_still vmKernel_still _ _ _).mpr ⟨trivial, ?_⟩
  intro answer t answered
  cases answered with
  | refused failed => exact refused _ _ failed
  | mapped valid fresh => exact mapped _ valid fresh

end

/-- `julius_mem_init` takes a fresh region into use, or panics. -/
theorem wp_juliusMemInit_outcome {ok : Extent → Prop} (granted : List Extent) :
    juliusMemInit.wp (vmKernel ok) anyQuery
      (fun outcome after => match outcome with
        | .ok h => ∃ base : Word, ok ⟨base.toNat, heapInitialSize.toNat⟩ ∧
            (∀ r ∈ granted, r.Apart ⟨base.toNat, heapInitialSize.toNat⟩) ∧
            h = ⟨base, base + heapInitialSize, base⟩ ∧
            after = granted ++ [⟨base.toNat, heapInitialSize.toNat⟩]
        | .error reason => reason = ⟨"mem_init: mach_vm_allocate failed"⟩ ∧ after = granted)
      granted := by
  unfold juliusMemInit
  simp only [Program.bind_eq, Program.pure_eq]
  refine wp_vmKernel_taskSelf (fun self => wp_vmKernel_vmAllocate ?_ ?_)
  · intro kr out failed
    rw [if_pos failed, Program.wp_bind]
    exact wp_vmKernel_panic _ ⟨rfl, rfl⟩
  · intro base valid fresh
    rw [if_neg (fun failed => failed rfl)]
    refine wp_vmKernel_write (juliusPuts_asks _) (fun _ => ?_)
    refine wp_vmKernel_write (juliusPutHex_asks _) (fun _ => ?_)
    refine wp_vmKernel_write (juliusPuts_asks _) (fun _ => ?_)
    exact ⟨base, valid, fresh, rfl, rfl⟩

/-- The size of the region that `julius_malloc` asks for when `size` bytes do not fit. -/
def mallocExtend (size : Word) : Word := if size < heapInitialSize then heapInitialSize else size * 2

/-- What the body of `julius_malloc` can do: bump the pointer, fail, or take a fresh
region into use. The sums are those of the machine. -/
inductive BumpOutcome (ok : Extent → Prop) (h : Heap) (granted : List Extent) (n : Word) :
    Word → Heap → List Extent → Prop
  | within (room : ¬ h.heapEnd < h.heapPtr + align n heapAlign) :
      BumpOutcome ok h granted n h.heapPtr
        { h with heapPtr := h.heapPtr + align n heapAlign } granted
  | refused (full : h.heapEnd < h.heapPtr + align n heapAlign) :
      BumpOutcome ok h granted n null h granted
  | mapped {base : Word} (full : h.heapEnd < h.heapPtr + align n heapAlign)
      (valid : ok ⟨base.toNat, (mallocExtend (align n heapAlign)).toNat⟩)
      (fresh : ∀ r ∈ granted, r.Apart ⟨base.toNat, (mallocExtend (align n heapAlign)).toNat⟩) :
      BumpOutcome ok h granted n base
        { h with heapEnd := base + mallocExtend (align n heapAlign),
                 heapPtr := base + align n heapAlign }
        (granted ++ [⟨base.toNat, (mallocExtend (align n heapAlign)).toNat⟩])

theorem wp_mallocBump_outcome {ok : Extent → Prop} (h : Heap) (granted : List Extent) (n : Word) :
    (mallocBump h n).wp (vmKernel ok) anyQuery
      (fun outcome after => match outcome with
        | .ok (p, h') => BumpOutcome ok h granted n p h' after
        | .error _ => False)
      granted := by
  unfold mallocBump
  simp only [Program.bind_eq, Program.pure_eq]
  split
  · rename_i full
    refine wp_vmKernel_taskSelf (fun self => wp_vmKernel_vmAllocate ?_ ?_)
    · intro kr out failed
      rw [if_pos failed]
      exact .refused full
    · intro base valid fresh
      rw [if_neg (fun failed => failed rfl)]
      exact .mapped full valid fresh
  · rename_i room
    exact .within room

/-- Only admissible regions are ever granted, whatever runs. -/
theorem wp_granted_ok {ok : Extent → Prop} {α : Type} (program : Libc α) (granted : List Extent)
    (admissible : ∀ r ∈ granted, ok r) :
    program.wp (vmKernel ok) anyQuery (fun _ after => ∀ r ∈ after, ok r) granted := by
  refine Program.wp_of_preserved (I := fun granted => ∀ r ∈ granted, ok r)
    (fun s t moved => absurd moved (vmKernel_still s t)) ?_ program granted admissible
  intro s q answer t answered held
  cases q with
  | vmAllocate task addr size flags =>
      cases answered with
      | refused failed => exact held
      | mapped valid fresh =>
          intro r member
          rcases List.mem_append.mp member with old | new
          · exact held r old
          · exact List.mem_singleton.mp new ▸ valid
  | _ => exact Eq.symm answered ▸ held

/-- The globals represent the room of the arena. The abandoned tails of earlier
regions are in no global. -/
structure Heap.Tracks (ok : Extent → Prop) (h : Heap) (A : Arena) : Prop where
  ptr : h.heapPtr.toNat = A.room.start
  limit : h.heapEnd.toNat = A.room.limit
  below : A.room.limit ≤ 2 ^ 47
  aligned : (∀ r, ok r → 16 ∣ r.start) → 16 ∣ A.room.start
  mapped : h.heapBase ≠ null → A.Mapped

theorem Heap.unmapped_tracks (ok : Extent → Prop) : Heap.unmapped.Tracks ok Arena.empty where
  ptr := rfl
  limit := rfl
  below := Nat.zero_le _
  aligned _ := ⟨0, rfl⟩
  mapped nonnull := absurd rfl nonnull

/-- What `julius_mem_init` leaves: a fresh region in use, with all blocks kept. -/
def Initialised (ok : Extent → Prop) (A : Arena) (h : Heap) (granted : List Extent) : Prop :=
  ∃ B : Arena, B.granted = granted ∧ B.blocks = A.blocks ∧ h.Tracks ok B ∧ B.Mapped ∧
    ∃ region, granted = A.granted ++ [region]

/-- The outcome of a request for `n` bytes: no pointer and no new block, or a
pointer to a new block of `n` bytes. -/
def Served (ok : Extent → Prop) (A : Arena) (n : Nat) (p : Word) (h : Heap)
    (granted : List Extent) : Prop :=
  ∃ B : Arena, B.granted = granted ∧ h.Tracks ok B ∧ A.granted <+: granted ∧
    ((p = null ∧ B.blocks = A.blocks) ∨
      (p ≠ null ∧ B.blocks = A.blocks ++ [⟨p.toNat, n⟩] ∧
        ((∀ r, ok r → 16 ∣ r.start) → 16 ∣ p.toNat)))

section

variable {ok : Extent → Prop} (below : ∀ r, ok r → BelowUserLimit r)
include below

/-- A fresh region of `extend` bytes at `base`, taken into use up to `used`. -/
theorem Heap.tracks_grant (A : Arena) (base : Word) (extend : Word)
    (valid : ok ⟨base.toNat, extend.toNat⟩)
    (fresh : ∀ r ∈ A.granted, r.Apart ⟨base.toNat, extend.toNat⟩) (heapBase : Word) :
    (Heap.mk heapBase (base + extend) base).Tracks ok (A.grant _ fresh) where
  ptr := rfl
  limit := by
    have bound : base.toNat + extend.toNat ≤ 2 ^ 47 := below _ valid
    show (base + extend).toNat = base.toNat + extend.toNat
    rw [BitVec.toNat_add]
    omega
  below := below _ valid
  aligned regions := regions _ valid
  mapped _ := A.grant_mapped _ fresh

theorem wp_juliusMemInit (A : Arena) :
    juliusMemInit.wp (vmKernel ok) anyQuery
      (fun outcome granted => match outcome with
        | .ok h => Initialised ok A h granted
        | .error reason =>
            reason = ⟨"mem_init: mach_vm_allocate failed"⟩ ∧ granted = A.granted)
      A.granted := by
  refine Program.wp_mono (wp_juliusMemInit_outcome A.granted) (fun _ _ _ => trivial) ?_
  intro outcome granted reached
  cases outcome with
  | error reason => exact reached
  | ok h =>
      obtain ⟨base, valid, fresh, rfl, rfl⟩ := reached
      exact ⟨A.grant _ fresh, rfl, rfl, Heap.tracks_grant below A _ _ valid fresh _,
        A.grant_mapped _ fresh, _, rfl⟩

theorem wp_mallocEnter (A : Arena) (h : Heap) (tracks : h.Tracks ok A) :
    (mallocEnter h).wp (vmKernel ok) anyQuery
      (fun outcome granted => match outcome with
        | .ok h' => ∃ B : Arena, B.granted = granted ∧ B.blocks = A.blocks ∧ h'.Tracks ok B ∧
            B.Mapped ∧ A.granted <+: granted ∧
            (h.heapBase = null → ∃ region, granted = A.granted ++ [region])
        | .error reason => h.heapBase = null ∧
            reason = ⟨"mem_init: mach_vm_allocate failed"⟩ ∧ granted = A.granted)
      A.granted := by
  unfold mallocEnter
  split
  · rename_i uninitialised
    refine Program.wp_mono (wp_juliusMemInit below A) (fun _ _ _ => trivial) ?_
    intro outcome granted reached
    cases outcome with
    | ok h' =>
        obtain ⟨B, same, blocks, tracks, mapped, region, grew⟩ := reached
        exact ⟨B, same, blocks, tracks, mapped, grew ▸ List.prefix_append _ _,
          fun _ => ⟨region, grew⟩⟩
    | error reason => exact ⟨uninitialised, reached⟩
  · rename_i initialised
    exact ⟨A, rfl, rfl, tracks, tracks.mapped initialised, List.prefix_rfl, fun none => absurd none initialised⟩

omit below in
/-- Handing out `n` bytes of a room that has space for them, rounded up. -/
theorem served_carve (A : Arena) (h : Heap) (n : Word) (tracks : h.Tracks ok A)
    (mapped : A.Mapped) (used : Word) (rounded : used.toNat = (n.toNat + 15) / 16 * 16)
    (fits : used.toNat ≤ A.room.size) (heapBase : Word) :
    Served ok A n.toNat h.heapPtr ⟨heapBase, h.heapEnd, h.heapPtr + used⟩ A.granted := by
  have covers : n.toNat ≤ used.toNat := by omega
  have room := tracks.below
  have next : (h.heapPtr + used).toNat = A.room.start + used.toNat := by
    rw [BitVec.toNat_add, tracks.ptr]
    unfold Extent.limit at room
    omega
  have aligned : (∀ r, ok r → 16 ∣ r.start) → 16 ∣ A.room.start + used.toNat := by
    intro regions
    exact Nat.dvd_add (tracks.aligned regions) (rounded ▸ Nat.dvd_mul_left _ _)
  have limit : h.heapEnd.toNat = A.room.start + used.toNat + (A.room.size - used.toNat) := by
    rw [tracks.limit]
    unfold Extent.limit
    omega
  by_cases isNull : h.heapPtr = null
  · exact ⟨A.skip used.toNat fits, rfl, ⟨next, limit, by rw [← tracks.limit, limit] at room; exact room,
      aligned, fun _ => A.skip_mapped _ fits mapped⟩, List.prefix_rfl, Or.inl ⟨isNull, rfl⟩⟩
  · refine ⟨A.carve n.toNat used.toNat mapped covers fits, rfl,
      ⟨next, limit, by rw [← tracks.limit, limit] at room; exact room, aligned,
        fun _ => A.carve_mapped _ _ mapped covers fits⟩, List.prefix_rfl, Or.inr ⟨isNull, ?_, ?_⟩⟩
    · rw [tracks.ptr]
      rfl
    · rw [tracks.ptr]
      exact tracks.aligned

/-- The requests for which no computation of `julius_malloc` wraps. -/
def Moderate (n : Nat) : Prop := n ≤ 2 ^ 62

theorem wp_mallocBump (A : Arena) (h : Heap) (n : Word) (tracks : h.Tracks ok A)
    (mapped : A.Mapped) (moderate : Moderate n.toNat) :
    (mallocBump h n).wp (vmKernel ok) anyQuery
      (fun outcome granted => match outcome with
        | .ok (p, h') => Served ok A n.toNat p h' granted
        | .error _ => False)
      A.granted := by
  unfold Moderate at moderate
  have rounded : (align n heapAlign).toNat = (n.toNat + 15) / 16 * 16 :=
    align_sixteen_toNat n (by omega)
  have initial : heapInitialSize.toNat = 2 ^ 20 := rfl
  have ptr := tracks.ptr
  have limit := tracks.limit
  have room := tracks.below
  unfold Extent.limit at limit room
  have sum : (h.heapPtr + align n heapAlign).toNat =
      A.room.start + (align n heapAlign).toNat := by
    rw [BitVec.toNat_add, ptr]
    omega
  refine Program.wp_mono (wp_mallocBump_outcome h A.granted n) (fun _ _ _ => trivial) ?_
  intro outcome granted reached
  cases outcome with
  | error reason => exact reached.elim
  | ok result =>
      obtain ⟨p, h'⟩ := result
      cases reached with
      | within fits =>
          refine served_carve A h n tracks mapped _ rounded ?_ _
          rw [BitVec.lt_def, sum, limit] at fits
          omega
      | refused full => exact ⟨A, rfl, tracks, List.prefix_rfl, Or.inl ⟨rfl, rfl⟩⟩
      | mapped full valid fresh =>
          have grant := Heap.tracks_grant below A p _ valid fresh h.heapBase
          have covers : (align n heapAlign).toNat ≤ (mallocExtend (align n heapAlign)).toNat := by
            unfold mallocExtend
            split
            · rename_i small
              exact Nat.le_of_lt small
            · have double : (2 : Word).toNat = 2 := rfl
              rw [BitVec.toNat_mul, double]
              omega
          obtain ⟨B, same, tracked, kept, handed⟩ :=
            served_carve _ _ n grant (A.grant_mapped _ fresh) _ rounded covers h.heapBase
          exact ⟨B, same, tracked, (List.prefix_append _ _).trans kept, handed⟩

theorem wp_juliusMalloc (A : Arena) (h : Heap) (n : Word) (tracks : h.Tracks ok A)
    (moderate : Moderate n.toNat) :
    (juliusMalloc h n).wp (vmKernel ok) anyQuery
      (fun outcome granted => match outcome with
        | .ok (p, h') => Served ok A n.toNat p h' granted ∧
            (h.heapBase = null → A.granted ≠ granted)
        | .error reason => h.heapBase = null ∧
            reason = ⟨"mem_init: mach_vm_allocate failed"⟩ ∧ granted = A.granted)
      A.granted := by
  unfold juliusMalloc
  simp only [Program.bind_eq]
  rw [Program.wp_bind]
  refine Program.wp_mono (wp_mallocEnter below A h tracks) (fun _ _ _ => trivial) ?_
  intro outcome granted entered
  cases outcome with
  | error reason => exact entered
  | ok h' =>
      obtain ⟨B, rfl, blocks, tracks', mapped, kept, grew⟩ := entered
      refine Program.wp_mono (wp_mallocBump below B h' n tracks' mapped moderate)
        (fun _ _ _ => trivial) ?_
      intro outcome granted served
      cases outcome with
      | error reason => exact served.elim
      | ok result =>
          obtain ⟨C, same, tracked, extended, handed⟩ := served
          refine ⟨⟨C, same, tracked, kept.trans extended, blocks ▸ handed⟩, ?_⟩
          intro uninitialised unchanged
          obtain ⟨region, grown⟩ := grew uninitialised
          have length := extended.length_le
          simp only [grown, ← unchanged, List.length_append, List.length_singleton] at length
          omega

/-- `julius_calloc` serves the exact product and zeroes no more than the block. -/
theorem wp_juliusCalloc (A : Arena) (h : Heap) (m : Memory) (nmemb size : Word)
    (tracks : h.Tracks ok A) (moderate : Moderate (nmemb.toNat * size.toNat)) :
    (juliusCalloc h m nmemb size).wp (vmKernel ok) anyQuery
      (fun outcome granted => match outcome with
        | .ok (p, h', m') => Served ok A (nmemb.toNat * size.toNat) p h' granted ∧
            (h.heapBase = null → A.granted ≠ granted) ∧
            m' = if p ≠ null then juliusMemset m p 0 (nmemb * size) else m
        | .error reason => h.heapBase = null ∧
            reason = ⟨"mem_init: mach_vm_allocate failed"⟩ ∧ granted = A.granted)
      A.granted := by
  have product : (nmemb * size).toNat = nmemb.toNat * size.toNat := by
    unfold Moderate at moderate
    rw [BitVec.toNat_mul]
    omega
  unfold juliusCalloc
  simp only [Program.bind_eq, Program.pure_eq]
  rw [Program.wp_bind]
  refine Program.wp_mono (wp_juliusMalloc below A h (nmemb * size) tracks (product ▸ moderate))
    (fun _ _ _ => trivial) ?_
  intro outcome granted reached
  cases outcome with
  | error reason => exact reached
  | ok result => exact ⟨product ▸ reached.1, reached.2, rfl⟩

end

end Julius
