import Julius.Lib.System
import Julius.Libc.HeapArena

set_option autoImplicit false

/- The heap interface over whole runs of calls. -/
namespace Julius

open Interact

/-- A call into the heap of mem.c. -/
inductive HeapCall
  | memInit
  | malloc (size : Word)
  | calloc (nmemb size : Word)
  | free (ptr : Word)
  deriving DecidableEq, Repr

namespace HeapCall

/-- The bytes a call asks for; the product is the exact one. -/
def requested : HeapCall → Nat
  | .malloc size => size.toNat
  | .calloc nmemb size => nmemb.toNat * size.toNat
  | _ => 0

/-- The call made on the globals and the memory; `p` is null where nothing is returned. -/
def run (h : Heap) (m : Memory) : HeapCall → Libc (Word × Heap × Memory)
  | .memInit => do
      let h ← juliusMemInit
      return (null, h, m)
  | .malloc size => do
      let (p, h) ← juliusMalloc h size
      return (p, h, m)
  | .calloc nmemb size => juliusCalloc h m nmemb size
  | .free ptr => do
      let h ← juliusFree h ptr
      return (null, h, m)

/-- What a call writes to memory when it returns the non-null pointer `p`. -/
def fill (m : Memory) (p : Word) : HeapCall → Memory
  | .calloc nmemb size => juliusMemset m p 0 (nmemb * size)
  | _ => m

/-- The calls that run `julius_mem_init`: the call itself, and the first allocation. -/
def Initialises (h : Heap) : HeapCall → Prop
  | .memInit => True
  | .malloc _ => h.heapBase = null
  | .calloc _ _ => h.heapBase = null
  | .free _ => False

end HeapCall

/-- A process between two calls, with what the kernel granted and what the
successful requests returned so far. -/
structure HeapSession where
  heap : Heap
  memory : Memory
  granted : List Extent
  returned : List Extent
  panicked : Option Panic

namespace HeapSession

def start (memory : Memory) : HeapSession := ⟨Heap.unmapped, memory, [], [], none⟩

/-- A non-null pointer is recorded with the bytes requested; a panic ends the run. -/
def after (s : HeapSession) (call : HeapCall) (granted : List Extent) :
    Except Panic (Word × Heap × Memory) → HeapSession
  | .ok (p, heap, memory) =>
      { heap, memory, granted, panicked := none,
        returned := if p = null then s.returned else s.returned ++ [⟨p.toNat, call.requested⟩] }
  | .error reason => { s with granted, panicked := some reason }

end HeapSession

/-- The heap interface in front of a kernel that grants regions meeting `ok`. -/
def heapApi (ok : Extent → Prop) : LTS HeapSession HeapCall where
  step s call t := s.panicked = none ∧ ∃ outcome granted,
    Exec (vmKernel ok) (call.run s.heap s.memory) s.granted outcome granted ∧
      t = s.after call granted outcome

/-- A region as the kernel grants it to julius-init: not at address zero,
sixteen-byte aligned and below `2^47`. -/
def UserRegion (region : Extent) : Prop :=
  region.start ≠ 0 ∧ 16 ∣ region.start ∧ BelowUserLimit region

instance : DecidablePred UserRegion := fun region =>
  inferInstanceAs (Decidable (region.start ≠ 0 ∧ 16 ∣ region.start ∧ BelowUserLimit region))

/-- One call against `shelfKernel`. -/
def HeapSession.call (ok : Extent → Prop) [DecidablePred ok] (s : HeapSession) (call : HeapCall) :
    HeapSession :=
  let (outcome, granted) := (call.run s.heap s.memory).runWith (shelfKernel ok) s.granted
  s.after call granted outcome

theorem HeapSession.call_step (ok : Extent → Prop) [DecidablePred ok] (s : HeapSession)
    (running : s.panicked = none) (call : HeapCall) : (heapApi ok).step s call (s.call ok call) :=
  ⟨running, _, _, Program.exec_runWith (shelfKernel_admitted ok) _ _, rfl⟩

/-- The calls made one after another against `shelfKernel`, up to a panic. -/
def HeapSession.calls (ok : Extent → Prop) [DecidablePred ok] (s : HeapSession) :
    List HeapCall → List (HeapCall × HeapSession)
  | [] => []
  | call :: rest =>
      (call, s.call ok call) ::
        if (s.call ok call).panicked = none then (s.call ok call).calls ok rest else []

theorem HeapSession.calls_isRun (ok : Extent → Prop) [DecidablePred ok] (s : HeapSession)
    (running : s.panicked = none) (calls : List HeapCall) :
    (heapApi ok).IsRun s (s.calls ok calls) := by
  induction calls generalizing s with
  | nil => trivial
  | cons call rest ih =>
      rw [HeapSession.calls]
      refine ⟨s.call_step ok running call, ?_⟩
      split
      · rename_i going
        exact ih _ going
      · trivial

/-- The recorded blocks are those of an arena which the globals represent. -/
def HeapSession.Laid (ok : Extent → Prop) (s : HeapSession) : Prop :=
  (∀ r ∈ s.granted, ok r) ∧
    ∃ A : Arena, A.granted = s.granted ∧ A.blocks = s.returned ∧ (s.heap.Tracks ok A) ∧
      ((∀ r, ok r → 16 ∣ r.start) → ∀ b ∈ A.blocks, 16 ∣ b.start)

theorem start_laid (ok : Extent → Prop) (memory : Memory) : (HeapSession.start memory).Laid ok :=
  ⟨fun _ member => absurd member List.not_mem_nil, Arena.empty, rfl, rfl,
    Heap.unmapped_tracks ok, fun _ _ member => absurd member List.not_mem_nil⟩

/-- What a call did: it panicked, returned nothing, or returned a new block. -/
inductive HeapSession.Effect (s : HeapSession) (call : HeapCall) : HeapSession → Prop
  | panicked {t : HeapSession} (reason : t.panicked = some ⟨"mem_init: mach_vm_allocate failed"⟩)
      (returned : t.returned = s.returned) (memory : t.memory = s.memory) : Effect s call t
  | nothing {t : HeapSession} (running : t.panicked = none) (returned : t.returned = s.returned)
      (memory : t.memory = s.memory) : Effect s call t
  | block {t : HeapSession} (p : Word) (running : t.panicked = none)
      (returned : t.returned = s.returned ++ [⟨p.toNat, call.requested⟩])
      (memory : t.memory = call.fill s.memory p) : Effect s call t

section

variable {ok : Extent → Prop} (below : ∀ r, ok r → BelowUserLimit r)
include below

/-- One call, whatever the kernel answers: it serves its request in the arena,
or it was an initialisation that was granted nothing. -/
theorem wp_heapCall (A : Arena) (h : Heap) (m : Memory) (call : HeapCall)
    (tracks : h.Tracks ok A) (moderate : Moderate call.requested) :
    (call.run h m).wp (vmKernel ok) anyQuery
      (fun outcome granted => match outcome with
        | .ok (p, h', m') => Served ok A call.requested p h' granted ∧
            (call.Initialises h → A.granted ≠ granted) ∧
            m' = if p = null then m else call.fill m p
        | .error reason => call.Initialises h ∧
            reason = ⟨"mem_init: mach_vm_allocate failed"⟩ ∧ granted = A.granted)
      A.granted := by
  cases call with
  | memInit =>
      unfold HeapCall.run
      simp only [Program.bind_eq, Program.pure_eq]
      rw [Program.wp_bind]
      refine Program.wp_mono (wp_juliusMemInit below A) (fun _ _ _ => trivial) ?_
      intro outcome granted reached
      cases outcome with
      | error reason => exact ⟨trivial, reached⟩
      | ok h' =>
          obtain ⟨B, same, blocks, tracked, mapped, region, grew⟩ := reached
          refine ⟨⟨B, same, tracked, grew ▸ List.prefix_append _ _, Or.inl ⟨rfl, blocks⟩⟩, ?_, rfl⟩
          intro _ unchanged
          have length := congrArg List.length (unchanged.trans grew)
          simp at length
  | malloc size =>
      unfold HeapCall.run
      simp only [Program.bind_eq, Program.pure_eq]
      rw [Program.wp_bind]
      refine Program.wp_mono (wp_juliusMalloc below A h size tracks moderate)
        (fun _ _ _ => trivial) ?_
      intro outcome granted reached
      cases outcome with
      | error reason => exact reached
      | ok result => exact ⟨reached.1, reached.2, (ite_self _).symm⟩
  | calloc nmemb size =>
      refine Program.wp_mono (wp_juliusCalloc below A h m nmemb size tracks moderate)
        (fun _ _ _ => trivial) ?_
      intro outcome granted reached
      cases outcome with
      | error reason => exact reached
      | ok result => exact ⟨reached.1, reached.2.1, reached.2.2.trans (ite_not _ _ _)⟩
  | free ptr =>
      exact ⟨⟨A, rfl, tracks, List.prefix_rfl, Or.inl ⟨rfl, rfl⟩⟩, fun none => none.elim, rfl⟩

/-- One step of a run keeps the session laid out in an arena, and panics exactly
when an initialisation is granted nothing. -/
theorem heapApi_step (s t : HeapSession) (call : HeapCall) (moderate : Moderate call.requested)
    (laid : s.Laid ok) (step : (heapApi ok).step s call t) :
    t.Laid ok ∧ s.Effect call t ∧ (t.panicked = some ⟨"mem_init: mach_vm_allocate failed"⟩ ↔
      call.Initialises s.heap ∧ t.granted = s.granted) := by
  obtain ⟨admissible, A, same, blocks, tracks, aligned⟩ := laid
  obtain ⟨_, outcome, granted, run, rfl⟩ := step
  have stillAdmissible := (wp_granted_ok _ s.granted admissible).exec run
  rw [← same] at run
  have reached := (wp_heapCall below A s.heap s.memory call tracks moderate).exec run
  cases outcome with
  | error reason =>
      obtain ⟨initialises, rfl, unchanged⟩ := reached
      refine ⟨⟨stillAdmissible, A, unchanged.symm, blocks, tracks, aligned⟩,
        .panicked rfl rfl rfl, ?_⟩
      simp only [HeapSession.after, true_iff]
      exact ⟨initialises, unchanged.trans same⟩
  | ok result =>
      obtain ⟨⟨B, same', tracked, kept, handed⟩, grew, memory⟩ := reached
      have noPanic : (s.after call granted (.ok result)).panicked =
          some ⟨"mem_init: mach_vm_allocate failed"⟩ ↔
            call.Initialises s.heap ∧ granted = s.granted := by
        simp only [HeapSession.after, reduceCtorEq, false_iff, not_and]
        intro initialises unchanged
        exact grew initialises (same.trans unchanged.symm)
      rcases handed with ⟨isNull, unchanged⟩ | ⟨nonnull, extended, block⟩
      · have returned : (s.after call granted (.ok result)).returned = s.returned := by
          simp only [HeapSession.after, isNull, ↓reduceIte]
        refine ⟨⟨stillAdmissible, B, same', ?_, tracked, unchanged ▸ aligned⟩,
          .nothing rfl returned (memory.trans (if_pos isNull)), noPanic⟩
        rw [returned, unchanged, blocks]
      · have returned : (s.after call granted (.ok result)).returned =
            s.returned ++ [⟨result.1.toNat, call.requested⟩] := by
          simp only [HeapSession.after, nonnull, ↓reduceIte]
        refine ⟨⟨stillAdmissible, B, same', ?_, tracked, ?_⟩,
          .block result.1 rfl returned (memory.trans (if_neg nonnull)), noPanic⟩
        · rw [returned, extended, blocks]
        · intro regions b member
          rw [extended] at member
          rcases List.mem_append.mp member with old | new
          · exact aligned regions b old
          · obtain rfl := List.mem_singleton.mp new
            exact block regions

end

/-- Over every run of calls, in any order and against any answers of the kernel:
a returned pointer is a multiple of sixteen, its block lies in one granted region,
no two returned blocks share an address, and a call panics exactly when it runs
`julius_mem_init` and is granted nothing; after a panic no call is made. -/
theorem heap_geometry (memory : Memory) (run : List (HeapCall × HeapSession))
    (valid : (heapApi UserRegion).IsRun (.start memory) run)
    (moderate : ∀ move ∈ run, move.1.requested ≤ 2 ^ 62) :
    let s := LTS.final (.start memory) run
    (∀ b ∈ s.returned, 16 ∣ b.start ∧ ∃ r ∈ s.granted, b.Within r) ∧
      s.returned.Pairwise (fun a b => Disjoint a.cells b.cells) ∧
      (∀ call t, call.requested ≤ 2 ^ 62 → (heapApi UserRegion).step s call t →
        (t.panicked = some ⟨"mem_init: mach_vm_allocate failed"⟩ ↔
          call.Initialises s.heap ∧ t.granted = s.granted)) ∧
      (s.panicked ≠ none → ∀ call t, ¬ (heapApi UserRegion).step s call t) := by
  have below : ∀ r, UserRegion r → BelowUserLimit r := fun r user => user.2.2
  intro s
  have laid : s.Laid UserRegion :=
    (valid.invariant (P := fun call : HeapCall => Moderate call.requested)
      (fun s call t moderate laid step => (heapApi_step below s t call moderate laid step).1)
      moderate (start_laid UserRegion memory)).2
  refine ⟨?_, ?_, ?_, ?_⟩
  · obtain ⟨_, A, same, blocks, _, aligned⟩ := laid
    intro b member
    rw [← blocks] at member
    rw [← same]
    exact ⟨aligned (fun r user => user.2.1) b member, A.blocks_within b member⟩
  · obtain ⟨_, A, _, blocks, _, _⟩ := laid
    rw [← blocks]
    exact A.blocks_apart.imp Extent.Apart.disjoint
  · intro call t moderate step
    exact (heapApi_step below s t call moderate laid step).2.2
  · rintro panicked call t ⟨running, _⟩
    exact panicked running

/-- Three blocks, the last one in a region of its own: 24 bytes, a cleared 3 by 8 and 2 MiB. -/
theorem heap_geometry_two_regions :
    let run := (HeapSession.start fun _ => 0xff).calls UserRegion
      [.malloc 24, .calloc 3 8, .malloc 0x200000, .memInit]
    let s := LTS.final (.start fun _ => 0xff) run
    s.returned = [⟨2 ^ 32, 24⟩, ⟨2 ^ 32 + 32, 24⟩, ⟨2 ^ 32 + 2 ^ 40, 0x200000⟩] ∧
      s.granted.length = 3 ∧ s.returned.Pairwise (fun a b => Disjoint a.cells b.cells) := by
  intro run s
  have geometry := heap_geometry (fun _ => 0xff) run
    (HeapSession.calls_isRun UserRegion _ rfl _) (by decide)
  exact ⟨by decide, by decide, geometry.2.1⟩

end Julius
