import Mathlib.Order.CompletePartialOrder
import Mathlib.Order.Interval.Set.Disjoint
import Mathlib.Order.Interval.Set.LinearOrder

set_option autoImplicit false

/- Extents of an address space and the arena of a bump allocator over them. -/

/-- A run of `size` consecutive addresses. -/
@[ext] structure Extent where
  start : Nat
  size : Nat
  deriving DecidableEq, Repr

namespace Extent

def limit (e : Extent) : Nat := e.start + e.size

/-- The addresses of an extent. -/
def cells (e : Extent) : Set Nat := Set.Ico e.start e.limit

def Within (inner outer : Extent) : Prop :=
  outer.start ≤ inner.start ∧ inner.limit ≤ outer.limit

/-- One extent ends before the other begins. -/
def Apart (a b : Extent) : Prop := a.limit ≤ b.start ∨ b.limit ≤ a.start

instance (a b : Extent) : Decidable (a.Apart b) :=
  inferInstanceAs (Decidable (a.limit ≤ b.start ∨ b.limit ≤ a.start))

@[simp] theorem limit_mk (start size : Nat) : (Extent.mk start size).limit = start + size := rfl

theorem Apart.symm {a b : Extent} (apart : a.Apart b) : b.Apart a := Or.symm apart

theorem Within.trans {a b c : Extent} (inner : a.Within b) (outer : b.Within c) : a.Within c :=
  ⟨outer.1.trans inner.1, inner.2.trans outer.2⟩

theorem Apart.of_within {a b inner : Extent} (apart : a.Apart b) (within : inner.Within a) :
    inner.Apart b := by
  unfold Apart Within at *
  omega

theorem Apart.disjoint {a b : Extent} (apart : a.Apart b) : Disjoint a.cells b.cells := by
  rw [Set.disjoint_left]
  intro address left right
  have lower : a.start ≤ address ∧ address < a.limit := left
  have upper : b.start ≤ address ∧ address < b.limit := right
  unfold Apart at apart
  omega

/-- Non-empty extents that share no address are ordered. -/
theorem apart_of_disjoint {a b : Extent} (disjoint : Disjoint a.cells b.cells)
    (left : 0 < a.size) (right : 0 < b.size) : a.Apart b := by
  rw [Set.disjoint_left] at disjoint
  unfold Apart
  by_contra overlap
  have shared : max a.start b.start ∈ a.cells ∧ max a.start b.start ∈ b.cells := by
    simp only [cells, Set.mem_Ico, limit] at overlap ⊢
    omega
  exact disjoint shared.1 shared.2

end Extent

/-- The state of a bump allocator in the abstract: the regions it was granted,
the blocks it has handed out and the room left in the region in use. Every
block lies in a region and shares no address with another block or the room. -/
structure Arena where
  granted : List Extent
  blocks : List Extent
  room : Extent
  blocks_within : ∀ b ∈ blocks, ∃ r ∈ granted, b.Within r
  blocks_apart : blocks.Pairwise Extent.Apart
  room_apart : ∀ b ∈ blocks, b.Apart room

namespace Arena

/-- The room is part of a granted region, so that blocks may be carved from it. -/
def Mapped (A : Arena) : Prop := ∃ r ∈ A.granted, A.room.Within r

def empty : Arena where
  granted := []
  blocks := []
  room := ⟨0, 0⟩
  blocks_within := by simp
  blocks_apart := .nil
  room_apart := by simp

/-- Take a fresh region into use; the room left in the old one is abandoned. -/
def grant (A : Arena) (region : Extent) (fresh : ∀ r ∈ A.granted, r.Apart region) : Arena where
  granted := A.granted ++ [region]
  blocks := A.blocks
  room := region
  blocks_within := by
    intro b member
    obtain ⟨r, held, within⟩ := A.blocks_within b member
    exact ⟨r, List.mem_append_left _ held, within⟩
  blocks_apart := A.blocks_apart
  room_apart := by
    intro b member
    obtain ⟨r, held, within⟩ := A.blocks_within b member
    exact (fresh r held).of_within within

/-- Drop the first `used` addresses of the room without handing them out. -/
def skip (A : Arena) (used : Nat) (fits : used ≤ A.room.size) : Arena where
  granted := A.granted
  blocks := A.blocks
  room := ⟨A.room.start + used, A.room.size - used⟩
  blocks_within := A.blocks_within
  blocks_apart := A.blocks_apart
  room_apart := by
    intro b member
    have apart := A.room_apart b member
    unfold Extent.Apart Extent.limit at *
    dsimp only
    omega

/-- Hand out `size` addresses at the start of the room and drop `used` of it. -/
def carve (A : Arena) (size used : Nat) (mapped : A.Mapped) (covers : size ≤ used)
    (fits : used ≤ A.room.size) : Arena where
  granted := A.granted
  blocks := A.blocks ++ [⟨A.room.start, size⟩]
  room := ⟨A.room.start + used, A.room.size - used⟩
  blocks_within := by
    intro b member
    rcases List.mem_append.mp member with old | new
    · exact A.blocks_within b old
    · obtain rfl := List.mem_singleton.mp new
      obtain ⟨r, held, lower, upper⟩ := mapped
      refine ⟨r, held, lower, ?_⟩
      unfold Extent.limit at *
      dsimp only
      omega
  blocks_apart := by
    rw [List.pairwise_append]
    refine ⟨A.blocks_apart, List.pairwise_singleton _ _, ?_⟩
    intro b member c new
    obtain rfl := List.mem_singleton.mp new
    have apart := A.room_apart b member
    unfold Extent.Apart Extent.limit at *
    dsimp only
    omega
  room_apart := by
    intro b member
    rcases List.mem_append.mp member with old | new
    · exact (A.skip used fits).room_apart b old
    · obtain rfl := List.mem_singleton.mp new
      unfold Extent.Apart Extent.limit
      dsimp only
      omega

theorem grant_mapped (A : Arena) (region : Extent) (fresh : ∀ r ∈ A.granted, r.Apart region) :
    (A.grant region fresh).Mapped :=
  ⟨region, List.mem_append_right _ (List.mem_singleton.mpr rfl), Nat.le_refl _, Nat.le_refl _⟩

theorem skip_mapped (A : Arena) (used : Nat) (fits : used ≤ A.room.size) (mapped : A.Mapped) :
    (A.skip used fits).Mapped := by
  obtain ⟨r, held, lower, upper⟩ := mapped
  refine ⟨r, held, ?_, ?_⟩
  · exact lower.trans (Nat.le_add_right _ _)
  · unfold Extent.limit at *
    dsimp only [skip]
    omega

theorem carve_mapped (A : Arena) (size used : Nat) (mapped : A.Mapped) (covers : size ≤ used)
    (fits : used ≤ A.room.size) : (A.carve size used mapped covers fits).Mapped :=
  A.skip_mapped used fits mapped

end Arena
