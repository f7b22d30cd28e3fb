import Julius.Libc.MemLoops
import Julius.Libc.HeapGeometry

set_option autoImplicit false

/- Programs over the heap: one flat memory against a store of separate arrays. -/
namespace Julius

open Interact

/-- One statement of a program over allocated blocks. Blocks are numbered in the
order of the successful allocations; a range is a block, an offset and a length. -/
inductive StoreOp
  | malloc (size : Word)
  | calloc (nmemb size : Word)
  | free (block : Nat)
  | memset (block offset : Nat) (c : BitVec 32) (n : Nat)
  | memcpy (dst dstOffset src srcOffset n : Nat)
  | memcmp (a aOffset b bOffset n : Nat)
  deriving DecidableEq, Repr

/-- The bytes a statement asks the heap for. -/
def StoreOp.requested : StoreOp → Nat
  | .malloc size => size.toNat
  | .calloc nmemb size => nmemb.toNat * size.toNat
  | _ => 0

def StoreOp.Allocates : StoreOp → Prop
  | .malloc _ => True
  | .calloc _ _ => True
  | _ => False

/-- What the program sees of a statement. -/
inductive StoreObs
  | allocated
  | refused
  | panicked
  | done
  | compared (value : Int)
  deriving DecidableEq, Repr

/-- The outcome of an allocation as the caller sees it. -/
def allocationObs (s t : HeapSession) : StoreObs :=
  if t.panicked ≠ none then .panicked
  else if t.returned.length = s.returned.length then .refused else .allocated

def HeapSession.store (s : HeapSession) (m : Memory) : HeapSession := { s with memory := m }

@[simp] theorem HeapSession.store_panicked (s : HeapSession) (m : Memory) :
    (s.store m).panicked = s.panicked := rfl

@[simp] theorem HeapSession.store_returned (s : HeapSession) (m : Memory) :
    (s.store m).returned = s.returned := rfl

/-- A statement over the flat memory, with the functions of mem.c. -/
inductive FlatStep (ok : Extent → Prop) : HeapSession → StoreOp × StoreObs → HeapSession → Prop
  | malloc {s t : HeapSession} {size : Word} (call : (heapApi ok).step s (.malloc size) t) :
      FlatStep ok s (.malloc size, allocationObs s t) t
  | calloc {s t : HeapSession} {nmemb size : Word}
      (call : (heapApi ok).step s (.calloc nmemb size) t) :
      FlatStep ok s (.calloc nmemb size, allocationObs s t) t
  | free {s t : HeapSession} {block : Nat} {e : Extent} (known : s.returned[block]? = some e)
      (call : (heapApi ok).step s (.free (BitVec.ofNat 64 e.start)) t) :
      FlatStep ok s (.free block, .done) t
  | memset {s : HeapSession} {block offset n : Nat} {c : BitVec 32} {e : Extent}
      (running : s.panicked = none) (known : s.returned[block]? = some e)
      (inside : offset + n ≤ e.size) :
      FlatStep ok s (.memset block offset c n, .done)
        (s.store (juliusMemset s.memory (BitVec.ofNat 64 (e.start + offset)) c
          (BitVec.ofNat 64 n)))
  | memcpy {s : HeapSession} {dst dstOffset src srcOffset n : Nat} {d e : Extent}
      (running : s.panicked = none) (dstKnown : s.returned[dst]? = some d)
      (srcKnown : s.returned[src]? = some e)
      (dstInside : dstOffset + n ≤ d.size) (srcInside : srcOffset + n ≤ e.size)
      (separate : Disjoint (Extent.mk (d.start + dstOffset) n).cells
        (Extent.mk (e.start + srcOffset) n).cells) :
      FlatStep ok s (.memcpy dst dstOffset src srcOffset n, .done)
        (s.store (juliusMemcpy s.memory (BitVec.ofNat 64 (d.start + dstOffset))
          (BitVec.ofNat 64 (e.start + srcOffset)) (BitVec.ofNat 64 n)))
  | memcmp {s : HeapSession} {a aOffset b bOffset n : Nat} {d e : Extent}
      (running : s.panicked = none) (aKnown : s.returned[a]? = some d)
      (bKnown : s.returned[b]? = some e)
      (aInside : aOffset + n ≤ d.size) (bInside : bOffset + n ≤ e.size) :
      FlatStep ok s (.memcmp a aOffset b bOffset n, .compared
        (juliusMemcmp s.memory (BitVec.ofNat 64 (d.start + aOffset))
          (BitVec.ofNat 64 (e.start + bOffset)) (BitVec.ofNat 64 n))) s

/-- The same statement over a store of separate byte arrays. The contents of a
fresh `malloc` block are left open; freeing changes nothing. -/
inductive StoreStep : List (List Byte) → StoreOp × StoreObs → List (List Byte) → Prop
  | malloc {store : List (List Byte)} {size : Word} {contents : List Byte}
      (sized : contents.length = size.toNat) :
      StoreStep store (.malloc size, .allocated) (store ++ [contents])
  | calloc {store : List (List Byte)} {nmemb size : Word} :
      StoreStep store (.calloc nmemb size, .allocated)
        (store ++ [List.replicate (nmemb.toNat * size.toNat) 0])
  | refused {store : List (List Byte)} {op : StoreOp} (request : op.Allocates) :
      StoreStep store (op, .refused) store
  | panicked {store : List (List Byte)} {op : StoreOp} (request : op.Allocates) :
      StoreStep store (op, .panicked) store
  | free {store : List (List Byte)} {block : Nat} : StoreStep store (.free block, .done) store
  | memset {store : List (List Byte)} {block offset n : Nat} {c : BitVec 32} {old : List Byte}
      (known : store[block]? = some old) (inside : offset + n ≤ old.length) :
      StoreStep store (.memset block offset c n, .done)
        (store.set block (overwrite old offset (List.replicate n (c.setWidth 8))))
  | memcpy {store : List (List Byte)} {dst dstOffset src srcOffset n : Nat} {old new : List Byte}
      (dstKnown : store[dst]? = some old) (srcKnown : store[src]? = some new)
      (dstInside : dstOffset + n ≤ old.length) (srcInside : srcOffset + n ≤ new.length) :
      StoreStep store (.memcpy dst dstOffset src srcOffset n, .done)
        (store.set dst (overwrite old dstOffset ((new.drop srcOffset).take n)))
  | memcmp {store : List (List Byte)} {a aOffset b bOffset n : Nat} {left right : List Byte}
      (aKnown : store[a]? = some left) (bKnown : store[b]? = some right)
      (aInside : aOffset + n ≤ left.length) (bInside : bOffset + n ≤ right.length) :
      StoreStep store (.memcmp a aOffset b bOffset n, .compared
        (compareBytes ((left.drop aOffset).take n) ((right.drop bOffset).take n))) store

def flatHeap (ok : Extent → Prop) : LTS HeapSession (StoreOp × StoreObs) := ⟨FlatStep ok⟩

def arrayStore : LTS (List (List Byte)) (StoreOp × StoreObs) := ⟨StoreStep⟩

/-- The array of every block, in the order of the allocations. -/
def HeapSession.arrays (s : HeapSession) : List (List Byte) := s.returned.map s.memory.contents

theorem HeapSession.arrays_getElem? {s : HeapSession} {block : Nat} {e : Extent}
    (known : s.returned[block]? = some e) : s.arrays[block]? = some (s.memory.contents e) := by
  rw [arrays, List.getElem?_map, known, Option.map_some]

/-- The frame of the store: a write inside one block changes its array and no other. -/
theorem arrays_write {blocks : List Extent} (apart : blocks.Pairwise Extent.Apart)
    (bounded : ∀ e ∈ blocks, e.limit ≤ 2 ^ 64) {m m' : Memory} {block offset : Nat} {e : Extent}
    {new : List Byte} (known : blocks[block]? = some e)
    (written : Writes m m' (e.start + offset) new) (inside : offset + new.length ≤ e.size) :
    blocks.map m'.contents =
      (blocks.map m.contents).set block (overwrite (m.contents e) offset new) := by
  obtain ⟨index, rfl⟩ := List.getElem?_eq_some_iff.mp known
  apply List.ext_getElem?
  intro i
  rw [List.getElem?_set, List.length_map]
  by_cases here : block = i
  · subst here
    rw [if_pos rfl, if_pos index, List.getElem?_map, known, Option.map_some]
    congr 1
    exact Writes.contents_overwrite _ offset written (bounded _ (List.getElem_mem index)) inside
  · rw [if_neg here, List.getElem?_map, List.getElem?_map]
    cases other : blocks[i]? with
    | none => rfl
    | some d =>
        obtain ⟨otherIndex, rfl⟩ := List.getElem?_eq_some_iff.mp other
        have separate : blocks[i].Apart blocks[block] := by
          rcases Nat.lt_or_gt_of_ne here with earlier | later
          · exact (List.pairwise_iff_getElem.mp apart _ _ index otherIndex earlier).symm
          · exact List.pairwise_iff_getElem.mp apart _ _ otherIndex index later
        have part : (Extent.mk (blocks[block].start + offset) new.length).Within blocks[block] := by
          unfold Extent.Within Extent.limit
          dsimp only
          omega
        rw [Option.map_some, Option.map_some, written.contents_frame blocks[i]
          (bounded _ (List.getElem_mem otherIndex)) (separate.symm.of_within part).symm]

section

variable {ok : Extent → Prop} (below : ∀ r, ok r → BelowUserLimit r)

theorem HeapSession.Laid.apart {s : HeapSession} (laid : s.Laid ok) :
    s.returned.Pairwise Extent.Apart := by
  obtain ⟨_, A, _, blocks, _⟩ := laid
  exact blocks ▸ A.blocks_apart

/-- An allocation appends the array of its block and leaves the others alone. -/
theorem arrays_block {s t : HeapSession} {block : Extent}
    (returned : t.returned = s.returned ++ [block])
    (untouched : ∀ e ∈ s.returned, t.memory.contents e = s.memory.contents e) :
    t.arrays = s.arrays ++ [t.memory.contents block] := by
  rw [HeapSession.arrays, returned, List.map_append, HeapSession.arrays,
    List.map_congr_left untouched]
  rfl

include below

theorem HeapSession.Laid.bounded {s : HeapSession} (laid : s.Laid ok) :
    ∀ e ∈ s.returned, e.limit ≤ 2 ^ 47 := by
  obtain ⟨admissible, A, same, blocks, _⟩ := laid
  intro e member
  obtain ⟨r, held, within⟩ := A.blocks_within e (blocks.symm ▸ member)
  exact within.2.trans (below r (admissible r (same ▸ held)))

/-- The bytes that `julius_calloc` clears are those of its own block. -/
theorem calloc_clears {s t : HeapSession} {nmemb size p : Word} (laid : t.Laid ok)
    (moderate : Moderate (nmemb.toNat * size.toNat))
    (returned : t.returned = s.returned ++ [⟨p.toNat, nmemb.toNat * size.toNat⟩])
    (memory : t.memory = juliusMemset s.memory p 0 (nmemb * size)) :
    t.arrays = s.arrays ++ [List.replicate (nmemb.toNat * size.toNat) 0] := by
  have bound : p.toNat + nmemb.toNat * size.toNat ≤ 2 ^ 47 :=
    laid.bounded below ⟨p.toNat, nmemb.toNat * size.toNat⟩ (by simp [returned])
  have product : (nmemb * size).toNat = nmemb.toNat * size.toNat := by
    unfold Moderate at moderate
    rw [BitVec.toNat_mul]
    omega
  have written := juliusMemset_writes s.memory p 0 (nmemb * size) (by omega)
  rw [← memory, product] at written
  have apart := laid.apart
  rw [returned, List.pairwise_append] at apart
  have untouched : ∀ e ∈ s.returned, t.memory.contents e = s.memory.contents e := by
    intro e member
    have limit := laid.bounded below e (by simp [returned, member])
    refine written.contents_frame e (by omega) ?_
    simpa using apart.2.2 e member _ (List.mem_singleton.mpr rfl)
  have cleared : t.memory.contents ⟨p.toNat, nmemb.toNat * size.toNat⟩ =
      List.replicate (nmemb.toNat * size.toNat) 0 :=
    Writes.contents_all _ written (by unfold Extent.limit; dsimp only; omega) (by simp)
  rw [← cleared]
  exact arrays_block returned untouched

/-- The abstract store of a session: one array for every block, equal to its bytes. -/
def Represents (ok : Extent → Prop) (s : HeapSession) (store : List (List Byte)) : Prop :=
  s.Laid ok ∧ store = s.arrays

/-- Every allocation is an allocation of the store, with the outcome the caller sees. -/
theorem allocation_forward {s t : HeapSession} (call : HeapCall) {op : StoreOp}
    (laid : s.Laid ok) (moderate : Moderate call.requested) (allocates : op.Allocates)
    (step : (heapApi ok).step s call t)
    (fresh : ∀ p, t.Laid ok → t.returned = s.returned ++ [⟨p.toNat, call.requested⟩] →
      t.memory = call.fill s.memory p → StoreStep s.arrays (op, .allocated) t.arrays) :
    ∃ store, StoreStep s.arrays (op, allocationObs s t) store ∧ Represents ok t store := by
  obtain ⟨laid', effect, _⟩ := heapApi_step below s t call moderate laid step
  refine ⟨t.arrays, ?_, laid', rfl⟩
  cases effect with
  | panicked reason returned memory =>
      have same : t.arrays = s.arrays := by rw [HeapSession.arrays, returned, memory]; rfl
      have seen : allocationObs s t = .panicked := by simp [allocationObs, reason]
      rw [seen, same]
      exact .panicked allocates
  | nothing running returned memory =>
      have same : t.arrays = s.arrays := by rw [HeapSession.arrays, returned, memory]; rfl
      have seen : allocationObs s t = .refused := by simp [allocationObs, running, returned]
      rw [seen, same]
      exact .refused allocates
  | block p running returned memory =>
      have seen : allocationObs s t = .allocated := by simp [allocationObs, running, returned]
      rw [seen]
      exact fresh p laid' returned memory

/-- The address of a range inside a block is the number the extent says. -/
theorem range_address {s : HeapSession} (laid : s.Laid ok) {block offset n : Nat} {e : Extent}
    (known : s.returned[block]? = some e) (inside : offset + n ≤ e.size) :
    (BitVec.ofNat 64 (e.start + offset)).toNat = e.start + offset ∧
      (BitVec.ofNat 64 n).toNat = n ∧ e.start + offset + n ≤ 2 ^ 47 := by
  have limit := laid.bounded below e (List.mem_of_getElem? known)
  unfold Extent.limit at limit
  simp only [BitVec.toNat_ofNat]
  omega

/-- One statement over the flat memory is the same statement over the store. -/
theorem flat_forward (s : HeapSession) (store : List (List Byte)) (label : StoreOp × StoreObs)
    (t : HeapSession) (moderate : Moderate label.1.requested) (related : Represents ok s store)
    (step : FlatStep ok s label t) :
    ∃ store', StoreStep store label store' ∧ Represents ok t store' := by
  obtain ⟨laid, rfl⟩ := related
  have bounded : ∀ e ∈ s.returned, e.limit ≤ 2 ^ 64 :=
    fun e member => (laid.bounded below e member).trans (by decide)
  cases step with
  | @malloc _ size call =>
      have allocates : StoreOp.Allocates (.malloc size) := trivial
      apply allocation_forward below (.malloc size) laid moderate allocates call
      intro p laid' returned memory
      rw [arrays_block returned (fun e _ => by rw [memory]; rfl)]
      exact .malloc (Memory.contents_length _ _)
  | @calloc _ nmemb size call =>
      have allocates : StoreOp.Allocates (.calloc nmemb size) := trivial
      apply allocation_forward below (.calloc nmemb size) laid moderate allocates call
      intro p laid' returned memory
      rw [calloc_clears below laid' moderate returned memory]
      exact .calloc
  | free known call =>
      obtain ⟨laid', effect, _⟩ := heapApi_step below s t _ (Nat.zero_le _) laid call
      refine ⟨s.arrays, .free, laid', ?_⟩
      obtain ⟨_, outcome, granted, run, rfl⟩ := call
      cases run
      rfl
  | @memset block offset n c e running known inside =>
      obtain ⟨address, count, fits⟩ := range_address below laid known inside
      have written := juliusMemset_writes s.memory (BitVec.ofNat 64 (e.start + offset)) c
        (BitVec.ofNat 64 n) (by omega)
      rw [address, count] at written
      refine ⟨_, .memset (HeapSession.arrays_getElem? known) (by simpa using inside), laid, ?_⟩
      exact (arrays_write laid.apart bounded known written (by simpa using inside)).symm
  | @memcpy dst dstOffset src srcOffset n d e running dstKnown srcKnown dstInside srcInside separate =>
      obtain ⟨dstAddress, count, dstFits⟩ := range_address below laid dstKnown dstInside
      obtain ⟨srcAddress, _, srcFits⟩ := range_address below laid srcKnown srcInside
      have forward : d.start + dstOffset ≤ e.start + srcOffset ∨
          e.start + srcOffset + n ≤ d.start + dstOffset := by
        by_cases empty : n = 0
        · omega
        · rcases Extent.apart_of_disjoint separate (Nat.pos_of_ne_zero empty)
            (Nat.pos_of_ne_zero empty) with before | after
          · rw [Extent.limit_mk] at before
            dsimp only at before
            omega
          · exact Or.inr after
      have written := juliusMemcpy_writes s.memory (BitVec.ofNat 64 (d.start + dstOffset))
        (BitVec.ofNat 64 (e.start + srcOffset)) (BitVec.ofNat 64 n) (by omega) (by omega)
        (by omega)
      rw [dstAddress, srcAddress, count] at written
      refine ⟨_, .memcpy (HeapSession.arrays_getElem? dstKnown)
        (HeapSession.arrays_getElem? srcKnown) (by simpa using dstInside)
        (by simpa using srcInside), laid, ?_⟩
      rw [Memory.contents_slice _ _ _ _ srcInside]
      exact (arrays_write laid.apart bounded dstKnown written (by simpa using dstInside)).symm
  | @memcmp a aOffset b bOffset n d e running aKnown bKnown aInside bInside =>
      obtain ⟨aAddress, count, aFits⟩ := range_address below laid aKnown aInside
      obtain ⟨bAddress, _, bFits⟩ := range_address below laid bKnown bInside
      rw [juliusMemcmp_eq, aAddress, bAddress, count,
        ← Memory.contents_slice _ _ _ _ aInside, ← Memory.contents_slice _ _ _ _ bInside]
      exact ⟨_, .memcmp (HeapSession.arrays_getElem? aKnown) (HeapSession.arrays_getElem? bKnown)
        (by simpa using aInside) (by simpa using bInside), laid, rfl⟩

end

/-- Every run of a program over the flat memory is followed, statement by
statement and observation by observation, by a run over a store of separate
arrays, in which every block's bytes equal its array after every statement. -/
theorem flatHeap_simulates (memory : Memory)
    (run : List ((StoreOp × StoreObs) × HeapSession))
    (valid : (flatHeap BelowUserLimit).IsRun (.start memory) run)
    (moderate : ∀ move ∈ run, move.1.1.requested ≤ 2 ^ 62) :
    ∃ storeRun, arrayStore.IsRun [] storeRun ∧
      List.Forall₂ (fun flat abstract => flat.1 = abstract.1 ∧
        abstract.2 = flat.2.returned.map flat.2.memory.contents) run storeRun := by
  obtain ⟨storeRun, storeValid, followed⟩ :=
    valid.simulate (A := arrayStore) (P := fun label : StoreOp × StoreObs => Moderate label.1.requested)
      (R := Represents BelowUserLimit)
      (fun s store label t moderate related step =>
        flat_forward (fun _ bounded => bounded) s store label t moderate related step)
      moderate ⟨start_laid _ memory, rfl⟩
  exact ⟨storeRun, storeValid, followed.imp (fun _ _ related => ⟨related.1, related.2.2⟩)⟩

/-- A pattern written to part of one block, copied into a cleared one and compared. -/
theorem flatHeap_simulates_copy :
    ∃ storeRun, arrayStore.IsRun [] storeRun ∧ storeRun.map Prod.fst =
      [(.malloc 16, .allocated), (.calloc 2 8, .allocated), (.memset 0 4 0x141 12, .done),
        (.memcpy 1 2 0 4 8, .done), (.memcmp 0 8 1 1 8, .compared 65)] := by
  let allocated := (HeapSession.start fun _ => 0xff).call BelowUserLimit (.malloc 16)
  let cleared := allocated.call BelowUserLimit (.calloc 2 8)
  let written := cleared.store
    (juliusMemset cleared.memory (BitVec.ofNat 64 (2 ^ 32 + 4)) 0x141 (BitVec.ofNat 64 12))
  let copied := written.store
    (juliusMemcpy written.memory (BitVec.ofNat 64 (2 ^ 32 + 16 + 2))
      (BitVec.ofNat 64 (2 ^ 32 + 4)) (BitVec.ofNat 64 8))
  -- What the run comes to is evaluated here, once, and cited below.
  have mallocDone : allocationObs (.start fun _ => 0xff) allocated = .allocated := by decide +kernel
  have callocDone : allocationObs allocated cleared = .allocated := by decide +kernel
  have live : allocated.panicked = none := by decide +kernel
  have clearedLive : cleared.panicked = none := by decide +kernel
  have writtenLive : written.panicked = none := (HeapSession.store_panicked _ _).trans clearedLive
  have copiedLive : copied.panicked = none := (HeapSession.store_panicked _ _).trans writtenLive
  have blocks : cleared.returned = [⟨2 ^ 32, 16⟩, ⟨2 ^ 32 + 16, 16⟩] := by decide +kernel
  have writtenBlocks : written.returned = _ := (HeapSession.store_returned _ _).trans blocks
  have copiedBlocks : copied.returned = _ := (HeapSession.store_returned _ _).trans writtenBlocks
  have differ : juliusMemcmp copied.memory (BitVec.ofNat 64 (2 ^ 32 + 8))
      (BitVec.ofNat 64 (2 ^ 32 + 16 + 1)) (BitVec.ofNat 64 8) = 65 := by decide +kernel
  have malloc : FlatStep BelowUserLimit (.start fun _ => 0xff) (.malloc 16, .allocated) allocated :=
    mallocDone ▸ .malloc (HeapSession.call_step BelowUserLimit _ rfl _)
  have calloc : FlatStep BelowUserLimit allocated (.calloc 2 8, .allocated) cleared :=
    callocDone ▸ .calloc (HeapSession.call_step BelowUserLimit _ live _)
  have memset : FlatStep BelowUserLimit cleared (.memset 0 4 0x141 12, .done) written :=
    .memset (e := ⟨2 ^ 32, 16⟩) clearedLive (by rw [blocks]; rfl) (by decide)
  have memcpy : FlatStep BelowUserLimit written (.memcpy 1 2 0 4 8, .done) copied :=
    .memcpy (d := ⟨2 ^ 32 + 16, 16⟩) (e := ⟨2 ^ 32, 16⟩) writtenLive (by rw [writtenBlocks]; rfl)
      (by rw [writtenBlocks]; rfl) (by decide) (by decide) (Extent.Apart.disjoint (by decide))
  have memcmp : FlatStep BelowUserLimit copied (.memcmp 0 8 1 1 8, .compared 65) copied :=
    differ ▸ .memcmp (d := ⟨2 ^ 32, 16⟩) (e := ⟨2 ^ 32 + 16, 16⟩) copiedLive
      (by rw [copiedBlocks]; rfl) (by rw [copiedBlocks]; rfl) (by decide) (by decide)
  have run : (flatHeap BelowUserLimit).IsRun (.start fun _ => 0xff)
      [((.malloc 16, .allocated), allocated), ((.calloc 2 8, .allocated), cleared),
        ((.memset 0 4 0x141 12, .done), written), ((.memcpy 1 2 0 4 8, .done), copied),
        ((.memcmp 0 8 1 1 8, .compared 65), copied)] :=
    ⟨malloc, calloc, memset, memcpy, memcmp, trivial⟩
  obtain ⟨storeRun, valid, followed⟩ := flatHeap_simulates (fun _ => 0xff) _ run (by decide)
  refine ⟨storeRun, valid, ?_⟩
  have labels := followed.imp (fun _ _ related => related.1)
  exact (List.forall₂_eq_eq_eq ▸ List.forall₂_map_left_iff.mpr
    (List.forall₂_map_right_iff.mpr labels) : _ = _).symm

end Julius
