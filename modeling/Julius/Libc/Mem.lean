import Julius.Libc.Io

set_option autoImplicit false

/- libc/src/mem.c: the bump-pointer heap and the memory primitives. -/
namespace Julius

open Interact (Program)

def heapInitialSize : Word := 1 * 1024 * 1024

def heapAlign : Word := 16

/-- The three globals of the heap. -/
structure Heap where
  heapBase : Word
  heapEnd : Word
  heapPtr : Word
  deriving DecidableEq, Repr

/-- The globals before any call: `NULL`. -/
def Heap.unmapped : Heap := ⟨null, null, null⟩

def juliusVmAllocate (task : MachPort) (addr size : Word) (flags : BitVec 32) :
    Libc (KernReturn × Word) :=
  Program.query (Trap.vmAllocate task addr size flags)

def juliusMemInit : Libc Heap := do
  let self ← juliusMachTaskSelf
  let (kr, addr) ← juliusVmAllocate self 0 heapInitialSize vmFlagsAnywhere
  if kr ≠ kernSuccess then
    juliusPanic "mem_init: mach_vm_allocate failed"
  let _ ← juliusPuts "mem: heap initialised at "
  juliusPutHex addr
  let _ ← juliusPuts ", size 1 MiB\n"
  return { heapBase := addr, heapPtr := addr, heapEnd := addr + heapInitialSize }

/-- `if (!heap_base) julius_mem_init();` -/
def mallocEnter (h : Heap) : Libc Heap :=
  if h.heapBase = null then juliusMemInit else return h

/-- The rest of `julius_malloc`, once the heap is there. -/
def mallocBump (h : Heap) (size : Word) : Libc (Word × Heap) := do
  let size := align size heapAlign
  if h.heapEnd < h.heapPtr + size then
    let extend := if size < heapInitialSize then heapInitialSize else size * 2
    let self ← juliusMachTaskSelf
    let (kr, addr) ← juliusVmAllocate self 0 extend vmFlagsAnywhere
    if kr ≠ kernSuccess then
      return (null, h)
    -- `heap_base` keeps naming the first region
    return (addr, { h with heapEnd := addr + extend, heapPtr := addr + size })
  return (h.heapPtr, { h with heapPtr := h.heapPtr + size })

def juliusMalloc (h : Heap) (size : Word) : Libc (Word × Heap) := do
  let h ← mallocEnter h
  mallocBump h size

/-- A bump allocator: `free` is a no-op. -/
def juliusFree (h : Heap) (_ptr : Word) : Libc Heap := return h

/-- `while (n--) *d++ = (char)c;` -/
def memsetLoop (c : Byte) : Nat → Word → Memory → Memory
  | 0, _, m => m
  | n + 1, d, m => memsetLoop c n (d + 1) (Function.update m d c)

def juliusMemset (m : Memory) (dst : Word) (c : BitVec 32) (n : Word) : Memory :=
  memsetLoop (c.setWidth 8) n.toNat dst m

/-- `while (n--) *d++ = *s++;` -/
def memcpyLoop : Nat → Word → Word → Memory → Memory
  | 0, _, _, m => m
  | n + 1, d, s, m => memcpyLoop n (d + 1) (s + 1) (Function.update m d (m s))

def juliusMemcpy (m : Memory) (dst src n : Word) : Memory := memcpyLoop n.toNat dst src m

/-- `while (n--) { if (*p != *q) return (int)*p - (int)*q; p++; q++; }` -/
def memcmpLoop (m : Memory) : Nat → Word → Word → Int
  | 0, _, _ => 0
  | n + 1, p, q =>
      if m p ≠ m q then ((m p).toNat : Int) - ((m q).toNat : Int)
      else memcmpLoop m n (p + 1) (q + 1)

def juliusMemcmp (m : Memory) (a b n : Word) : Int := memcmpLoop m n.toNat a b

def juliusCalloc (h : Heap) (m : Memory) (nmemb size : Word) : Libc (Word × Heap × Memory) := do
  let total := nmemb * size
  let (p, h) ← juliusMalloc h total
  let m := if p ≠ null then juliusMemset m p 0 total else m
  return (p, h, m)

end Julius
