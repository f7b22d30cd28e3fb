import Julius.Lib.Arena
import Julius.Libc.Mem

set_option autoImplicit false

/- What the byte loops of mem.c do to a flat memory. -/
namespace Julius

/-- The byte at a numeric address. -/
def Memory.peek (m : Memory) (address : Nat) : Byte := m (BitVec.ofNat 64 address)

/-- The bytes of an extent, in address order. -/
def Memory.contents (m : Memory) (e : Extent) : List Byte :=
  (List.range e.size).map (fun i => m.peek (e.start + i))

theorem Memory.peek_toNat (m : Memory) (address : Word) : m.peek address.toNat = m address := by
  simp only [peek, BitVec.ofNat_toNat, BitVec.setWidth_eq]

theorem Memory.peek_update (m : Memory) (address : Word) (byte : Byte) (a : Nat)
    (inside : a < 2 ^ 64) :
    Memory.peek (Function.update m address byte) a =
      if a = address.toNat then byte else m.peek a := by
  have same : BitVec.ofNat 64 a = address ↔ a = address.toNat := by
    rw [← BitVec.toNat_inj, BitVec.toNat_ofNat, Nat.mod_eq_of_lt inside]
  simp only [peek, Function.update_apply, same]

@[simp] theorem Memory.contents_length (m : Memory) (e : Extent) :
    (m.contents e).length = e.size := by
  simp [contents]

theorem Memory.contents_getElem? (m : Memory) (e : Extent) (i : Nat) :
    (m.contents e)[i]? = if i < e.size then some (m.peek (e.start + i)) else none := by
  by_cases inside : i < e.size <;> simp [contents, inside]

theorem Memory.contents_congr {m m' : Memory} {e : Extent}
    (same : ∀ a, e.start ≤ a → a < e.limit → m'.peek a = m.peek a) :
    m'.contents e = m.contents e := by
  apply List.map_congr_left
  intro i member
  have inside := List.mem_range.mp member
  exact same _ (Nat.le_add_right _ _) (by unfold Extent.limit; omega)

theorem Memory.peek_add (m : Memory) (address : Word) (i : Nat) :
    m.peek (address.toNat + i) = m (address + BitVec.ofNat 64 i) := by
  simp only [peek, BitVec.ofNat_add, BitVec.ofNat_toNat, BitVec.setWidth_eq]

/-- Behind the end of the address space the bytes go on at its beginning. -/
theorem Memory.contents_succ (m : Memory) (address : Word) (n : Nat) :
    m.contents ⟨address.toNat, n + 1⟩ = m address :: m.contents ⟨(address + 1).toNat, n⟩ := by
  unfold contents
  simp only [List.range_succ_eq_map, List.map_cons, List.map_map, Nat.add_zero, peek_toNat]
  refine congrArg (m address :: ·) (List.map_congr_left fun i _ => ?_)
  rw [Function.comp_apply, peek_add, peek_add, next_add]

/-- A part of an extent has that part of its bytes. -/
theorem Memory.contents_slice (m : Memory) (e : Extent) (offset n : Nat)
    (inside : offset + n ≤ e.size) :
    ((m.contents e).drop offset).take n = m.contents ⟨e.start + offset, n⟩ := by
  apply List.ext_getElem?
  intro i
  rw [List.getElem?_take, List.getElem?_drop, contents_getElem?, contents_getElem?]
  by_cases within : i < n
  · rw [if_pos within, if_pos (by omega), if_pos within, Nat.add_assoc]
  · rw [if_neg within, if_neg within]

/-- `m'` is `m` with the bytes `new` written from `address` on, and nothing else changed. -/
def Writes (m m' : Memory) (address : Nat) (new : List Byte) : Prop :=
  ∀ a, a < 2 ^ 64 →
    m'.peek a = if address ≤ a ∧ a < address + new.length then new.getD (a - address) 0 else m.peek a

theorem Writes.empty (m : Memory) (address : Nat) : Writes m m address [] := by
  intro a _
  rw [if_neg]
  simp only [List.length_nil]
  omega

/-- One byte stored, then the rest. -/
theorem Writes.cons {m m' : Memory} {address : Word} {byte : Byte} {rest : List Byte}
    (fits : address.toNat + (rest.length + 1) ≤ 2 ^ 64)
    (written : Writes (Function.update m address byte) m' (address + 1).toNat rest) :
    Writes m m' address.toNat (byte :: rest) := by
  intro a inside
  have stored := written a inside
  rw [Memory.peek_update m address byte a inside] at stored
  rw [stored]
  cases rest with
  | nil =>
      simp only [List.length_cons, List.length_nil]
      by_cases first : a = address.toNat
      · rw [if_neg (by omega), if_pos first, if_pos (by omega), first, Nat.sub_self]
        rfl
      · rw [if_neg (by omega), if_neg first, if_neg (by omega)]
  | cons next more =>
      simp only [List.length_cons] at fits ⊢
      rw [succ_toNat address (by omega)]
      by_cases first : a = address.toNat
      · rw [if_neg (by omega), if_pos first, if_pos (by omega), first, Nat.sub_self]
        rfl
      · by_cases later : address.toNat + 1 ≤ a ∧ a < address.toNat + 1 + (more.length + 1)
        · rw [if_pos later, if_pos (by omega),
            show a - address.toNat = (a - (address.toNat + 1)) + 1 by omega]
          rfl
        · rw [if_neg later, if_neg first, if_neg (by omega)]

theorem Writes.outside {m m' : Memory} {address : Nat} {new : List Byte}
    (written : Writes m m' address new) (a : Nat) (inside : a < 2 ^ 64)
    (outside : a < address ∨ address + new.length ≤ a) : m'.peek a = m.peek a := by
  rw [written a inside, if_neg (by omega)]

/-- An extent apart from the written one keeps its bytes. -/
theorem Writes.contents_frame {m m' : Memory} {address : Nat} {new : List Byte}
    (written : Writes m m' address new) (e : Extent) (bound : e.limit ≤ 2 ^ 64)
    (apart : e.Apart ⟨address, new.length⟩) : m'.contents e = m.contents e := by
  apply Memory.contents_congr
  intro a lower upper
  simp only [Extent.Apart, Extent.limit_mk] at apart
  exact written.outside a (by omega) (by omega)

/-- `new` in place of as many bytes of `old`, from `offset` on. -/
def overwrite (old : List Byte) (offset : Nat) (new : List Byte) : List Byte :=
  old.take offset ++ new ++ old.drop (offset + new.length)

/-- A write inside an extent overwrites that part of its bytes. -/
theorem Writes.contents_overwrite {m m' : Memory} {new : List Byte} (e : Extent) (offset : Nat)
    (written : Writes m m' (e.start + offset) new) (bound : e.limit ≤ 2 ^ 64)
    (inside : offset + new.length ≤ e.size) :
    m'.contents e = overwrite (m.contents e) offset new := by
  unfold Extent.limit at bound
  have front : ((m.contents e).take offset).length = offset := by
    rw [List.length_take, Memory.contents_length]
    omega
  apply List.ext_getElem?
  intro i
  rw [Memory.contents_getElem?]
  unfold overwrite
  by_cases within : i < e.size
  · rw [if_pos within, written _ (by omega)]
    by_cases before : i < offset
    · rw [if_neg (by omega), List.append_assoc, List.getElem?_append_left (by omega),
        List.getElem?_take, if_pos before, Memory.contents_getElem?, if_pos within]
    · by_cases covered : i < offset + new.length
      · rw [if_pos (by omega), List.append_assoc, List.getElem?_append_right (by omega), front,
          List.getElem?_append_left (by omega), List.getElem?_eq_getElem (by omega),
          List.getD_eq_getElem?_getD, List.getElem?_eq_getElem (by omega), Option.getD_some]
        congr 2
        omega
      · rw [if_neg (by omega), List.getElem?_append_right (by simp only [List.length_append]; omega),
          List.length_append, front, List.getElem?_drop, Memory.contents_getElem?,
          if_pos (by omega)]
        congr 3
        omega
  · rw [if_neg within, eq_comm, List.getElem?_eq_none]
    simp only [List.length_append, List.length_drop, front, Memory.contents_length]
    omega

/-- Writing all of an extent leaves exactly the bytes written. -/
theorem Writes.contents_all {m m' : Memory} {new : List Byte} (e : Extent)
    (written : Writes m m' e.start new) (bound : e.limit ≤ 2 ^ 64) (sized : new.length = e.size) :
    m'.contents e = new := by
  rw [Writes.contents_overwrite e 0 written bound (by omega)]
  simp [overwrite, sized]

theorem memsetLoop_writes (c : Byte) (n : Nat) (dst : Word) (m : Memory)
    (fits : dst.toNat + n ≤ 2 ^ 64) :
    Writes m (memsetLoop c n dst m) dst.toNat (List.replicate n c) := by
  induction n generalizing dst m with
  | zero => exact Writes.empty m _
  | succ n ih =>
      refine Writes.cons (by simpa using fits) ?_
      by_cases last : n = 0
      · subst last
        exact Writes.empty _ _
      · apply ih
        rw [succ_toNat dst (by omega)]
        omega

theorem juliusMemset_writes (m : Memory) (dst : Word) (c : BitVec 32) (n : Word)
    (fits : dst.toNat + n.toNat ≤ 2 ^ 64) :
    Writes m (juliusMemset m dst c n) dst.toNat (List.replicate n.toNat (c.setWidth 8)) :=
  memsetLoop_writes _ _ _ _ fits

section

variable {m : Memory} {dst src : Word}

/-- The turns of the copy loop, with the last one apart. -/
theorem memcpyLoop_succ (n : Nat) (dst src : Word) (m : Memory) :
    memcpyLoop (n + 1) dst src m =
      Function.update (memcpyLoop n dst src m) (dst + BitVec.ofNat 64 n)
        (memcpyLoop n dst src m (src + BitVec.ofNat 64 n)) := by
  induction n generalizing dst src m with
  | zero => rw [BitVec.add_zero, BitVec.add_zero]; rfl
  | succ n ih =>
      have later := ih (dst + 1) (src + 1) (Function.update m dst (m src))
      rw [next_add, next_add] at later
      exact later

theorem memcpyLoop_outside {n : Nat} {a : Word}
    (outside : ∀ i < n, a ≠ dst + BitVec.ofNat 64 i) : memcpyLoop n dst src m a = m a := by
  induction n with
  | zero => rfl
  | succ n ih =>
      rw [memcpyLoop_succ, Function.update_of_ne (outside n (Nat.lt_succ_self n))]
      exact ih (fun i before => outside i (by omega))

theorem memcpyLoop_frame {n : Nat} (fits : dst.toNat + n ≤ 2 ^ 64) {a : Word}
    (outside : a.toNat < dst.toNat ∨ dst.toNat + n ≤ a.toNat) :
    memcpyLoop n dst src m a = m a := by
  apply memcpyLoop_outside
  intro i before same
  have address := congrArg BitVec.toNat same
  rw [offset_toNat dst i (by omega)] at address
  omega

/-- A byte that was stored stays: the loop comes to each address once. -/
theorem memcpyLoop_stored {n i : Nat} (before : i < n) (bound : n ≤ 2 ^ 64) :
    memcpyLoop n dst src m (dst + BitVec.ofNat 64 i) =
      memcpyLoop i dst src m (src + BitVec.ofNat 64 i) := by
  induction n with
  | zero => exact absurd before (Nat.not_lt_zero i)
  | succ n ih =>
      rw [memcpyLoop_succ]
      rcases Nat.lt_succ_iff_lt_or_eq.mp before with earlier | rfl
      · rw [Function.update_of_ne (offset_ne dst earlier (by omega))]
        exact ih earlier (by omega)
      · rw [Function.update_self]

/-- As long as the destination has not reached it, the byte read is the original one. -/
theorem memcpyLoop_unread {i : Nat} (dstFits : dst.toNat + i ≤ 2 ^ 64)
    (srcFits : src.toNat + i < 2 ^ 64)
    (forward : dst.toNat ≤ src.toNat ∨ src.toNat + i < dst.toNat) :
    memcpyLoop i dst src m (src + BitVec.ofNat 64 i) = m (src + BitVec.ofNat 64 i) := by
  apply memcpyLoop_frame dstFits
  rw [offset_toNat src i srcFits]
  omega

/-- Copying forward is exact unless the destination begins inside the source,
behind its first byte: no byte is overwritten before it is read. -/
theorem memcpyLoop_writes (n : Nat) (dst src : Word) (m : Memory)
    (dstFits : dst.toNat + n ≤ 2 ^ 64) (srcFits : src.toNat + n ≤ 2 ^ 64)
    (forward : dst.toNat ≤ src.toNat ∨ src.toNat + n ≤ dst.toNat) :
    Writes m (memcpyLoop n dst src m) dst.toNat (m.contents ⟨src.toNat, n⟩) := by
  intro a inside
  rw [m.contents_length]
  by_cases within : dst.toNat ≤ a ∧ a < dst.toNat + n
  · have copied : (memcpyLoop n dst src m).peek (dst.toNat + (a - dst.toNat)) =
        m.peek (src.toNat + (a - dst.toNat)) := by
      rw [Memory.peek_add, Memory.peek_add, memcpyLoop_stored (by omega) (by omega),
        memcpyLoop_unread (by omega) (by omega) (by omega)]
    rw [Nat.add_sub_cancel' within.1] at copied
    rw [if_pos within, List.getD_eq_getElem?_getD, m.contents_getElem?,
      if_pos (by dsimp only; omega), Option.getD_some, copied]
  · rw [if_neg within]
    apply memcpyLoop_frame dstFits
    rw [BitVec.toNat_ofNat, Nat.mod_eq_of_lt inside]
    omega

end

theorem juliusMemcpy_writes (m : Memory) (dst src n : Word)
    (dstFits : dst.toNat + n.toNat ≤ 2 ^ 64) (srcFits : src.toNat + n.toNat ≤ 2 ^ 64)
    (forward : dst.toNat ≤ src.toNat ∨ src.toNat + n.toNat ≤ dst.toNat) :
    Writes m (juliusMemcpy m dst src n) dst.toNat (m.contents ⟨src.toNat, n.toNat⟩) :=
  memcpyLoop_writes _ _ _ _ dstFits srcFits forward

/-- The difference of the first two bytes that differ, and zero if none do. -/
def compareBytes : List Byte → List Byte → Int
  | p :: ps, q :: qs => if p ≠ q then (p.toNat : Int) - (q.toNat : Int) else compareBytes ps qs
  | _, _ => 0

theorem compareBytes_differ {c d : Byte} (differ : c ≠ d) (left right : List Byte) :
    compareBytes (c :: left) (d :: right) = (c.toNat : Int) - (d.toNat : Int) := if_pos differ

theorem compareBytes_same (c : Byte) (left right : List Byte) :
    compareBytes (c :: left) (c :: right) = compareBytes left right :=
  if_neg (fun differ => differ rfl)

theorem compareBytes_swap (left right : List Byte) :
    compareBytes right left = -compareBytes left right := by
  induction left generalizing right with
  | nil => cases right <;> rfl
  | cons c left ih =>
      cases right with
      | nil => rfl
      | cons d right =>
          by_cases same : c = d
          · rw [same, compareBytes_same, compareBytes_same, ih]
          · rw [compareBytes_differ same, compareBytes_differ (Ne.symm same), Int.neg_sub]

theorem memcmpLoop_eq (m : Memory) (n : Nat) (p q : Word) :
    memcmpLoop m n p q =
      compareBytes (m.contents ⟨p.toNat, n⟩) (m.contents ⟨q.toNat, n⟩) := by
  induction n generalizing p q with
  | zero => rfl
  | succ n ih =>
      rw [m.contents_succ p n, m.contents_succ q n]
      simp only [memcmpLoop, compareBytes]
      split
      · rfl
      · exact ih (p + 1) (q + 1)

theorem juliusMemcmp_eq (m : Memory) (a b n : Word) :
    juliusMemcmp m a b n =
      compareBytes (m.contents ⟨a.toNat, n.toNat⟩) (m.contents ⟨b.toNat, n.toNat⟩) :=
  memcmpLoop_eq m n.toNat a b

end Julius
