import Julius.Libc.Strings

set_option autoImplicit false

/- `julius_memcpy` and `julius_strcpy` between ranges that may overlap. Both copy forward,
byte by byte, so that what a turn reads may have been written by an earlier one. -/
namespace Julius

section

variable {m : Memory} {dst src : Word}

/-- With the destination `k` bytes ahead, the loop reads the first `k` bytes over and over,
also once it has come round the address space. -/
theorem memcpyLoop_periodic {k : Nat} (ahead : dst = src + BitVec.ofNat 64 k) (positive : 0 < k)
    (bound : k < 2 ^ 64) (j : Nat) :
    memcpyLoop j dst src m (src + BitVec.ofNat 64 j) = m (src + BitVec.ofNat 64 (j % k)) := by
  induction j generalizing dst src m with
  | zero => rw [Nat.zero_mod]; rfl
  | succ j ih =>
      have still : dst + 1 = src + 1 + BitVec.ofNat 64 k := by
        rw [ahead, add_next, next_add]
      have later := @ih (Function.update m dst (m src)) (dst + 1) (src + 1) still
      rw [next_add, next_add] at later
      refine Eq.trans later ?_
      have inside := Nat.mod_lt j positive
      by_cases last : j % k + 1 = k
      · -- the byte stored in the first turn
        have whole : (j + 1) % k = 0 := by rw [← Nat.mod_add_mod, last, Nat.mod_self]
        rw [last, ← ahead, Function.update_self, whole, BitVec.add_zero]
      · have next : (j + 1) % k = j % k + 1 := by
          rw [← Nat.mod_add_mod, Nat.mod_eq_of_lt (by omega)]
        rw [next, ahead, Function.update_of_ne (offset_ne src (by omega) bound)]

/-- The destination of a copy upwards, from its distance. -/
theorem ahead_of_lt (lower : src.toNat < dst.toNat) :
    dst = src + BitVec.ofNat 64 (dst.toNat - src.toNat) := by
  have bound := dst.isLt
  apply BitVec.eq_of_toNat_eq
  rw [offset_toNat src _ (by omega)]
  omega

end

/-- `julius_memcpy` touches nothing but its destination. It copies exactly unless the
destination begins inside the source, behind its first byte: then the bytes up to there are
repeated all over it. -/
theorem juliusMemcpy_overlap (m : Memory) (dst src n : Word)
    (dstFits : dst.toNat + n.toNat ≤ 2 ^ 64) (srcFits : src.toNat + n.toNat ≤ 2 ^ 64) :
    (∀ a : Word, a.toNat < dst.toNat ∨ dst.toNat + n.toNat ≤ a.toNat →
      juliusMemcpy m dst src n a = m a) ∧
    (dst.toNat ≤ src.toNat ∨ src.toNat + n.toNat ≤ dst.toNat → ∀ i < n.toNat,
      juliusMemcpy m dst src n (dst + BitVec.ofNat 64 i) = m (src + BitVec.ofNat 64 i)) ∧
    (src.toNat < dst.toNat → dst.toNat < src.toNat + n.toNat → ∀ i < n.toNat,
      juliusMemcpy m dst src n (dst + BitVec.ofNat 64 i) =
        m (src + BitVec.ofNat 64 (i % (dst.toNat - src.toNat)))) := by
  unfold juliusMemcpy
  have bound := Nat.le_of_lt n.isLt
  refine ⟨?_, ?_, ?_⟩
  · exact fun a outside => memcpyLoop_frame dstFits outside
  · intro forward i before
    rw [memcpyLoop_stored before bound]
    exact memcpyLoop_unread (by omega) (by omega) (by omega)
  · intro lower upper i before
    rw [memcpyLoop_stored before bound]
    exact memcpyLoop_periodic (ahead_of_lt lower) (by omega) (by omega) i

/-- Five bytes moved up by two. -/
theorem juliusMemcpy_overlap_two :
    let m : Memory := fun address => ([1, 2, 3, 4, 5, 6, 7, 8] : List Byte)[address.toNat]?.getD 0
    let copied := juliusMemcpy m 2 0 5
    (∀ i < 5, copied (2 + BitVec.ofNat 64 i) = m (BitVec.ofNat 64 (i % 2))) ∧ copied 7 = 8 := by
  intro m copied
  obtain ⟨outside, _, repeated⟩ := juliusMemcpy_overlap m 2 0 5 (by decide) (by decide)
  refine ⟨fun i before => ?_, outside 7 (by decide)⟩
  exact (repeated (by decide) (by decide) i before).trans (congrArg m (BitVec.zero_add _))

/-- The variables of `julius_strcpy` after `j` turns. -/
def strcpyState (dst src : Word) (m : Memory) (j : Nat) : Word × Word × Memory :=
  (dst + BitVec.ofNat 64 j, src + BitVec.ofNat 64 j, memcpyLoop j dst src m)

section

variable {char : PlainChar} {m : Memory} {dst src : Word}

theorem strcpyTurn_again {j : Nat}
    (nonzero : memcpyLoop j dst src m (src + BitVec.ofNat 64 j) ≠ 0) :
    strcpyTurn char (strcpyState dst src m j) = .again (strcpyState dst src m (j + 1)) := by
  refine (if_pos (fun zero => nonzero (char.promote_eq_zero.mp zero))).trans ?_
  unfold strcpyState
  rw [add_next, add_next, memcpyLoop_succ]

theorem strcpyTurn_done {j : Nat} (zero : memcpyLoop j dst src m (src + BitVec.ofNat 64 j) = 0) :
    strcpyTurn char (strcpyState dst src m j) = .done (memcpyLoop (j + 1) dst src m) := by
  refine (if_neg (fun more => more (char.promote_eq_zero.mpr zero))).trans ?_
  rw [memcpyLoop_succ]

theorem strcpyState_zero : (dst, src, m) = strcpyState dst src m 0 := by
  unfold strcpyState
  rw [BitVec.add_zero, BitVec.add_zero]
  rfl

variable {s : CString}

/-- Where no byte of the string is overwritten before it is read, the copy is that of
`julius_memcpy`, NUL included. -/
theorem strcpy_ends (spelled : m.Spells src s)
    (unread : ∀ j ≤ s.bytes.length,
      memcpyLoop j dst src m (src + BitVec.ofNat 64 j) = m (src + BitVec.ofNat 64 j)) :
    Returns (juliusStrcpy char m dst src) (dst, memcpyLoop (s.bytes.length + 1) dst src m) := by
  have ended : Loop.Ends (strcpyTurn char) (dst, src, m)
      (memcpyLoop (s.bytes.length + 1) dst src m) := by
    rw [strcpyState_zero]
    refine Loop.Ends.along (fun j before => strcpyTurn_again ?_) (strcpyTurn_done ?_)
    · rw [unread j (Nat.le_of_lt before)]
      exact spelled.byte before
    · rw [unread _ (Nat.le_refl _)]
      exact spelled.nul
  obtain ⟨turns, run⟩ := ended
  exact ⟨turns, congrArg (Option.map (fun m => (dst, m))) run⟩

/-- With the destination at most `L` bytes ahead the NUL is gone before it is read: the loop
reads nonzero bytes of the string for ever. -/
theorem strcpy_never {k : Nat} (spelled : m.Spells src s) (ahead : dst = src + BitVec.ofNat 64 k)
    (positive : 0 < k) (overlaps : k ≤ s.bytes.length) (result : Word × Memory) :
    ¬ Returns (juliusStrcpy char m dst src) result := by
  have bound := spelled.length_lt
  have along : ∀ j, strcpyTurn char (strcpyState dst src m j) =
      .again (strcpyState dst src m (j + 1)) := by
    intro j
    have inside := Nat.mod_lt j positive
    apply strcpyTurn_again
    rw [memcpyLoop_periodic ahead positive (by omega)]
    exact spelled.byte (by omega)
  rintro ⟨turns, returned⟩
  obtain ⟨after, run, _⟩ := Option.map_eq_some_iff.mp returned
  rw [strcpyState_zero] at run
  exact Loop.not_ends along ⟨turns, run⟩

theorem juliusStrcpy_unique {first second : Word × Memory}
    (one : Returns (juliusStrcpy char m dst src) first)
    (other : Returns (juliusStrcpy char m dst src) second) : first = second := by
  obtain ⟨turns, returned⟩ := one
  obtain ⟨more, again⟩ := other
  obtain ⟨after, run, rfl⟩ := Option.map_eq_some_iff.mp returned
  obtain ⟨same, rerun, rfl⟩ := Option.map_eq_some_iff.mp again
  exact congrArg (fun m => (dst, m)) (Loop.Ends.unique ⟨turns, run⟩ ⟨more, rerun⟩)

/-- A copy of a string spells it. -/
theorem spells_copy {after : Memory} {p : Word} (spelled : m.Spells src s)
    (copied : ∀ i ≤ s.bytes.length, after (p + BitVec.ofNat 64 i) = m (src + BitVec.ofNat 64 i)) :
    after.Spells p s := by
  refine Eq.trans ?_ spelled
  apply List.ext_getElem?
  intro i
  rw [Memory.contents_getElem?, Memory.contents_getElem?]
  by_cases inside : i < s.bytes.length + 1
  · rw [if_pos inside, if_pos inside, Memory.peek_add, Memory.peek_add,
      copied i (Nat.le_of_lt_succ inside)]
  · rw [if_neg inside, if_neg inside]

end

/-- `julius_strcpy` ends exactly if its destination is not behind the beginning of the string
and before its end. Then it has copied the string, and nothing else has changed. -/
theorem juliusStrcpy_overlap (char : PlainChar) (m : Memory) (dst src : Word) (s : CString)
    (spelled : m.Spells src s) (srcFits : src.toNat + s.bytes.length < 2 ^ 64)
    (dstFits : dst.toNat + s.bytes.length < 2 ^ 64) :
    ((∃ result, Returns (juliusStrcpy char m dst src) result) ↔
      ¬ (src.toNat < dst.toNat ∧ dst.toNat ≤ src.toNat + s.bytes.length)) ∧
    ∀ result after, Returns (juliusStrcpy char m dst src) (result, after) →
      result = dst ∧
      (∀ i ≤ s.bytes.length, after (dst + BitVec.ofNat 64 i) = m (src + BitVec.ofNat 64 i)) ∧
      (∀ a : Word, a.toNat < dst.toNat ∨ dst.toNat + s.bytes.length < a.toNat → after a = m a) ∧
      Returns (juliusStrlen char after dst) (BitVec.ofNat 64 s.bytes.length) ∧
      (dst.toNat + s.bytes.length < src.toNat ∨ src.toNat + s.bytes.length < dst.toNat →
        Returns (juliusStrcmp char after dst src) 0) := by
  by_cases overlaps : src.toNat < dst.toNat ∧ dst.toNat ≤ src.toNat + s.bytes.length
  · have never := @strcpy_never char m dst src s _ spelled (ahead_of_lt overlaps.1) (by omega)
      (by omega)
    refine ⟨⟨?_, fun apart => absurd overlaps apart⟩, ?_⟩
    · rintro ⟨result, returned⟩
      exact absurd returned (never result)
    · intro result after returned
      exact absurd returned (never (result, after))
  · have ended := @strcpy_ends char m dst src s spelled
      (fun j within => memcpyLoop_unread (by omega) (by omega) (by omega))
    refine ⟨⟨fun _ => overlaps, fun _ => ⟨_, ended⟩⟩, ?_⟩
    intro result after returned
    obtain ⟨rfl, rfl⟩ := Prod.mk.inj (juliusStrcpy_unique ended returned)
    have copied : ∀ i ≤ s.bytes.length,
        memcpyLoop (s.bytes.length + 1) dst src m (dst + BitVec.ofNat 64 i) =
          m (src + BitVec.ofNat 64 i) := by
      intro i within
      rw [memcpyLoop_stored (Nat.lt_succ_of_le within) (by omega)]
      exact memcpyLoop_unread (by omega) (by omega) (by omega)
    have outside : ∀ a : Word, a.toNat < dst.toNat ∨ dst.toNat + s.bytes.length < a.toNat →
        memcpyLoop (s.bytes.length + 1) dst src m a = m a :=
      fun a apart => memcpyLoop_frame (by omega) (by omega)
    have target := spells_copy spelled copied
    refine ⟨rfl, copied, outside, juliusStrlen_returns char target, ?_⟩
    intro apart
    have source : (memcpyLoop (s.bytes.length + 1) dst src m).Spells src s := by
      refine spells_copy spelled (fun i within => outside _ ?_)
      rw [offset_toNat src i (by omega)]
      omega
    rw [← (compare_eq_zero_iff s.nonzero s.nonzero).mpr rfl]
    exact juliusStrcmp_returns char target source

/-- A string moved down by one, and not up by one. -/
theorem juliusStrcpy_overlap_one :
    let m : Memory := fun address => ([9, 1, 2, 0, 9] : List Byte)[address.toNat]?.getD 0
    (∃ result, Returns (juliusStrcpy .unsigned m 0 1) result) ∧
      ¬ ∃ result, Returns (juliusStrcpy .unsigned m 2 1) result := by
  intro m
  let s : CString := ⟨[1, 2], by decide⟩
  have spelled : m.Spells 1 s := by
    unfold Memory.Spells
    decide
  have down := juliusStrcpy_overlap .unsigned m 0 1 s spelled (by decide) (by decide)
  have upwards := juliusStrcpy_overlap .unsigned m 2 1 s spelled (by decide) (by decide)
  exact ⟨down.1.mpr (by decide), fun returned => absurd (upwards.1.mp returned) (by decide)⟩

end Julius
