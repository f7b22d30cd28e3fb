import Julius.Lib.Loop
import Julius.Libc.MemLoops

set_option autoImplicit false

/- The string functions of mem.c. None of them is told where its string ends, so that each
one is a loop that may go on for ever. -/
namespace Julius

/-- Whether plain `char` is a signed type. -/
inductive PlainChar
  | signed
  | unsigned
  deriving DecidableEq, Repr

/-- A `char` as the `int` it is promoted to. -/
def PlainChar.promote : PlainChar → Byte → Int
  | .signed, c => c.toInt
  | .unsigned, c => c.toNat

theorem PlainChar.promote_inj (char : PlainChar) {c d : Byte} :
    char.promote c = char.promote d ↔ c = d := by
  cases char with
  | signed => exact BitVec.toInt_inj
  | unsigned => exact Int.ofNat_inj.trans BitVec.toNat_inj

theorem PlainChar.promote_eq_zero (char : PlainChar) {c : Byte} : char.promote c = 0 ↔ c = 0 := by
  have zero : char.promote 0 = 0 := by cases char <;> rfl
  rw [← zero, char.promote_inj]

/-- `while (s[n]) n++;` -/
def strlenTurn (char : PlainChar) (m : Memory) (s n : Word) : Loop.Turn Word Word :=
  if char.promote (m (s + n)) ≠ 0 then .again (n + 1) else .done n

def juliusStrlen (char : PlainChar) (m : Memory) (s : Word) (turns : Nat) : Option Word :=
  Loop.run (strlenTurn char m s) turns 0

/-- `while (*a && *a == *b) { a++; b++; }`, and the return statement. -/
def strcmpTurn (char : PlainChar) (m : Memory) : Word × Word → Loop.Turn (Word × Word) Int
  | (a, b) =>
      if char.promote (m a) ≠ 0 ∧ char.promote (m a) = char.promote (m b) then .again (a + 1, b + 1)
      else .done (((m a).toNat : Int) - ((m b).toNat : Int))

def juliusStrcmp (char : PlainChar) (m : Memory) (a b : Word) (turns : Nat) : Option Int :=
  Loop.run (strcmpTurn char m) turns (a, b)

/-- `while ((*d++ = *src++));` -/
def strcpyTurn (char : PlainChar) : Word × Word × Memory → Loop.Turn (Word × Word × Memory) Memory
  | (d, src, m) =>
      let stored := Function.update m d (m src)
      if char.promote (m src) ≠ 0 then .again (d + 1, src + 1, stored) else .done stored

def juliusStrcpy (char : PlainChar) (m : Memory) (dst src : Word) (turns : Nat) :
    Option (Word × Memory) :=
  (Loop.run (strcpyTurn char) turns (dst, src, m)).map (fun m => (dst, m))

/-- The call comes back, with that result. -/
def Returns {ρ : Type} (call : Nat → Option ρ) (result : ρ) : Prop :=
  ∃ turns, call turns = some result

/-- The bytes of a C string, up to its NUL. -/
structure CString where
  bytes : List Byte
  nonzero : ∀ c ∈ bytes, c ≠ 0

/-- The string lies at `p`, with its NUL behind it. -/
def Memory.Spells (m : Memory) (p : Word) (s : CString) : Prop :=
  m.contents ⟨p.toNat, s.bytes.length + 1⟩ = s.bytes ++ [0]

section

variable {char : PlainChar} {m : Memory} {p q : Word} {a b : List Byte}

theorem spelled_nil (spelled : m.contents ⟨p.toNat, ([] : List Byte).length + 1⟩ = [] ++ [0]) :
    m p = 0 := by
  rw [List.length_nil, m.contents_succ] at spelled
  exact (List.cons.inj spelled).1

theorem spelled_cons {c : Byte}
    (spelled : m.contents ⟨p.toNat, (c :: a).length + 1⟩ = (c :: a) ++ [0]) :
    m p = c ∧ m.contents ⟨(p + 1).toNat, a.length + 1⟩ = a ++ [0] := by
  rw [List.length_cons, m.contents_succ] at spelled
  exact List.cons.inj spelled

/-- From a position in a string on, the loop counts the bytes up to its end. -/
theorem strlen_ends (n : Word) (nonzero : ∀ c ∈ a, c ≠ 0)
    (spelled : m.contents ⟨(p + n).toNat, a.length + 1⟩ = a ++ [0]) :
    Loop.Ends (strlenTurn char m p) n (n + BitVec.ofNat 64 a.length) := by
  induction a generalizing n with
  | nil =>
      have ended : strlenTurn char m p n = .done n :=
        if_neg (fun more => more (char.promote_eq_zero.mpr (spelled_nil spelled)))
      rw [List.length_nil, BitVec.add_zero]
      exact .done ended
  | cons c a ih =>
      obtain ⟨first, rest⟩ := spelled_cons spelled
      have more : strlenTurn char m p n = .again (n + 1) := by
        refine if_pos (fun zero => nonzero c List.mem_cons_self ?_)
        rw [← first]
        exact char.promote_eq_zero.mp zero
      rw [BitVec.add_assoc] at rest
      have counted := ih (n + 1) (fun d member => nonzero d (List.mem_cons_of_mem _ member)) rest
      rw [next_add] at counted
      exact .again more counted

theorem juliusStrlen_returns (char : PlainChar) {s : CString} (spelled : m.Spells p s) :
    Returns (juliusStrlen char m p) (BitVec.ofNat 64 s.bytes.length) := by
  have ended := @strlen_ends char m p s.bytes 0#64 s.nonzero (by rw [BitVec.add_zero]; exact spelled)
  rw [BitVec.zero_add] at ended
  exact ended

theorem strcmpTurn_again (nonzero : m p ≠ 0) (same : m p = m q) :
    strcmpTurn char m (p, q) = .again (p + 1, q + 1) :=
  if_pos ⟨fun zero => nonzero (char.promote_eq_zero.mp zero), congrArg char.promote same⟩

theorem strcmpTurn_done (ended : m p = 0 ∨ m p ≠ m q) :
    strcmpTurn char m (p, q) = .done (((m p).toNat : Int) - ((m q).toNat : Int)) := by
  refine if_neg ?_
  rintro ⟨nonzero, same⟩
  rcases ended with zero | differ
  · exact nonzero (char.promote_eq_zero.mpr zero)
  · exact differ (char.promote_inj.mp same)

/-- A string and its NUL begin with the byte at the pointer. -/
theorem spelled_head (spelled : m.contents ⟨q.toNat, b.length + 1⟩ = b ++ [0]) :
    ∃ rest, b ++ [0] = m q :: rest := by
  rw [m.contents_succ] at spelled
  exact ⟨_, spelled.symm⟩

/-- The loop ends with the comparison of the two strings, NULs included. -/
theorem strcmp_ends (nonzero : ∀ c ∈ a, c ≠ 0)
    (left : m.contents ⟨p.toNat, a.length + 1⟩ = a ++ [0])
    (right : m.contents ⟨q.toNat, b.length + 1⟩ = b ++ [0]) :
    Loop.Ends (strcmpTurn char m) (p, q) (compareBytes (a ++ [0]) (b ++ [0])) := by
  induction a generalizing p q b with
  | nil =>
      have zero := spelled_nil left
      have ended := Loop.Ends.done (@strcmpTurn_done char m p q (Or.inl zero))
      obtain ⟨rest, shape⟩ := spelled_head right
      rw [shape, List.nil_append]
      by_cases same : m q = 0
      · rw [zero, same] at ended
        rw [same, compareBytes_same]
        exact ended
      · rw [zero] at ended
        rw [compareBytes_differ (Ne.symm same)]
        exact ended
  | cons c a ih =>
      obtain ⟨first, later⟩ := spelled_cons left
      have more : m p ≠ 0 := first ▸ nonzero c List.mem_cons_self
      by_cases same : m p = m q
      · cases b with
        | nil => exact absurd (same.trans (spelled_nil right)) more
        | cons d b =>
            obtain ⟨second, behind⟩ := spelled_cons right
            have equal : c = d := first.symm.trans (same.trans second)
            rw [← equal, List.cons_append, List.cons_append, compareBytes_same]
            exact .again (strcmpTurn_again more same)
              (ih (fun d member => nonzero d (List.mem_cons_of_mem _ member)) later behind)
      · obtain ⟨rest, shape⟩ := spelled_head right
        rw [shape, List.cons_append, ← first, compareBytes_differ same]
        exact .done (strcmpTurn_done (Or.inr same))

theorem juliusStrcmp_returns (char : PlainChar) {s t : CString} (left : m.Spells p s)
    (right : m.Spells q t) :
    Returns (juliusStrcmp char m p q) (compareBytes (s.bytes ++ [0]) (t.bytes ++ [0])) :=
  strcmp_ends s.nonzero left right

/-- The turns of the comparison stand at equal positions of the two strings, up to the
first NUL of the two. -/
theorem strcmp_visits (left : m.contents ⟨p.toNat, a.length + 1⟩ = a ++ [0])
    (right : m.contents ⟨q.toNat, b.length + 1⟩ = b ++ [0]) (turns : Nat) :
    ∀ position ∈ Loop.visits (strcmpTurn char m) turns (p, q), ∃ i ≤ min a.length b.length,
      position = (p + BitVec.ofNat 64 i, q + BitVec.ofNat 64 i) := by
  induction turns generalizing p q a b with
  | zero => exact fun _ member => absurd member List.not_mem_nil
  | succ turns ih =>
      have here : ∃ i ≤ min a.length b.length,
          (p, q) = (p + BitVec.ofNat 64 i, q + BitVec.ofNat 64 i) :=
        ⟨0, Nat.zero_le _, by rw [BitVec.add_zero, BitVec.add_zero]⟩
      intro position member
      by_cases ended : m p = 0 ∨ m p ≠ m q
      · rw [Loop.visits_done (strcmpTurn_done ended)] at member
        exact List.mem_singleton.mp member ▸ here
      · obtain ⟨more, same⟩ := not_or.mp ended
        have same := not_not.mp same
        rw [Loop.visits_again (strcmpTurn_again more same)] at member
        rcases List.mem_cons.mp member with rfl | later
        · exact here
        · cases a with
          | nil => exact absurd (spelled_nil left) more
          | cons c a =>
              cases b with
              | nil => exact absurd (same.trans (spelled_nil right)) more
              | cons d b =>
                  obtain ⟨i, before, rfl⟩ :=
                    ih (spelled_cons left).2 (spelled_cons right).2 position later
                  refine ⟨i + 1, ?_, by rw [next_add, next_add]⟩
                  simp only [List.length_cons]
                  omega

theorem nonzero_pos {c : Byte} (nonzero : c ≠ 0) : 0 < c.toNat :=
  Nat.pos_of_ne_zero (fun zero => nonzero (BitVec.eq_of_toNat_eq zero))

/-- The sign of the comparison is the lexicographic order on unsigned bytes. -/
theorem compare_neg_iff (left : ∀ c ∈ a, c ≠ 0) (right : ∀ c ∈ b, c ≠ 0) :
    compareBytes (a ++ [0]) (b ++ [0]) < 0 ↔ a < b := by
  have zero : (0 : Byte).toNat = 0 := rfl
  induction a generalizing b with
  | nil =>
      cases b with
      | nil => simp [compareBytes]
      | cons d b =>
          have nonzero := right d List.mem_cons_self
          have positive := nonzero_pos nonzero
          rw [List.nil_append, List.cons_append, compareBytes_differ (Ne.symm nonzero), zero]
          simp only [List.nil_lt_cons, iff_true]
          omega
  | cons c a ih =>
      cases b with
      | nil =>
          rw [List.nil_append, List.cons_append,
            compareBytes_differ (left c List.mem_cons_self), zero]
          simp only [List.not_lt_nil, iff_false]
          omega
      | cons d b =>
          rw [List.cons_append, List.cons_append, List.cons_lt_cons_iff, BitVec.lt_def]
          by_cases same : c = d
          · rw [same, compareBytes_same]
            simp only [lt_self_iff_false, true_and, false_or]
            exact ih (fun c member => left c (List.mem_cons_of_mem _ member))
              (fun c member => right c (List.mem_cons_of_mem _ member))
          · rw [compareBytes_differ same]
            simp only [same, false_and, or_false]
            omega

theorem compare_nonpos_iff (left : ∀ c ∈ a, c ≠ 0) (right : ∀ c ∈ b, c ≠ 0) :
    compareBytes (a ++ [0]) (b ++ [0]) ≤ 0 ↔ a ≤ b := by
  have swapped := compare_neg_iff right left
  rw [compareBytes_swap] at swapped
  rw [← List.not_lt, ← swapped]
  omega

theorem compare_eq_zero_iff (left : ∀ c ∈ a, c ≠ 0) (right : ∀ c ∈ b, c ≠ 0) :
    compareBytes (a ++ [0]) (b ++ [0]) = 0 ↔ a = b := by
  have below := compare_nonpos_iff left right
  have above := compare_nonpos_iff right left
  rw [compareBytes_swap] at above
  constructor
  · intro equal
    exact List.le_antisymm (below.mp (by omega)) (above.mp (by omega))
  · rintro rfl
    have reflexive := below.mpr (List.le_refl _)
    have reversed := above.mpr (List.le_refl _)
    omega

/-- All bytes behind the first NUL of the two are beyond what decides the comparison. -/
theorem compareBytes_take (left : ∀ c ∈ a, c ≠ 0) :
    compareBytes ((a ++ [0]).take (min a.length b.length + 1))
        ((b ++ [0]).take (min a.length b.length + 1)) =
      compareBytes (a ++ [0]) (b ++ [0]) := by
  induction a generalizing b with
  | nil =>
      cases b with
      | nil => rfl
      | cons d b =>
          by_cases same : 0 = d
          · rw [← same]
            rfl
          · exact (compareBytes_differ same _ _).trans (compareBytes_differ same _ _).symm
  | cons c a ih =>
      have nonzero := left c List.mem_cons_self
      cases b with
      | nil => exact (compareBytes_differ nonzero _ _).trans (compareBytes_differ nonzero _ _).symm
      | cons d b =>
          rw [List.length_cons, List.length_cons, Nat.succ_min_succ, List.cons_append,
            List.cons_append, List.take_succ_cons, List.take_succ_cons]
          by_cases same : c = d
          · rw [same, compareBytes_same, compareBytes_same]
            exact ih (fun c member => left c (List.mem_cons_of_mem _ member))
          · rw [compareBytes_differ same, compareBytes_differ same]

end

namespace Memory.Spells

variable {m : Memory} {p q : Word} {s t : CString}

theorem getElem? (spelled : m.Spells p s) {i : Nat} (inside : i ≤ s.bytes.length) :
    (s.bytes ++ [0])[i]? = some (m (p + BitVec.ofNat 64 i)) := by
  unfold Spells at spelled
  rw [← spelled, Memory.contents_getElem?, if_pos (Nat.lt_succ_of_le inside), Memory.peek_add]

theorem nul (spelled : m.Spells p s) : m (p + BitVec.ofNat 64 s.bytes.length) = 0 := by
  have last := spelled.getElem? (Nat.le_refl _)
  rw [List.getElem?_concat_length] at last
  exact (Option.some.inj last).symm

theorem byte (spelled : m.Spells p s) {i : Nat} (inside : i < s.bytes.length) :
    m (p + BitVec.ofNat 64 i) ≠ 0 := by
  have here := spelled.getElem? (Nat.le_of_lt inside)
  rw [List.getElem?_append_left inside] at here
  exact s.nonzero _ (List.mem_of_getElem? here)

/-- A string has a position for each of its bytes: beyond `2^64` its NUL would have come before. -/
theorem length_lt (spelled : m.Spells p s) : s.bytes.length < 2 ^ 64 := by
  by_contra long
  have nul := spelled.nul
  have again := spelled.byte (show s.bytes.length - 2 ^ 64 < s.bytes.length by omega)
  have same : BitVec.ofNat 64 (s.bytes.length - 2 ^ 64) = BitVec.ofNat 64 s.bytes.length := by
    apply BitVec.eq_of_toNat_eq
    rw [BitVec.toNat_ofNat, BitVec.toNat_ofNat]
    omega
  rw [same] at again
  exact again nul

theorem unique (left : m.Spells p s) (right : m.Spells p t)
    (same : s.bytes.length = t.bytes.length) : s.bytes = t.bytes := by
  have both : s.bytes ++ [0] = t.bytes ++ [0] := by
    rw [← show _ = s.bytes ++ [0] from left, ← show _ = t.bytes ++ [0] from right, same]
  exact List.append_cancel_right both

/-- Two strings that each take up all of the address space are one. -/
theorem eq_of_full (left : m.Spells p s) (right : m.Spells q t)
    (fullLeft : s.bytes.length = 2 ^ 64 - 1) (fullRight : t.bytes.length = 2 ^ 64 - 1) : p = q := by
  have nul := left.nul
  have position : q + BitVec.ofNat 64 (p + BitVec.ofNat 64 s.bytes.length - q).toNat =
      p + BitVec.ofNat 64 s.bytes.length := by
    rw [BitVec.ofNat_toNat, BitVec.setWidth_eq, BitVec.add_comm, BitVec.sub_add_cancel]
  have bound := (p + BitVec.ofNat 64 s.bytes.length - q).isLt
  generalize (p + BitVec.ofNat 64 s.bytes.length - q).toNat = j at position bound
  by_cases before : j < t.bytes.length
  · exact absurd (position ▸ nul) (right.byte before)
  · rw [show j = s.bytes.length by omega] at position
    exact ((BitVec.add_left_inj _).mp position).symm

end Memory.Spells

/-- `julius_memcmp` up to the first NUL of two strings is their comparison. Where that count does
not fit a `size_t`, the strings are the same one. -/
theorem juliusMemcmp_strings {m : Memory} {p q : Word} {a b : CString} (left : m.Spells p a)
    (right : m.Spells q b) :
    juliusMemcmp m p q (BitVec.ofNat 64 (min a.bytes.length b.bytes.length + 1)) =
      compareBytes (a.bytes ++ [0]) (b.bytes ++ [0]) := by
  have leftBound := left.length_lt
  have rightBound := right.length_lt
  by_cases fits : min a.bytes.length b.bytes.length + 1 < 2 ^ 64
  · have front {r : Word} {s : CString} (spelled : m.Spells r s) {n : Nat}
        (within : n ≤ s.bytes.length + 1) :
        m.contents ⟨r.toNat, n⟩ = (s.bytes ++ [0]).take n := by
      have slice := m.contents_slice ⟨r.toNat, s.bytes.length + 1⟩ 0 n (by simpa using within)
      rw [show _ = s.bytes ++ [0] from spelled] at slice
      exact slice.symm
    rw [juliusMemcmp_eq, BitVec.toNat_ofNat, Nat.mod_eq_of_lt fits, front left (by omega),
      front right (by omega), compareBytes_take a.nonzero]
  · have full : min a.bytes.length b.bytes.length + 1 = 2 ^ 64 := by omega
    have same : p = q := left.eq_of_full right (by omega) (by omega)
    subst same
    rw [full, left.unique right (by omega), (compare_eq_zero_iff b.nonzero b.nonzero).mpr rfl]
    rfl

/-- The count of bytes up to the first NUL of two strings, from their lengths. -/
theorem shorter_count {i j : Nat} (left : i < 2 ^ 64) (right : j < 2 ^ 64) :
    (if BitVec.ofNat 64 i < BitVec.ofNat 64 j then BitVec.ofNat 64 i else BitVec.ofNat 64 j) + 1 =
      BitVec.ofNat 64 (min i j + 1) := by
  have order : BitVec.ofNat 64 i < BitVec.ofNat 64 j ↔ i < j := by
    rw [BitVec.lt_def, BitVec.toNat_ofNat, BitVec.toNat_ofNat, Nat.mod_eq_of_lt left,
      Nat.mod_eq_of_lt right]
  rw [BitVec.ofNat_add]
  refine congrArg (· + 1) ?_
  by_cases less : i < j
  · rw [if_pos (order.mpr less), Nat.min_eq_left (Nat.le_of_lt less)]
  · rw [if_neg (fun below => less (order.mp below)), Nat.min_eq_right (Nat.le_of_not_lt less)]

/-- What the comparison reads: the bytes of the two strings up to the first NUL of the two. -/
theorem juliusStrcmp_congr {char : PlainChar} {m m' : Memory} {p q : Word} {a b : CString}
    (left : m.Spells p a) (right : m.Spells q b)
    (same : ∀ i ≤ min a.bytes.length b.bytes.length,
      m' (p + BitVec.ofNat 64 i) = m (p + BitVec.ofNat 64 i) ∧
        m' (q + BitVec.ofNat 64 i) = m (q + BitVec.ofNat 64 i)) :
    juliusStrcmp char m' p q = juliusStrcmp char m p q := by
  funext turns
  refine Loop.run_congr turns (fun position visited => ?_)
  obtain ⟨i, within, rfl⟩ := strcmp_visits left right turns position visited
  obtain ⟨first, second⟩ := same i within
  simp only [strcmpTurn, first, second]

/-- `julius_strcmp` is `julius_memcmp` up to the first NUL of two strings, reads nothing behind
it, and orders strings as the lexicographic order on unsigned bytes does. -/
theorem strings_ordered (char : PlainChar) (m : Memory) (p q : Word) (a b : CString)
    (left : m.Spells p a) (right : m.Spells q b) :
    ∃ (v : Int) (lenA lenB : Word),
      Returns (juliusStrcmp char m p q) v ∧
      Returns (juliusStrlen char m p) lenA ∧ Returns (juliusStrlen char m q) lenB ∧
      v = juliusMemcmp m p q ((if lenA < lenB then lenA else lenB) + 1) ∧
      (∀ turns, ∀ position ∈ Loop.visits (strcmpTurn char m) turns (p, q),
        ∃ i ≤ min lenA.toNat lenB.toNat,
          position = (p + BitVec.ofNat 64 i, q + BitVec.ofNat 64 i)) ∧
      (∀ m' : Memory, (∀ i ≤ min lenA.toNat lenB.toNat,
          m' (p + BitVec.ofNat 64 i) = m (p + BitVec.ofNat 64 i) ∧
            m' (q + BitVec.ofNat 64 i) = m (q + BitVec.ofNat 64 i)) →
        juliusStrcmp char m' p q = juliusStrcmp char m p q) ∧
      (v < 0 ↔ a.bytes < b.bytes) ∧ (0 < v ↔ b.bytes < a.bytes) ∧ (v = 0 ↔ a.bytes = b.bytes) ∧
      Returns (juliusStrcmp char m q p) (-v) ∧
      ∀ (r : Word) (c : CString), m.Spells r c → ∃ bc ac,
        Returns (juliusStrcmp char m q r) bc ∧ Returns (juliusStrcmp char m p r) ac ∧
          (v ≤ 0 → bc ≤ 0 → ac ≤ 0) := by
  have leftBound := left.length_lt
  have rightBound := right.length_lt
  have leftLen : (BitVec.ofNat 64 a.bytes.length).toNat = a.bytes.length := by
    rw [BitVec.toNat_ofNat, Nat.mod_eq_of_lt leftBound]
  have rightLen : (BitVec.ofNat 64 b.bytes.length).toNat = b.bytes.length := by
    rw [BitVec.toNat_ofNat, Nat.mod_eq_of_lt rightBound]
  have negated : compareBytes (b.bytes ++ [0]) (a.bytes ++ [0]) =
      -compareBytes (a.bytes ++ [0]) (b.bytes ++ [0]) := compareBytes_swap _ _
  refine ⟨compareBytes (a.bytes ++ [0]) (b.bytes ++ [0]), BitVec.ofNat 64 a.bytes.length,
    BitVec.ofNat 64 b.bytes.length, juliusStrcmp_returns char left right,
    juliusStrlen_returns char left, juliusStrlen_returns char right, ?_, ?_, ?_,
    compare_neg_iff a.nonzero b.nonzero, ?_, compare_eq_zero_iff a.nonzero b.nonzero, ?_, ?_⟩
  · rw [shorter_count leftBound rightBound]
    exact (juliusMemcmp_strings left right).symm
  · rw [leftLen, rightLen]
    exact strcmp_visits left right
  · intro m' same
    rw [leftLen, rightLen] at same
    exact juliusStrcmp_congr left right same
  · rw [← compare_neg_iff b.nonzero a.nonzero, negated]
    omega
  · rw [← negated]
    exact juliusStrcmp_returns char right left
  · intro r c third
    refine ⟨_, _, juliusStrcmp_returns char right third, juliusStrcmp_returns char left third, ?_⟩
    rw [compare_nonpos_iff a.nonzero b.nonzero, compare_nonpos_iff b.nonzero c.nonzero,
      compare_nonpos_iff a.nonzero c.nonzero]
    exact List.le_trans

/-- A signed `char` does not put `0xff` before the end of a string. -/
theorem strings_ordered_high_byte :
    let m : Memory := fun address =>
      ([97, 98, 0, 97, 98, 0xff, 0] : List Byte)[address.toNat]?.getD 0
    ∃ v, Returns (juliusStrcmp .signed m 0 3) v ∧ v < 0 := by
  intro m
  let shorter : CString := ⟨[97, 98], by decide⟩
  let longer : CString := ⟨[97, 98, 0xff], by decide⟩
  obtain ⟨v, lenA, lenB, returned, _, _, _, _, _, below, _⟩ :=
    strings_ordered .signed m 0 3 shorter longer (by unfold Memory.Spells; decide)
      (by unfold Memory.Spells; decide)
  exact ⟨v, returned, below.mpr (by decide)⟩

end Julius
