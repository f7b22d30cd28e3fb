import Mathlib.Data.Nat.Digits.Lemmas

set_option autoImplicit false

/- Numerals over an alphabet of digits, most significant digit first. The base is
the size of the alphabet. -/
namespace Numeral

variable {α : Type} [DecidableEq α] {alphabet : List α}

/-- The number a text denotes: each digit counts what its place in the alphabet says. -/
def decode (alphabet text : List α) : Nat :=
  text.foldl (fun n c => n * alphabet.length + alphabet.idxOf c) 0

/-- `text` is a numeral of `n`, and no numeral of `n` is shorter. -/
structure Shortest (alphabet text : List α) (n : Nat) : Prop where
  nonempty : text ≠ []
  digits : ∀ c ∈ text, c ∈ alphabet
  decodes : decode alphabet text = n
  shortest : ∀ other, other ≠ [] → (∀ c ∈ other, c ∈ alphabet) → decode alphabet other = n →
    text.length ≤ other.length

theorem decode_concat (text : List α) (c : α) :
    decode alphabet (text ++ [c]) =
      decode alphabet text * alphabet.length + alphabet.idxOf c := by
  simp only [decode, List.foldl_append, List.foldl_cons, List.foldl_nil]

theorem decode_reverse (digits : List α) :
    decode alphabet digits.reverse =
      Nat.ofDigits alphabet.length (digits.map alphabet.idxOf) := by
  induction digits with
  | nil => rfl
  | cons c rest ih =>
      rw [List.reverse_cons, decode_concat, ih, List.map_cons, Nat.ofDigits_cons, Nat.mul_comm]
      exact Nat.add_comm _ _

/-- A text of `k` digits denotes less than the `k`-th power of the base. -/
theorem decode_lt (base : 1 < alphabet.length) {text : List α} (digits : ∀ c ∈ text, c ∈ alphabet) :
    decode alphabet text < alphabet.length ^ text.length := by
  rw [← List.reverse_reverse text, decode_reverse, List.length_reverse]
  have bound := Nat.ofDigits_lt_base_pow_length base
    (l := text.reverse.map alphabet.idxOf) ?_
  · simpa using bound
  · intro d member
    obtain ⟨c, inside, rfl⟩ := List.mem_map.mp member
    exact List.idxOf_lt_length_iff.mpr (digits c (List.mem_reverse.mp inside))

/-- A shortest numeral of more than one digit does not begin with zero. -/
theorem Shortest.leading {text : List α} {n : Nat} (shortest : Shortest alphabet text n) {c : α}
    (zero : alphabet.idxOf c = 0) (first : text.head? = some c) : text = [c] := by
  obtain ⟨rest, rfl⟩ := List.head?_eq_some_iff.mp first
  by_contra longer
  have more : rest ≠ [] := fun none => longer (none ▸ rfl)
  have same : decode alphabet (c :: rest) = decode alphabet rest := by
    simp only [decode, List.foldl_cons, zero, Nat.zero_mul, Nat.add_zero]
  have length := shortest.shortest rest more
    (fun d member => shortest.digits d (List.mem_cons_of_mem _ member))
    (same ▸ shortest.decodes)
  simp only [List.length_cons] at length
  omega

section

variable (nodup : alphabet.Nodup) (base : 1 < alphabet.length) {glyph : Nat → α}
  (spelled : ∀ d, d < alphabet.length → alphabet[d]? = some (glyph d))
include nodup spelled

omit [DecidableEq α] nodup in
theorem glyph_mem {d : Nat} (bound : d < alphabet.length) : glyph d ∈ alphabet :=
  List.mem_of_getElem? (spelled d bound)

theorem idxOf_glyph {d : Nat} (bound : d < alphabet.length) : alphabet.idxOf (glyph d) = d := by
  obtain ⟨_, same⟩ := List.getElem?_eq_some_iff.mp (spelled d bound)
  rw [← same]
  exact nodup.idxOf_getElem d bound

include base

/-- Writing the remainders by the base from the right gives the shortest numeral. -/
theorem shortest_digits {n : Nat} (positive : n ≠ 0) :
    Shortest alphabet ((Nat.digits alphabet.length n).map glyph).reverse n where
  nonempty := by
    simpa using Nat.digits_ne_nil_iff_ne_zero.mpr positive
  digits := by
    intro c member
    obtain ⟨d, digit, rfl⟩ := List.mem_map.mp (List.mem_reverse.mp member)
    exact glyph_mem spelled (Nat.digits_lt_base base digit)
  decodes := by
    rw [decode_reverse, List.map_map]
    have read : (Nat.digits alphabet.length n).map (alphabet.idxOf ∘ glyph) =
        (Nat.digits alphabet.length n).map id := by
      apply List.map_congr_left
      intro d digit
      exact idxOf_glyph nodup spelled (Nat.digits_lt_base base digit)
    rw [read, List.map_id, Nat.ofDigits_digits]
  shortest := by
    intro other _ digits same
    rw [List.length_reverse, List.length_map, Nat.digits_length_le_iff base, ← same]
    exact decode_lt base digits

theorem shortest_zero : Shortest alphabet [glyph 0] 0 where
  nonempty := by simp
  digits := by
    simpa using glyph_mem spelled (Nat.lt_trans Nat.zero_lt_one base)
  decodes := by
    simp [decode, idxOf_glyph nodup spelled (Nat.lt_trans Nat.zero_lt_one base)]
  shortest := by
    intro other nonempty _ _
    exact List.length_pos_iff.mpr nonempty

end

end Numeral
