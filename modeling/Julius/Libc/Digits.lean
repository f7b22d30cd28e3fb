import Julius.Lib.Numeral
import Julius.Libc.Io

set_option autoImplicit false

/- `julius_put_hex` and `julius_put_dec`: a stack buffer filled from its end. -/
namespace Julius

open Interact (Program)

namespace Buffer

/-- Characters stored one after another below index `i`, as `buf[--i] = c` does. -/
def fillBelow (buf : Buffer) (i : Int) : List Char → Buffer
  | [] => buf
  | c :: rest => fillBelow (Function.update buf (i - 1) c) (i - 1) rest

theorem fillBelow_concat (buf : Buffer) (i : Int) (text : List Char) (c : Char) :
    buf.fillBelow i (text ++ [c]) =
      Function.update (buf.fillBelow i text) (i - text.length - 1) c := by
  induction text generalizing buf i with
  | nil => simp [fillBelow]
  | cons d rest ih =>
      simp only [List.cons_append, fillBelow, ih, List.length_cons]
      congr 1
      omega

theorem fillBelow_outside (buf : Buffer) (i k : Int) (text : List Char)
    (outside : k < i - text.length ∨ i ≤ k) : buf.fillBelow i text k = buf k := by
  induction text generalizing buf i with
  | nil => rfl
  | cons c rest ih =>
      simp only [List.length_cons] at outside
      rw [fillBelow, ih _ _ (by omega), Function.update_of_ne (by omega)]

/-- From the last character stored upwards, the buffer reads backwards. -/
theorem fillBelow_inside (buf : Buffer) (i : Int) (text : List Char) (k : Nat)
    (inside : k < text.length) :
    some (buf.fillBelow i text (i - text.length + k)) = text.reverse[k]? := by
  induction text using List.reverseRecOn generalizing k with
  | nil => simp at inside
  | append_singleton text c ih =>
      rw [fillBelow_concat, List.reverse_append, List.reverse_singleton, List.singleton_append]
      simp only [List.length_append, List.length_singleton] at inside ⊢
      cases k with
      | zero =>
          rw [List.getElem?_cons_zero, show i - ((text.length + 1 : Nat) : Int) + ((0 : Nat) : Int) =
            i - text.length - 1 by omega, Function.update_self]
      | succ k =>
          rw [List.getElem?_cons_succ, ← ih k (by omega), Function.update_of_ne (by omega)]
          congr 2
          omega

/-- The string at index `i`, up to a NUL among the `n` characters from there on. -/
def stringAt (buf : Buffer) (n : Nat) (i : Int) : String :=
  String.ofList (((List.range n).map (fun k : Nat => buf (i + k))).takeWhile (· ≠ '\x00'))

/-- A NUL with characters filled in below it is the string of these characters. -/
theorem stringAt_fillBelow (buf : Buffer) (n : Nat) (i : Int) (text : List Char)
    (ends : buf i = '\x00') (visible : ∀ c ∈ text, c ≠ '\x00') (fits : text.length < n) :
    (buf.fillBelow i text).stringAt n (i - text.length) = String.ofList text.reverse := by
  have read : (List.range n).map (fun k : Nat => buf.fillBelow i text (i - text.length + k)) =
      text.reverse ++ (List.range (n - text.length)).map
        (fun k : Nat => buf.fillBelow i text (i + k)) := by
    apply List.ext_getElem?
    intro k
    by_cases inside : k < text.length
    · rw [List.getElem?_append_left (by simpa using inside), ← fillBelow_inside _ _ _ _ inside,
        List.getElem?_map, List.getElem?_range (by omega), Option.map_some]
    · rw [List.getElem?_append_right (by simpa using inside), List.length_reverse]
      by_cases within : k < n
      · rw [List.getElem?_map, List.getElem?_map, List.getElem?_range within,
          List.getElem?_range (by omega), Option.map_some, Option.map_some]
        congr 2
        omega
      · rw [List.getElem?_eq_none (by simpa using within),
          List.getElem?_eq_none (by simp; omega)]
  obtain ⟨rest, more⟩ : ∃ rest, n - text.length = rest + 1 := ⟨n - text.length - 1, by omega⟩
  rw [stringAt, read, List.takeWhile_append_of_pos (by simpa using visible), more,
    List.range_succ_eq_map, List.map_cons, List.takeWhile_cons_of_neg, List.append_nil]
  rw [Nat.cast_zero, Int.add_zero, fillBelow_outside _ _ _ _ (Or.inr (Int.le_refl _)), ends]
  decide

end Buffer

/-- The glyphs of the remainders, the last digit first, as the loops store them. -/
def glyphs (alphabet : List Char) (n : Nat) : List Char :=
  (Nat.digits alphabet.length n).map (alphabet.getD · '\x00')

theorem getD_spelled (alphabet : List Char) (d : Nat) (bound : d < alphabet.length) :
    alphabet[d]? = some (alphabet.getD d '\x00') := by
  rw [List.getD_eq_getElem?_getD, List.getElem?_eq_getElem bound, Option.getD_some]

theorem glyphs_zero (alphabet : List Char) : glyphs alphabet 0 = [] := by
  simp [glyphs]

theorem glyphs_pos (alphabet : List Char) (base : 1 < alphabet.length) {n : Nat} (positive : 0 < n) :
    glyphs alphabet n =
      alphabet.getD (n % alphabet.length) '\x00' :: glyphs alphabet (n / alphabet.length) := by
  rw [glyphs, Nat.digits_def' base positive]
  rfl

theorem glyphs_length_le (alphabet : List Char) (base : 1 < alphabet.length) (n k : Nat) :
    (glyphs alphabet n).length ≤ k ↔ n < alphabet.length ^ k := by
  rw [glyphs, List.length_map, Nat.digits_length_le_iff base]

theorem glyphs_mem (alphabet : List Char) (base : 1 < alphabet.length) {n : Nat} {c : Char}
    (member : c ∈ glyphs alphabet n) : c ∈ alphabet := by
  obtain ⟨d, digit, rfl⟩ := List.mem_map.mp member
  exact Numeral.glyph_mem (getD_spelled alphabet) (Nat.digits_lt_base base digit)

/-- An alphabet without the NUL spells numerals without it. -/
theorem glyphs_visible (alphabet : List Char) (base : 1 < alphabet.length)
    (visible : '\x00' ∉ alphabet) {n : Nat} {c : Char} (member : c ∈ glyphs alphabet n) :
    c ≠ '\x00' :=
  fun same => visible (same ▸ glyphs_mem alphabet base member)

theorem digits_length : digits.length = 16 := rfl

theorem hexDigits_length (v : Word) : (glyphs digits v.toNat).length ≤ 16 := by
  rw [glyphs_length_le digits (by decide), digits_length]
  exact v.isLt

theorem hexDigits_length_iff (v : Word) :
    (glyphs digits v.toNat).length ≤ 15 ↔ v.toNat < 2 ^ 60 := by
  rw [glyphs_length_le digits (by decide), digits_length]
  norm_num

/-- With space for all digits the loop stops because the value is used up, not
because the index is. -/
theorem putHexLoop_eq (i : Nat) (v : Word) (buf : Buffer)
    (fits : (glyphs digits v.toNat).length < i) :
    putHexLoop i v buf =
      (i - (glyphs digits v.toNat).length, buf.fillBelow i (glyphs digits v.toNat)) := by
  induction i generalizing v buf with
  | zero => exact absurd fits (Nat.not_lt_zero _)
  | succ i ih =>
      have zero : (0 : Word).toNat = 0 := rfl
      have isZero : v = 0 ↔ v.toNat = 0 := by rw [← BitVec.toNat_inj, zero]
      have mask : (v &&& 0xf).toNat = v.toNat % 16 := by
        rw [BitVec.toNat_and]
        exact Nat.and_two_pow_sub_one_eq_mod _ 4
      have shift : (v >>> 4).toNat = v.toNat / 16 := by
        rw [BitVec.toNat_ushiftRight, Nat.shiftRight_eq_div_pow]
      by_cases ended : v.toNat = 0
      · rw [putHexLoop, if_neg (fun more => more.1 (isZero.mpr ended)), ended, glyphs_zero]
        rfl
      · have more := glyphs_pos digits (by decide) (Nat.pos_of_ne_zero ended)
        rw [digits_length] at more
        rw [more, List.length_cons] at fits
        rw [putHexLoop, if_pos ⟨fun none => ended (isZero.mp none), by omega⟩, more,
          ih _ _ (by rw [shift]; omega), shift, mask]
        have index : ((i + 1 : Nat) : Int) - 1 = i := by omega
        simp only [List.length_cons, Buffer.fillBelow, index, Nat.add_sub_add_right]

/-- The string handed to `julius_puts` and the buffer left on the stack. -/
def putHexText (v : Word) (stack : Buffer) : String × Buffer :=
  if v = 0 then ("0x0", Function.update stack 17 '\x00')
  else ((putHexBuffer v stack).2.cString (putHexBuffer v stack).1, (putHexBuffer v stack).2)

theorem putHexBuffer_eq (v : Word) (stack : Buffer) :
    putHexBuffer v stack =
      ((17 : Int) - ((glyphs digits v.toNat).length + 2 : Nat),
        Buffer.fillBelow (Function.update stack 17 '\x00') 17
          (glyphs digits v.toNat ++ ['x'] ++ ['0'])) := by
  have short := hexDigits_length v
  rw [Buffer.fillBelow_concat, Buffer.fillBelow_concat, putHexBuffer, putHexLoop_eq 17 v _ (by omega)]
  have index : ((17 - (glyphs digits v.toNat).length : Nat) : Int) =
      17 - (glyphs digits v.toNat).length := by omega
  have last : (17 : Int) - ((glyphs digits v.toNat).length + 1 : Nat) - 1 =
      17 - (glyphs digits v.toNat).length - 1 - 1 := by omega
  simp only [index, last, List.length_append, List.length_singleton]
  refine Prod.ext ?_ rfl
  dsimp only
  omega

/-- The text is that of all digits, however many there are, in a buffer of any contents. -/
theorem putHexText_eq (v : Word) (nonzero : v ≠ 0) (stack : Buffer) :
    (putHexText v stack).1 = "0x" ++ String.ofList (glyphs digits v.toNat).reverse := by
  have short := hexDigits_length v
  have visible : ∀ c ∈ glyphs digits v.toNat ++ ['x'] ++ ['0'], c ≠ '\x00' := by
    simp only [List.mem_append, List.mem_singleton]
    rintro c ((digit | rfl) | rfl)
    · exact glyphs_visible digits (by decide) (by decide) digit
    · decide
    · decide
  have read := Buffer.stringAt_fillBelow (Function.update stack 17 '\x00') 19 17
    (glyphs digits v.toNat ++ ['x'] ++ ['0']) (Function.update_self _ _ _) visible
    (by simp only [List.length_append, List.length_singleton]; omega)
  rw [putHexText, if_neg nonzero, putHexBuffer_eq]
  simp only [List.length_append, List.length_singleton] at read
  refine read.trans ?_
  rw [List.reverse_append, List.reverse_append, ← List.append_assoc, String.ofList_append]
  rfl

theorem putHexText_outside (v : Word) (stack : Buffer) (small : v.toNat < 2 ^ 60) (k : Int)
    (outside : k < 0 ∨ 17 < k) : (putHexText v stack).2 k = stack k := by
  unfold putHexText
  split
  · exact Function.update_of_ne (by omega) _ _
  · have short := (hexDigits_length_iff v).mpr small
    rw [putHexBuffer_eq]
    dsimp only
    rw [Buffer.fillBelow_outside, Function.update_of_ne (by omega)]
    simp only [List.length_append, List.length_singleton]
    omega

/-- Sixteen digits and the `0x` before them take one character more than the buffer has. -/
theorem putHexText_underruns (v : Word) (stack : Buffer) (large : 2 ^ 60 ≤ v.toNat) :
    (putHexText v stack).2 (-1) = '0' := by
  have long : (glyphs digits v.toNat).length = 16 := by
    have short := hexDigits_length v
    have more : ¬ (glyphs digits v.toNat).length ≤ 15 := by
      rw [hexDigits_length_iff]
      omega
    omega
  have nonzero : v ≠ 0 := by
    rintro rfl
    exact absurd large (by decide)
  rw [putHexText, if_neg nonzero, putHexBuffer_eq]
  dsimp only
  rw [Buffer.fillBelow_concat, List.length_append, long]
  exact Function.update_self _ _ _

/-- What printing `v` may do: write inside `buf[18]`, and hand over `0x` and the
shortest hexadecimal numeral of `v`. -/
def PutHexRight (v : Word) : Prop :=
  ∀ stack : Buffer,
    (∀ k, k < 0 ∨ 17 < k → (putHexText v stack).2 k = stack k) ∧
      juliusPutHex v = (juliusPuts (putHexText v stack).1).bind (fun _ => .ret ()) ∧
      ∃ numeral, (putHexText v stack).1 = "0x" ++ String.ofList numeral ∧
        Numeral.Shortest digits numeral v.toNat

theorem putHexText_numeral (v : Word) (stack : Buffer) :
    ∃ numeral, (putHexText v stack).1 = "0x" ++ String.ofList numeral ∧
      Numeral.Shortest digits numeral v.toNat := by
  have nodup : digits.Nodup := by decide
  by_cases isZero : v = 0
  · subst isZero
    exact ⟨_, rfl, Numeral.shortest_zero nodup (by decide) (getD_spelled digits)⟩
  · have positive : v.toNat ≠ 0 := fun none => isZero (BitVec.eq_of_toNat_eq none)
    exact ⟨_, putHexText_eq v isZero stack,
      Numeral.shortest_digits nodup (by decide) (getD_spelled digits) positive⟩

theorem juliusPutHex_eq (v : Word) (stack : Buffer) :
    juliusPutHex v = (juliusPuts (putHexText v stack).1).bind (fun _ => .ret ()) := by
  unfold juliusPutHex
  simp only [Program.bind_eq, Program.pure_eq]
  by_cases isZero : v = 0
  · rw [if_pos isZero, putHexText, if_pos isZero]
  · have text : (putHexText v stack).1 = (putHexText v (fun _ => '\x00')).1 := by
      rw [putHexText_eq v isZero, putHexText_eq v isZero]
    rw [if_neg isZero, text, putHexText, if_neg isZero]

/-- `julius_put_hex(v)` is right exactly if `v` has at most fifteen digits. -/
theorem juliusPutHex_right_iff (v : Word) : PutHexRight v ↔ v.toNat < 2 ^ 60 := by
  constructor
  · intro right
    by_contra large
    have kept := (right (fun _ => 'a')).1 (-1) (Or.inl (by decide))
    rw [putHexText_underruns v _ (Nat.le_of_not_lt large)] at kept
    exact absurd kept (by decide)
  · intro small stack
    exact ⟨putHexText_outside v stack small, juliusPutHex_eq v stack, putHexText_numeral v stack⟩

/-- The smallest value that is printed wrong: the `0` of `0x` lands below the buffer. -/
theorem juliusPutHex_sixteen_digits : ¬ PutHexRight (0x1000000000000000 : Word) := by
  intro right
  have kept := (right (fun _ => 'a')).1 (-1) (Or.inl (by decide))
  exact absurd kept (by decide)

/-- The result of a signed operation of `width` bits, which is undefined where the
exact value `x` is out of range. -/
def signed (width : Nat) (x : Int) : Option Int :=
  if -2 ^ (width - 1) ≤ x ∧ x < 2 ^ (width - 1) then some x else none

def decimals : List Char := ['0', '1', '2', '3', '4', '5', '6', '7', '8', '9']

/-- `while (v && i > 0) { buf[--i] = '0' + (int)(v % 10); v /= 10; }` -/
def putDecLoop : Nat → Int → Buffer → Option (Nat × Buffer)
  | 0, _, buf => some (0, buf)
  | i + 1, v, buf =>
      if v ≠ 0 ∧ 0 < i + 1 then do
        let digit ← signed 32 (48 + v.tmod 10)
        let v ← signed 64 (v.tdiv 10)
        putDecLoop i v (Function.update buf i (Char.ofNat digit.toNat))
      else some (i + 1, buf)

/-- `if (v < 0) { neg = 1; v = -v; }` -/
def putDecNegate (v : Int) : Option Int := if v < 0 then signed 64 (-v) else some v

/-- `if (neg) buf[--i] = '-';` -/
def putDecSign (neg : Bool) (i : Int) (buf : Buffer) : Int × Buffer :=
  if neg then (i - 1, Function.update buf (i - 1) '-') else (i, buf)

/-- The string handed to `julius_puts` and the buffer left on the stack, unless a
signed operation overflows. -/
def putDecText (v : Int) (stack : Buffer) : Option (String × Buffer) := do
  let buf := Function.update stack 21 '\x00'
  let neg := decide (v < 0)
  let v ← putDecNegate v
  if v = 0 then
    return ("0", buf)
  let (i, buf) ← putDecLoop 21 v buf
  let (i, buf) := putDecSign neg i buf
  return (buf.stringAt 22 i, buf)

/-- `julius_put_dec`, with what the stack held before. -/
def juliusPutDec (v : BitVec 64) (stack : Buffer) : Option (Libc Unit) := do
  let (text, _) ← putDecText v.toInt stack
  return do
    let _ ← juliusPuts text

theorem decimals_length : decimals.length = 10 := rfl

theorem signed_eq {width : Nat} {x : Int} (inside : -2 ^ (width - 1) ≤ x ∧ x < 2 ^ (width - 1)) :
    signed width x = some x := if_pos inside

/-- On a value that is not negative no operation of the loop overflows. -/
theorem putDecLoop_eq (i n : Nat) (buf : Buffer) (bound : n < 2 ^ 63)
    (fits : (glyphs decimals n).length ≤ i) :
    putDecLoop i n buf =
      some (i - (glyphs decimals n).length, buf.fillBelow i (glyphs decimals n)) := by
  induction i generalizing n buf with
  | zero =>
      have none : glyphs decimals n = [] := List.length_eq_zero_iff.mp (Nat.le_zero.mp fits)
      rw [none]
      rfl
  | succ i ih =>
      by_cases ended : n = 0
      · subst ended
        rw [putDecLoop, if_neg (fun more => more.1 rfl), glyphs_zero]
        rfl
      · have more := glyphs_pos decimals (by decide) (Nat.pos_of_ne_zero ended)
        have spelled : ∀ d < 10, Char.ofNat (48 + d) = decimals.getD d '\x00' := by decide
        have remainder : (n : Int).tmod 10 = ((n % 10 : Nat) : Int) := (Int.ofNat_tmod n 10).symm
        have quotient : (n : Int).tdiv 10 = ((n / 10 : Nat) : Int) := (Int.ofNat_tdiv n 10).symm
        have digit : (48 : Int) + ((n % 10 : Nat) : Int) = ((48 + n % 10 : Nat) : Int) := by omega
        rw [decimals_length] at more
        rw [more, List.length_cons] at fits
        rw [putDecLoop, if_pos ⟨by omega, Nat.succ_pos i⟩, remainder, quotient, digit,
          signed_eq (by omega), signed_eq (by omega), more]
        simp only [Option.bind_eq_bind, Option.bind_some, Int.toNat_natCast]
        rw [ih (n / 10) _ (by omega) (by omega), spelled _ (Nat.mod_lt _ (by decide))]
        have index : ((i + 1 : Nat) : Int) - 1 = i := by omega
        simp only [List.length_cons, Buffer.fillBelow, index, Nat.add_sub_add_right]

/-- The characters that `julius_put_dec` stores for `v`, the last one first. -/
def decGlyphs (v : Int) : List Char :=
  if v < 0 then glyphs decimals v.natAbs ++ ['-'] else glyphs decimals v.natAbs

theorem decGlyphs_length (v : Int) (range : v.natAbs < 2 ^ 63) : (decGlyphs v).length ≤ 20 := by
  have short : (glyphs decimals v.natAbs).length ≤ 19 := by
    rw [glyphs_length_le decimals (by decide), decimals_length]
    omega
  unfold decGlyphs
  split
  · simp only [List.length_append, List.length_singleton]
    omega
  · omega

theorem putDecText_zero (stack : Buffer) :
    putDecText 0 stack = some ("0", Function.update stack 21 '\x00') := rfl

/-- The one negation that is out of range. -/
theorem putDecText_least (stack : Buffer) : putDecText (-2 ^ 63) stack = none := rfl

theorem putDecSign_eq (v : Int) (buf : Buffer) (i : Int) :
    putDecSign (decide (v < 0)) (i - (glyphs decimals v.natAbs).length)
        (buf.fillBelow i (glyphs decimals v.natAbs)) =
      (i - (decGlyphs v).length, buf.fillBelow i (decGlyphs v)) := by
  unfold putDecSign decGlyphs
  by_cases negative : v < 0
  · simp only [negative, decide_true, ↓reduceIte, Buffer.fillBelow_concat, List.length_append,
      List.length_singleton, Nat.cast_add, Nat.cast_one]
    rw [Int.sub_sub]
  · simp only [negative, decide_false, ↓reduceIte, Bool.false_eq_true]

theorem putDecText_eq (v : Int) (nonzero : v ≠ 0) (range : v.natAbs < 2 ^ 63) (stack : Buffer) :
    putDecText v stack = some (String.ofList (decGlyphs v).reverse,
      Buffer.fillBelow (Function.update stack 21 '\x00') 21 (decGlyphs v)) := by
  have short := decGlyphs_length v range
  have visible : ∀ c ∈ decGlyphs v, c ≠ '\x00' := by
    intro c member
    unfold decGlyphs at member
    split at member
    · rcases List.mem_append.mp member with digit | sign
      · exact glyphs_visible decimals (by decide) (by decide) digit
      · rw [List.mem_singleton.mp sign]
        decide
    · exact glyphs_visible decimals (by decide) (by decide) member
  have read := Buffer.stringAt_fillBelow (Function.update stack 21 '\x00') 22 21 (decGlyphs v)
    (Function.update_self _ _ _) visible (by omega)
  have magnitude : putDecNegate v = some (v.natAbs : Int) := by
    unfold putDecNegate
    split
    · rw [signed_eq (by omega)]
      congr 1
      omega
    · congr 1
      omega
  have room : (glyphs decimals v.natAbs).length ≤ 19 := by
    rw [glyphs_length_le decimals (by decide), decimals_length]
    omega
  have index : ((21 - (glyphs decimals v.natAbs).length : Nat) : Int) =
      21 - (glyphs decimals v.natAbs).length := by omega
  have loop := putDecLoop_eq 21 v.natAbs (Function.update stack 21 '\x00') range (by omega)
  have sign := putDecSign_eq v (Function.update stack 21 '\x00') 21
  rw [← read, putDecText, magnitude]
  simp only [Option.bind_eq_bind, Option.bind_some, loop, index]
  rw [if_neg (by omega), show ((21 : Nat) : Int) = 21 from rfl, sign]
  rfl

/-- The number a signed text denotes. -/
def decodeSigned : List Char → Int
  | '-' :: rest => -(Numeral.decode decimals rest : Int)
  | text => Numeral.decode decimals text

/-- What printing `v` may do: no operation overflows, only `buf[22]` is written, and
the text handed over is the canonical numeral of `v`. -/
def PutDecRight (v : BitVec 64) : Prop :=
  ∀ stack : Buffer, ∃ text buf, putDecText v.toInt stack = some (text, buf) ∧
    juliusPutDec v stack = some ((juliusPuts text).bind (fun _ => .ret ())) ∧
    (∀ k, k < 0 ∨ 21 < k → buf k = stack k) ∧ decodeSigned text.toList = v.toInt ∧
    ∃ numeral, text = (if v.toInt < 0 then "-" else "") ++ String.ofList numeral ∧
      Numeral.Shortest decimals numeral v.toInt.natAbs ∧
      (numeral.head? = some '0' → numeral = ['0'])

theorem decimals_nodup : decimals.Nodup := by decide

theorem decodeSigned_digits {text : List Char} (digits : ∀ c ∈ text, c ∈ decimals) :
    decodeSigned text = Numeral.decode decimals text := by
  unfold decodeSigned
  split
  · have sign := digits '-' List.mem_cons_self
    exact absurd sign (by decide)
  · rfl

/-- The characters stored for `v` read backwards are the sign and the digits of `v`. -/
theorem decGlyphs_text (v : Int) (nonzero : v ≠ 0) :
    decodeSigned (decGlyphs v).reverse = v ∧ ∃ numeral,
      String.ofList (decGlyphs v).reverse =
        (if v < 0 then "-" else "") ++ String.ofList numeral ∧
      Numeral.Shortest decimals numeral v.natAbs := by
  have shortest : Numeral.Shortest decimals (glyphs decimals v.natAbs).reverse v.natAbs :=
    Numeral.shortest_digits decimals_nodup (by decide) (getD_spelled decimals) (by omega)
  have value := shortest.decodes
  unfold decGlyphs
  by_cases negative : v < 0
  · simp only [negative, ↓reduceIte, List.reverse_append, List.reverse_singleton,
      List.singleton_append, decodeSigned, value]
    refine ⟨by omega, _, ?_, shortest⟩
    exact @String.ofList_append ['-'] _
  · simp only [negative, ↓reduceIte, decodeSigned_digits shortest.digits, value]
    refine ⟨by omega, _, ?_, shortest⟩
    exact (String.empty_append).symm

/-- `julius_put_dec(v)` is right exactly if `v` is not the least value of its type. -/
theorem juliusPutDec_right_iff (v : BitVec 64) : PutDecRight v ↔ v.toInt ≠ -2 ^ 63 := by
  constructor
  · intro right least
    obtain ⟨text, buf, printed, _⟩ := right (fun _ => 'a')
    rw [least, putDecText_least] at printed
    cases printed
  · intro inside stack
    have lower := v.le_toInt
    have upper := v.toInt_lt
    by_cases isZero : v.toInt = 0
    · rw [juliusPutDec, isZero, putDecText_zero]
      refine ⟨_, _, rfl, rfl, ?_, by decide, ['0'], rfl,
        Numeral.shortest_zero decimals_nodup (by decide) (getD_spelled decimals), fun _ => rfl⟩
      intro k outside
      exact Function.update_of_ne (by omega) _ _
    · have printed := putDecText_eq v.toInt isZero (by omega) stack
      have short := decGlyphs_length v.toInt (by omega)
      obtain ⟨decoded, numeral, text, shortest⟩ := decGlyphs_text v.toInt isZero
      refine ⟨_, _, printed, by rw [juliusPutDec, printed]; rfl, ?_, ?_, numeral, text, shortest,
        shortest.leading rfl⟩
      · intro k outside
        rw [Buffer.fillBelow_outside _ _ _ _ (by omega), Function.update_of_ne (by omega)]
      · rw [String.toList_ofList]
        exact decoded

theorem juliusPutDec_least : ¬ PutDecRight (0x8000000000000000 : BitVec 64) := by
  intro right
  obtain ⟨text, buf, printed, _⟩ := right (fun _ => 'a')
  have least : (0x8000000000000000 : BitVec 64).toInt = -2 ^ 63 := by decide
  rw [least, putDecText_least] at printed
  cases printed

end Julius
