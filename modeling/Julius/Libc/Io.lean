import Julius.Libc.Syscall

set_option autoImplicit false

/- libc/src/io.c -/
namespace Julius

open Interact (Program)

def juliusWrite (fd : BitVec 32) (text : String) : Libc (BitVec 64) := Program.query (Trap.write fd text)

def juliusPutsFd (fd : BitVec 32) (s : String) : Libc (BitVec 64) := juliusWrite fd s

/-- Standard error is the serial console. -/
def juliusPuts (s : String) : Libc (BitVec 64) := juliusPutsFd 2 s

/-- A stack buffer. It is indexed by `int`, so that a write below its first
element is a write like any other. -/
abbrev Buffer := Int → Char

def digits : List Char :=
  ['0', '1', '2', '3', '4', '5', '6', '7', '8', '9', 'a', 'b', 'c', 'd', 'e', 'f']

/-- `while (v && i > 1) { buf[--i] = digits[v & 0xf]; v >>= 4; }` -/
def putHexLoop : Nat → Word → Buffer → Nat × Buffer
  | 0, _, buf => (0, buf)
  | i + 1, v, buf =>
      if v ≠ 0 ∧ 1 < i + 1 then
        putHexLoop i (v >>> 4) (Function.update buf i (digits.getD (v &&& 0xf).toNat '\x00'))
      else (i + 1, buf)

/-- The string that starts at index `i` and ends before the first NUL, which
lies among the next eighteen characters. -/
def Buffer.cString (buf : Buffer) (i : Int) : String :=
  String.ofList (((List.range 19).map (fun k : Nat => buf (i + k))).takeWhile (· ≠ '\x00'))

/-- The buffer and the index that `julius_put_hex` hands to `julius_puts` for `v ≠ 0`. -/
def putHexBuffer (v : Word) (stack : Buffer) : Int × Buffer :=
  let (i, buf) := putHexLoop 17 v (Function.update stack 17 '\x00')
  let buf := Function.update buf ((i : Int) - 1) 'x'
  let buf := Function.update buf ((i : Int) - 1 - 1) '0'
  ((i : Int) - 1 - 1, buf)

def juliusPutHex (v : Word) : Libc Unit := do
  if v = 0 then
    let _ ← juliusPuts "0x0"
    return
  let (i, buf) := putHexBuffer v (fun _ => '\x00')
  let _ ← juliusPuts (buf.cString i)

/-- The traps behind console output. -/
def Trap.IsWrite : Trap → Prop
  | .write .. => True
  | _ => False

theorem juliusPuts_asks (s : String) : (juliusPuts s).Asks Trap.IsWrite (fun _ => False) :=
  ⟨trivial, fun _ => trivial⟩

theorem juliusPutHex_asks (v : Word) : (juliusPutHex v).Asks Trap.IsWrite (fun _ => False) := by
  unfold juliusPutHex
  split
  · exact (juliusPuts_asks _).bind (fun _ => trivial)
  · exact (juliusPuts_asks _).bind (fun _ => trivial)

/-- Prints the message and executes `ud2`; nothing after the call runs. -/
def juliusPanic {α : Type} (msg : String) : Libc α := do
  let _ ← juliusPuts "\n!!! JULIUS PANIC: "
  let _ ← juliusPuts msg
  let _ ← juliusPuts "\n"
  .halt ⟨msg⟩

end Julius
