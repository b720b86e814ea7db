/-!
# UTF-8

Texts as bytes and back. `decode` gives up on bytes that are no UTF-8; `decodeLossy` puts the replacement character in place of every longest run that starts like a character and cannot go on, and of every byte that starts none.
-/

namespace TwinShell.Text

def encodeChar (c : Char) : List UInt8 :=
  let n := c.toNat
  if n < 0x80 then [n.toUInt8]
  else if n < 0x800 then [(0xC0 + n / 64).toUInt8, (0x80 + n % 64).toUInt8]
  else if n < 0x10000 then
    [(0xE0 + n / 4096).toUInt8, (0x80 + n / 64 % 64).toUInt8, (0x80 + n % 64).toUInt8]
  else
    [(0xF0 + n / 262144).toUInt8, (0x80 + n / 4096 % 64).toUInt8, (0x80 + n / 64 % 64).toUInt8,
      (0x80 + n % 64).toUInt8]

def encode (text : String) : List UInt8 := text.toList.flatMap encodeChar

/-- The byte sequences that start with a given byte: how many bytes follow, and the range of the first of them. -/
def continuation? (b : UInt8) : Option (Nat × Nat × Nat) :=
  let n := b.toNat
  if n < 0x80 then some (0, 0x80, 0xBF)
  else if n < 0xC2 then none
  else if n < 0xE0 then some (1, 0x80, 0xBF)
  else if n = 0xE0 then some (2, 0xA0, 0xBF)
  else if n = 0xED then some (2, 0x80, 0x9F)
  else if n < 0xF0 then some (2, 0x80, 0xBF)
  else if n = 0xF0 then some (3, 0x90, 0xBF)
  else if n < 0xF4 then some (3, 0x80, 0xBF)
  else if n = 0xF4 then some (3, 0x80, 0x8F)
  else none

/-- Reads continuation bytes: the bits, how many bytes were read, and whether all were there. -/
def readContinuation (bits count : Nat) (low high : Nat) : List UInt8 → Nat × Nat × Bool
  | [] => (bits, 0, count = 0)
  | b :: bs =>
    match count with
    | 0 => (bits, 0, true)
    | count + 1 =>
      if low ≤ b.toNat ∧ b.toNat ≤ high then
        let (bits, n, complete) :=
          readContinuation (bits * 64 + (b.toNat - 0x80)) count 0x80 0xBF bs
        (bits, n + 1, complete)
      else (bits, 0, false)

/-- The bits of a character that its first byte carries. -/
def leadingBits (b : UInt8) (count : Nat) : Nat :=
  match count with
  | 0 => b.toNat
  | 1 => b.toNat - 0xC0
  | 2 => b.toNat - 0xE0
  | _ => b.toNat - 0xF0

/-- The character, or else the fault, at the start of some bytes, and how many bytes it takes beyond the first. -/
def decodeFirst (b : UInt8) (bs : List UInt8) : Option Char × Nat :=
  match continuation? b with
  | none => (none, 0)
  | some (count, low, high) =>
    let (bits, n, complete) := readContinuation (leadingBits b count) count low high bs
    (if complete then some (Char.ofNat bits) else none, n)

/-- The characters of some bytes, with `none` for every fault. -/
def decodeChars (bytes : List UInt8) : List (Option Char) :=
  match bytes with
  | [] => []
  | b :: bs =>
    let (c, n) := decodeFirst b bs
    c :: decodeChars (bs.drop n)
termination_by bytes.length
decreasing_by
  simp only [List.length_drop, List.length_cons]
  omega

/-- The text of some bytes, if they are UTF-8. -/
def decode? (bytes : List UInt8) : Option String :=
  ((decodeChars bytes).mapM id).map String.ofList

/-- The text of some bytes, with replacement characters for faults. -/
def decodeLossy (bytes : List UInt8) : String :=
  String.ofList ((decodeChars bytes).map (·.getD '\uFFFD'))

end TwinShell.Text
