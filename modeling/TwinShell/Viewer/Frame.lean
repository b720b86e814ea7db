import TwinShell.Decimal.Written

/-!
# Frames

A message travels as a frame: four bytes with its length, least significant first, then its bytes. The length is a signed 32-bit number. A stream that ends before a whole header ends the conversation; one that ends inside a message is broken.
-/

namespace TwinShell.Frame

/-- The longest message that is accepted. -/
def maxLength : Nat := 16 * 1024 * 1024

/-- The four bytes of a length, least significant first. -/
def header (n : Nat) : List UInt8 :=
  [n.toUInt8, (n / 0x100).toUInt8, (n / 0x10000).toUInt8, (n / 0x1000000).toUInt8]

/-- The frame of a message; `none` when its length is no signed 32-bit number. -/
def encode? (payload : List UInt8) : Option (List UInt8) :=
  if payload.length < 0x80000000 then some (header payload.length ++ payload) else none

/-- Why a stream is broken. -/
inductive Error where
  | negativeLength
  | tooLong (length : Nat)
  | truncated
  deriving DecidableEq, Repr

def Error.message : Error → String
  | .negativeLength => "negative frame length"
  | .tooLong length =>
    "frame of " ++ Decimal.natText length ++ " bytes exceeds " ++ Decimal.natText maxLength ++ " bytes"
  | .truncated => "failed to fill whole buffer"

/-- Reads one frame: its message and the rest of the stream, or `none` at the end of the stream. -/
def read (stream : List UInt8) : Except Error (Option (List UInt8 × List UInt8)) :=
  match stream with
  | a :: b :: c :: d :: rest =>
    let n := a.toNat + 0x100 * b.toNat + 0x10000 * c.toNat + 0x1000000 * d.toNat
    if 0x80000000 ≤ n then .error .negativeLength
    else if maxLength < n then .error (.tooLong n)
    else if rest.length < n then .error .truncated
    else .ok (some (rest.take n, rest.drop n))
  | _ => .ok none

theorem length_rest_lt {stream payload rest : List UInt8}
    (h : read stream = .ok (some (payload, rest))) : rest.length < stream.length := by
  unfold read at h
  split at h
  · simp only at h
    split at h
    · simp at h
    · split at h
      · simp at h
      · split at h
        · simp at h
        · simp only [Except.ok.injEq, Option.some.injEq, Prod.mk.injEq] at h
          rw [← h.2]
          simp only [List.length_drop, List.length_cons]
          omega
  · simp at h

/-- Reads frames until the stream ends or breaks: the messages, what is left, and the error if there is one. -/
def readAll (stream : List UInt8) : List (List UInt8) × List UInt8 × Option Error :=
  match h : read stream with
  | .ok (some (payload, rest)) =>
    have := length_rest_lt h
    let (payloads, left, error) := readAll rest
    (payload :: payloads, left, error)
  | .ok none => ([], stream, none)
  | .error e => ([], stream, some e)
termination_by stream.length

end TwinShell.Frame
