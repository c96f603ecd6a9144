import ZoidbergChain.Python.Bytes

/-!
# Bit readers (codec_prototype/sequence_verifier.py)

`ForwardBits` reads a byte string from its front, the low bits of a byte first.

- `ForwardBits.read_eq_ok`: a read moves on by its width and stays inside of the data.
-/

namespace ZoidbergChain

open Python

namespace Codec

/-- `invalid()`: a `VerificationReject`, which is a `ValueError`. -/
def invalid : PyError :=
  { exc := .valueError, message := "invalid_stream", code := some "invalid_stream" }

/-- An index of a slice: a negative one counts from the end, and none passes an end. -/
def sliceIndex (length : Nat) (i : Int) : Nat :=
  if i < 0 then (i + length).toNat else min i.toNat length

/-- `xs[start:stop]`. -/
def slice {α : Type} (xs : List α) (start stop : Int) : List α :=
  (xs.take (sliceIndex xs.length stop)).drop (sliceIndex xs.length start)

/-- `int.from_bytes(b, 'little')`. -/
def ofBytesLittle (b : List UInt8) : Nat := ofBytes b.reverse

/-- `ForwardBits`. -/
structure ForwardBits where
  data : List UInt8
  bit : Int

namespace ForwardBits

/-- `ForwardBits(data, offset)`. -/
def make (data : List UInt8) (offset : Int) : ForwardBits := ⟨data, offset * 8⟩

/-- `peek`. -/
def peek (bits : ForwardBits) (width : Nat) : Py Nat := do
  require (bits.bit + width ≤ bits.data.length * 8) invalid
  let start := bits.bit / 8
  return (ofBytesLittle (slice bits.data start (start + 3)) >>> (bits.bit % 8).toNat) &&&
    (2 ^ width - 1)

/-- `read`. -/
def read (bits : ForwardBits) (width : Nat) : Py (Nat × ForwardBits) := do
  let value ← bits.peek width
  return (value, { bits with bit := bits.bit + width })

variable {bits bits' : ForwardBits} {width value : Nat}

theorem read_eq_ok (hok : bits.read width = .ok (value, bits')) :
    bits' = { bits with bit := bits.bit + width } ∧
      bits'.bit ≤ bits'.data.length * 8 := by
  obtain ⟨peeked, hpeek, hok⟩ := bind_eq_ok.mp hok
  obtain ⟨-, rfl⟩ := Prod.mk.inj (pure_eq_ok.mp hok)
  obtain ⟨_, hbound, -⟩ := bind_eq_ok.mp hpeek
  exact ⟨rfl, require_eq_ok.mp hbound⟩

end ForwardBits

end Codec

end ZoidbergChain
