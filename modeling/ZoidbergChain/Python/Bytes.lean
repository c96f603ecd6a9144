import ZoidbergChain.Python.Value

/-!
# Bytes and integers

`int.to_bytes` and `int.from_bytes` in big-endian order, of the integers that fit, and the
reading of a byte string from its front.
-/

namespace Python

/-- `n.to_bytes(width, 'big')`, the low bytes of a number. -/
def toBytes : Nat → Nat → List UInt8
  | 0, _ => []
  | width + 1, n => toBytes width (n / 256) ++ [UInt8.ofNat n]

/-- `int.from_bytes(b, 'big')`. -/
def ofBytes (b : List UInt8) : Nat := b.foldl (fun n x => 256 * n + x.toNat) 0

/-- `n.to_bytes(width, 'big', signed=True)`. -/
def toBytesSigned (width : Nat) (n : Int) : List UInt8 :=
  toBytes width (n % (256 ^ width : Nat)).toNat

/-- `int.from_bytes(b, 'big', signed=True)`. -/
def ofBytesSigned (b : List UInt8) : Int :=
  if 2 * ofBytes b < 256 ^ b.length then ofBytes b else ofBytes b - (256 ^ b.length : Nat)

@[simp] theorem length_toBytes (width n : Nat) : (toBytes width n).length = width := by
  induction width generalizing n with
  | zero => rfl
  | succ width ih => simp [toBytes, ih]

theorem ofBytes_append (b : List UInt8) (x : UInt8) :
    ofBytes (b ++ [x]) = 256 * ofBytes b + x.toNat := by
  simp [ofBytes]

/-- A number that fits is read back. -/
theorem ofBytes_toBytes {width n : Nat} (h : n < 256 ^ width) : ofBytes (toBytes width n) = n := by
  induction width generalizing n with
  | zero =>
    obtain rfl : n = 0 := by simpa using h
    rfl
  | succ width ih =>
    have hdiv : n / 256 < 256 ^ width := by
      rw [Nat.div_lt_iff_lt_mul (by omega)]
      rwa [pow_succ] at h
    rw [toBytes, ofBytes_append, ih hdiv]
    simp only [UInt8.toNat_ofNat']
    omega

/-- The sign is read back too. -/
theorem ofBytesSigned_toBytesSigned {width : Nat} {n : Int} (hlow : -(256 ^ width : Nat) ≤ 2 * n)
    (hhigh : 2 * n < (256 ^ width : Nat)) : ofBytesSigned (toBytesSigned width n) = n := by
  have hpos : (0 : Int) < (256 ^ width : Nat) := by positivity
  have hmod := Int.emod_nonneg n hpos.ne'
  have hlt := Int.emod_lt_of_pos n hpos
  have hfits : (n % (256 ^ width : Nat)).toNat < 256 ^ width := by omega
  unfold ofBytesSigned toBytesSigned
  rw [ofBytes_toBytes hfits, length_toBytes]
  -- a negative number is the one below its residue
  by_cases hneg : n < 0
  · have hres : n % (256 ^ width : Nat) = n + (256 ^ width : Nat) := by
      rw [← Int.add_emod_right, Int.emod_eq_of_lt (by omega) (by omega)]
    rw [if_neg (by omega)]
    omega
  · have hres : n % (256 ^ width : Nat) = n := Int.emod_eq_of_lt (by omega) (by omega)
    rw [if_pos (by omega)]
    omega

/-- Reading `n` bytes from the front: the bytes and what follows, or `e` when there are fewer. -/
def takeBytes (n : Nat) (b : List UInt8) (e : PyError) : Py (List UInt8 × List UInt8) :=
  if n ≤ b.length then .ok (b.take n, b.drop n) else .error e

theorem takeBytes_append {n : Nat} {b : List UInt8} (h : b.length = n) (rest : List UInt8)
    (e : PyError) : takeBytes n (b ++ rest) e = .ok (b, rest) := by
  subst h
  simp [takeBytes]

end Python
