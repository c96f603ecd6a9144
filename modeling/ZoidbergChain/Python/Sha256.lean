import ZoidbergChain.Python.Text

/-!
# SHA-256

`hashlib.sha256(raw).hexdigest()`, executable.
-/

namespace Python

namespace Sha256

/-- The round constants. -/
def constants : List UInt32 :=
  [0x428a2f98, 0x71374491, 0xb5c0fbcf, 0xe9b5dba5, 0x3956c25b, 0x59f111f1, 0x923f82a4, 0xab1c5ed5,
    0xd807aa98, 0x12835b01, 0x243185be, 0x550c7dc3, 0x72be5d74, 0x80deb1fe, 0x9bdc06a7, 0xc19bf174,
    0xe49b69c1, 0xefbe4786, 0x0fc19dc6, 0x240ca1cc, 0x2de92c6f, 0x4a7484aa, 0x5cb0a9dc, 0x76f988da,
    0x983e5152, 0xa831c66d, 0xb00327c8, 0xbf597fc7, 0xc6e00bf3, 0xd5a79147, 0x06ca6351, 0x14292967,
    0x27b70a85, 0x2e1b2138, 0x4d2c6dfc, 0x53380d13, 0x650a7354, 0x766a0abb, 0x81c2c92e, 0x92722c85,
    0xa2bfe8a1, 0xa81a664b, 0xc24b8b70, 0xc76c51a3, 0xd192e819, 0xd6990624, 0xf40e3585, 0x106aa070,
    0x19a4c116, 0x1e376c08, 0x2748774c, 0x34b0bcb5, 0x391c0cb3, 0x4ed8aa4a, 0x5b9cca4f, 0x682e6ff3,
    0x748f82ee, 0x78a5636f, 0x84c87814, 0x8cc70208, 0x90befffa, 0xa4506ceb, 0xbef9a3f7, 0xc67178f2]

/-- The eight working words. -/
structure Words where
  a : UInt32
  b : UInt32
  c : UInt32
  d : UInt32
  e : UInt32
  f : UInt32
  g : UInt32
  h : UInt32

/-- The words before the first block. -/
def initial : Words :=
  ⟨0x6a09e667, 0xbb67ae85, 0x3c6ef372, 0xa54ff53a, 0x510e527f, 0x9b05688c, 0x1f83d9ab, 0x5be0cd19⟩

def rotateRight (x n : UInt32) : UInt32 := (x >>> n) ||| (x <<< (32 - n))

/-- One round, for a round constant and a word of the schedule. -/
def round (s : Words) (kw : UInt32 × UInt32) : Words :=
  let s1 := rotateRight s.e 6 ^^^ rotateRight s.e 11 ^^^ rotateRight s.e 25
  let choice := (s.e &&& s.f) ^^^ (~~~s.e &&& s.g)
  let t1 := s.h + s1 + choice + kw.1 + kw.2
  let s0 := rotateRight s.a 2 ^^^ rotateRight s.a 13 ^^^ rotateRight s.a 22
  let majority := (s.a &&& s.b) ^^^ (s.a &&& s.c) ^^^ (s.b &&& s.c)
  ⟨t1 + (s0 + majority), s.a, s.b, s.c, s.d + t1, s.e, s.f, s.g⟩

/-- The next word of the schedule, from the last sixteen, the latest first. -/
def nextWord (ws : List UInt32) : UInt32 :=
  let w2 := ws.getD 1 0
  let w15 := ws.getD 14 0
  let s1 := rotateRight w2 17 ^^^ rotateRight w2 19 ^^^ (w2 >>> 10)
  let s0 := rotateRight w15 7 ^^^ rotateRight w15 18 ^^^ (w15 >>> 3)
  ws.getD 15 0 + s0 + ws.getD 6 0 + s1

/-- The schedule of a block. -/
def schedule (block : List UInt32) : List UInt32 :=
  ((List.range 48).foldl (fun ws _ => nextWord ws :: ws) block.reverse).reverse

def compress (s : Words) (block : List UInt32) : Words :=
  let t := (constants.zip (schedule block)).foldl round s
  ⟨s.a + t.a, s.b + t.b, s.c + t.c, s.d + t.d, s.e + t.e, s.f + t.f, s.g + t.g, s.h + t.h⟩

/-- The message with its padding and its length in bits. -/
def padded (raw : List UInt8) : List UInt8 :=
  raw ++ 0x80 :: List.replicate ((119 - raw.length % 64) % 64) 0 ++
    (List.range 8).map fun i => UInt8.ofNat (raw.length * 8 / 256 ^ (7 - i))

/-- Bytes as big-endian words. -/
def words : List UInt8 → List UInt32
  | a :: b :: c :: d :: bytes =>
    UInt32.ofNat (a.toNat * 2 ^ 24 + b.toNat * 2 ^ 16 + c.toNat * 2 ^ 8 + d.toNat) :: words bytes
  | _ => []

/-- The blocks, so many of them at most. -/
def digestWords (s : Words) : Nat → List UInt32 → Words
  | 0, _ => s
  | _, [] => s
  | blocks + 1, ws => digestWords (compress s (ws.take 16)) blocks (ws.drop 16)

/-- A word as eight hexadecimal digits. -/
def hexWord (w : UInt32) : List Char :=
  (List.range 8).map fun i => Nat.digitChar (w.toNat / 16 ^ (7 - i) % 16)

/-- `hashlib.sha256(raw).hexdigest()`. -/
def hexdigest (raw : ByteArray) : String :=
  let ws := words (padded raw.data.toList)
  let s := digestWords initial (ws.length / 16) ws
  String.ofList ([s.a, s.b, s.c, s.d, s.e, s.f, s.g, s.h].flatMap hexWord)

theorem isLowerHex_digit (n : Nat) : isLowerHex (Nat.digitChar (n % 16)) = true := by
  have hall : ∀ d < 16, isLowerHex (Nat.digitChar d) = true := by decide
  exact hall _ (Nat.mod_lt _ (by decide))

theorem hexdigest_chars (raw : ByteArray) :
    (hexdigest raw).toList.length = 64 ∧ (hexdigest raw).toList.all isLowerHex = true := by
  have hword : ∀ w, (hexWord w).length = 8 ∧ (hexWord w).all isLowerHex = true := by
    intro w
    refine ⟨by simp [hexWord], List.all_eq_true.mpr fun c hc => ?_⟩
    obtain ⟨i, -, rfl⟩ := List.mem_map.mp hc
    exact isLowerHex_digit _
  simp only [hexdigest, String.toList_ofList, List.flatMap_cons, List.flatMap_nil,
    List.length_append, List.all_append, hword, List.length_nil, List.all_nil]
  decide

end Sha256

end Python
