import ZoidbergChain.Codec.Bits

/-!
# Tables of states (codec_prototype/sequence_verifier.py)

`buildTable` spreads the symbols of a norm over the states of a table, and gives every state the
number of bits that lead to the next one. `readTable` reads a norm from a byte string.
-/

namespace ZoidbergChain

open Python

namespace Codec

/-! ## Building -/

/-- A row of a table: its symbol, and the bit width and the baseline of the next state. -/
structure Row where
  symbol : Nat
  width : Nat
  baseline : Int
  deriving DecidableEq

structure Table where
  log : Int
  rows : List Row
  deriving DecidableEq

/-- The first loop: every symbol of probability -1 takes the highest cell that is left. -/
def reserve : List (Int × Nat) → List Int × Int → Py (List Int × Int)
  | [], s => .ok s
  | (count, symbol) :: rest, (symbols, high) => do
    require (-1 ≤ count) invalid
    -- `high` stays an index: there are at most as many such symbols as cells
    if count = -1 then reserve rest (symbols.set high.toNat symbol, high - 1)
    else reserve rest (symbols, high)

/-- The `while` loop that skips the high cells. -/
def skipHigh (size stride : Nat) (high : Int) (position steps : Nat) : Py (Nat × Nat) :=
  if high < position then
    if size < steps + 1 then .error invalid
    else skipHigh size stride high ((position + stride) &&& (size - 1)) (steps + 1)
  else .ok (position, steps)
termination_by size + 1 - steps

/-- The state of the spreading loop. -/
structure Spread where
  symbols : List Int
  position : Nat
  steps : Nat

/-- One turn of the spreading loop. -/
def spreadCell (size stride : Nat) (high : Int) (s : Spread) (symbol : Nat) : Py Spread := do
  let symbols := s.symbols.set s.position symbol
  let (position, steps) ←
    skipHigh size stride high ((s.position + stride) &&& (size - 1)) (s.steps + 1)
  return ⟨symbols, position, steps⟩

/-- The spreading loop. -/
def spread (size stride : Nat) (high : Int) (norm : List Int) (symbols : List Int) : Py Spread :=
  norm.zipIdx.foldlM (fun s entry =>
    (List.replicate entry.1.toNat entry.2).foldlM (spreadCell size stride high) s) ⟨symbols, 0, 0⟩

/-- `state.bit_length()`. -/
def bitLength (n : Nat) : Nat := if n = 0 then 0 else Nat.log 2 n + 1

/-- The row of a state. -/
def rowOf (log : Nat) (symbol state : Nat) : Py Row := do
  let width : Int := log - (bitLength state - 1)
  require (0 ≤ width) (.value "negative shift count")
  return ⟨symbol, width.toNat, (state * 2 ^ width.toNat : Nat) - (2 ^ log : Nat)⟩

/-- One turn of the last loop, over the states that follow and the rows so far. -/
def numberCell (log : Nat) (s : List Nat × List Row) (symbol : Int) :
    Py (List Nat × List Row) := do
  let state := s.1.getD symbol.toNat 0
  require (¬(symbol < 0 ∨ state = 0)) invalid
  let row ← rowOf log symbol.toNat state
  return (s.1.set symbol.toNat (state + 1), s.2 ++ [row])

/-- The numbers of states at the start. -/
def initialStates (norm : List Int) : List Nat :=
  norm.map fun count => if count = -1 then 1 else count.toNat

/-- `build_table`. -/
def buildTable (norm : List Int) (log : Int) : Py Table := do
  require (0 ≤ log) (.value "negative shift count")
  let size := 2 ^ log.toNat
  require (5 ≤ log ∧ log ≤ 9 ∧ (norm.map Int.natAbs).sum = size ∧ 2 ≤ norm.countP (· ≠ 0)) invalid
  let (symbols, high) ← reserve norm.zipIdx (List.replicate size (-1), size - 1)
  let s ← spread size (size / 2 + size / 8 + 3) high norm symbols
  require (s.position = 0) invalid
  let numbered ← s.symbols.foldlM (numberCell log.toNat) (initialStates norm, [])
  return ⟨log, numbered.2⟩

end Codec

end ZoidbergChain
