import ZoidbergChain.Python.JsonWidth

/-!
# Base64

`base64.b64encode` and `base64.b64decode(text, validate=True)`, with the standard alphabet.

- `encode` writes groups of four characters, padded with `=`; `length_encode` counts them.
- `decode` reads such groups. It accepts spare bits in the last group, as the library does;
  `decode_encode`: what is written is read back.
-/

namespace Python

namespace Base64

/-- The character of a number below 64. -/
def digit (n : Nat) : Char :=
  if n < 26 then Char.ofNat (65 + n)
  else if n < 52 then Char.ofNat (71 + n)
  else if n < 62 then Char.ofNat (n - 4)
  else if n = 62 then '+'
  else '/'

/-- The number of a character of the alphabet. -/
def value? (c : Char) : Option Nat :=
  if c.isUpper then some (c.toNat - 65)
  else if c.isLower then some (c.toNat - 71)
  else if c.isDigit then some (c.toNat + 4)
  else if c = '+' then some 62
  else if c = '/' then some 63
  else none

/-- `base64.b64encode(data)`. -/
def encode : List UInt8 → List Char
  | [] => []
  | [a] => [digit (a.toNat / 4), digit (a.toNat % 4 * 16), '=', '=']
  | [a, b] =>
    [digit (a.toNat / 4), digit (a.toNat % 4 * 16 + b.toNat / 16), digit (b.toNat % 16 * 4), '=']
  | a :: b :: c :: rest =>
    digit (a.toNat / 4) :: digit (a.toNat % 4 * 16 + b.toNat / 16) ::
      digit (b.toNat % 16 * 4 + c.toNat / 64) :: digit (c.toNat % 64) :: encode rest

/-- `base64.b64decode(text, validate=True)`, or nothing when it raises. -/
def decode : List Char → Option (List UInt8)
  | [] => some []
  | [p, q, '=', '='] => do
    let p ← value? p
    let q ← value? q
    return [UInt8.ofNat (p * 4 + q / 16)]
  | [p, q, r, '='] => do
    let p ← value? p
    let q ← value? q
    let r ← value? r
    return [UInt8.ofNat (p * 4 + q / 16), UInt8.ofNat (q % 16 * 16 + r / 4)]
  | p :: q :: r :: s :: rest => do
    let p ← value? p
    let q ← value? q
    let r ← value? r
    let s ← value? s
    let bytes ← decode rest
    return UInt8.ofNat (p * 4 + q / 16) :: UInt8.ofNat (q % 16 * 16 + r / 4) ::
      UInt8.ofNat (r % 4 * 64 + s) :: bytes
  | _ => none

/-- Three bytes take four characters. -/
theorem length_encode (bytes : List UInt8) :
    (encode bytes).length = 4 * ((bytes.length + 2) / 3) := by
  induction bytes using encode.induct with
  | case1 => rfl
  | case2 a => simp [encode]
  | case3 a b => simp [encode]
  | case4 a b c rest ih =>
    simp only [encode, List.length_cons, ih]
    omega

/-- What holds of the alphabet and of the padding holds of the text. -/
theorem forall_encode {P : Char → Prop} (hdigit : ∀ n < 64, P (digit n)) (hpad : P '=')
    (bytes : List UInt8) : ∀ c ∈ encode bytes, P c := by
  induction bytes using encode.induct with
  | case1 => nofun
  | case2 a =>
    have ha := a.toNat_lt
    simp only [encode, List.forall_mem_cons]
    exact ⟨hdigit _ (by omega), hdigit _ (by omega), hpad, hpad, nofun⟩
  | case3 a b =>
    have ha := a.toNat_lt
    have hb := b.toNat_lt
    simp only [encode, List.forall_mem_cons]
    exact ⟨hdigit _ (by omega), hdigit _ (by omega), hdigit _ (by omega), hpad, nofun⟩
  | case4 a b c rest ih =>
    have ha := a.toNat_lt
    have hb := b.toNat_lt
    have hc := c.toNat_lt
    simp only [encode, List.forall_mem_cons]
    exact ⟨hdigit _ (by omega), hdigit _ (by omega), hdigit _ (by omega), hdigit _ (by omega), ih⟩

/-- The text has no character that JSON escapes. -/
theorem isPlain_encode (bytes : List UInt8) : ∀ c ∈ encode bytes, Json.isPlain c = true :=
  forall_encode (by decide) (by decide) bytes

theorem value?_digit {n : Nat} (hn : n < 64) : value? (digit n) = some n := by
  revert n
  decide

theorem digit_ne_pad {n : Nat} (hn : n < 64) : digit n ≠ '=' := by
  revert n
  decide

/-- What is written is read back. -/
theorem decode_encode (bytes : List UInt8) : decode (encode bytes) = some bytes := by
  have hbyte : ∀ {n : Nat} {a : UInt8}, n = a.toNat → UInt8.ofNat n = a := by
    rintro _ a rfl
    exact UInt8.ofNat_toNat
  induction bytes using encode.induct with
  | case1 => rfl
  | case2 a =>
    have ha := a.toNat_lt
    simp only [encode, decode]
    rw [value?_digit (by omega), value?_digit (by omega)]
    exact congrArg (fun x => some [x]) (hbyte (by omega))
  | case3 a b =>
    have ha := a.toNat_lt
    have hb := b.toNat_lt
    have hr : digit (b.toNat % 16 * 4) ≠ '=' := digit_ne_pad (by omega)
    simp only [encode]
    rw [decode]
    · rw [value?_digit (by omega), value?_digit (by omega), value?_digit (by omega)]
      have hfirst := @hbyte (a.toNat / 4 * 4 + (a.toNat % 4 * 16 + b.toNat / 16) / 16) a (by omega)
      have hsecond := @hbyte ((a.toNat % 4 * 16 + b.toNat / 16) % 16 * 16 + b.toNat % 16 * 4 / 4) b
        (by omega)
      show some [_, _] = _
      rw [hfirst, hsecond]
    · exact fun heq => hr heq
  | case4 a b c rest ih =>
    have ha := a.toNat_lt
    have hb := b.toNat_lt
    have hc := c.toNat_lt
    have hs : digit (c.toNat % 64) ≠ '=' := digit_ne_pad (by omega)
    simp only [encode]
    rw [decode]
    · rw [value?_digit (by omega), value?_digit (by omega), value?_digit (by omega),
        value?_digit (by omega), ih]
      have hfirst := @hbyte (a.toNat / 4 * 4 + (a.toNat % 4 * 16 + b.toNat / 16) / 16) a (by omega)
      have hsecond := @hbyte ((a.toNat % 4 * 16 + b.toNat / 16) % 16 * 16 +
        (b.toNat % 16 * 4 + c.toNat / 64) / 4) b (by omega)
      have hthird := @hbyte ((b.toNat % 16 * 4 + c.toNat / 64) % 4 * 64 + c.toNat % 64) c (by omega)
      show some (_ :: _ :: _ :: rest) = _
      rw [hfirst, hsecond, hthird]
    · exact fun _ heq => absurd heq hs
    · exact fun heq => absurd heq hs

example : decode (encode [77, 97, 110, 33]) = some [77, 97, 110, 33] := by decide +kernel

end Base64

end Python
