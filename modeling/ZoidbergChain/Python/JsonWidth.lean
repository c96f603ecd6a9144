import ZoidbergChain.Python.Json
/-!
# The width of JSON texts

How many bytes of UTF-8 the text of a value takes.

- `width` is that number, `textWidth` the one of a string with its quotes.
- `width_list` and `width_dict` give it by the parts; `width_int_le` and `textWidth_of_plain` at
  the leaves.
-/

namespace Python

namespace Json

/-- The bytes of UTF-8 that characters take. -/
def bytes (cs : List Char) : Nat := (cs.map Char.utf8Size).sum

@[simp] theorem bytes_nil : bytes [] = 0 := rfl

@[simp] theorem bytes_cons (c : Char) (cs : List Char) : bytes (c :: cs) = c.utf8Size + bytes cs :=
  rfl

@[simp] theorem bytes_append (cs ds : List Char) : bytes (cs ++ ds) = bytes cs + bytes ds := by
  simp [bytes]

theorem length_utf8 (cs : List Char) : (cs.flatMap String.utf8EncodeChar).length = bytes cs := by
  induction cs with
  | nil => rfl
  | cons c cs ih => rw [List.flatMap_cons, List.length_append, ih, bytes_cons,
      String.length_utf8EncodeChar]

/-- ASCII takes a byte for a character. -/
theorem bytes_of_ascii {cs : List Char} (h : ∀ c ∈ cs, c.toNat < 128) : bytes cs = cs.length := by
  induction cs with
  | nil => rfl
  | cons c cs ih =>
    obtain ⟨hc, hcs⟩ := List.forall_mem_cons.mp h
    have hone : c.utf8Size = 1 := Char.utf8Size_eq_one_iff.mpr (by
      show c.toNat ≤ 127
      omega)
    rw [bytes_cons, hone, ih hcs, List.length_cons]
    omega

/-- The bytes of a string with its quotes. -/
def textWidth (s : String) : Nat := bytes ('"' :: renderChars false s.toList)

/-- The bytes of the text of a value. -/
def width (v : Value) : Nat := bytes (render false v)

@[simp] theorem width_null : width .null = 4 := by decide

@[simp] theorem width_str (s : String) : width (.str s) = textWidth s := rfl

theorem width_items (xs : List Value) :
    bytes (renderItems false xs) = 1 + (xs.map fun x => width x + 1).sum := by
  induction xs with
  | nil => rfl
  | cons x xs ih =>
    rw [renderItems, List.cons_append, bytes_cons, bytes_append, ih, List.map_cons, List.sum_cons]
    show 1 + (width x + _) = _
    omega

theorem width_entries (es : List (String × Value)) :
    bytes (renderEntries false es) = 1 + (es.map fun e => textWidth e.1 + width e.2 + 2).sum := by
  induction es with
  | nil => rfl
  | cons e es ih =>
    obtain ⟨k, v⟩ := e
    simp only [renderEntries, List.cons_append, bytes_cons, bytes_append, ih, List.map_cons,
      List.sum_cons]
    show 1 + (1 + (bytes (renderChars false k.toList) + (1 + (width v + _)))) =
      1 + (1 + bytes (renderChars false k.toList) + width v + 2 + _)
    omega

theorem width_list {xs : List Value} (hxs : xs ≠ []) :
    width (.list xs) = 1 + (xs.map fun x => width x + 1).sum := by
  cases xs with
  | nil => exact absurd rfl hxs
  | cons x xs =>
    rw [width, render, List.cons_append, bytes_cons, bytes_append, width_items, List.map_cons,
      List.sum_cons]
    show 1 + (width x + _) = _
    omega

theorem width_dict {es : List (String × Value)} (hes : es ≠ []) :
    width (.dict es) = 1 + (es.map fun e => textWidth e.1 + width e.2 + 2).sum := by
  cases es with
  | nil => exact absurd rfl hes
  | cons e es =>
    obtain ⟨k, v⟩ := e
    simp only [width, render, List.cons_append, bytes_cons, bytes_append, width_entries,
      List.map_cons, List.sum_cons]
    show 1 + (1 + (bytes (renderChars false k.toList) + (1 + (width v + _)))) =
      1 + (1 + bytes (renderChars false k.toList) + width v + 2 + _)
    omega

/-- A printable character that is not escaped. -/
def isPlain (c : Char) : Bool := 32 ≤ c.toNat && c.toNat ≤ 126 && c ≠ '"' && c ≠ '\\'

theorem escapeChar_of_plain {c : Char} (hc : isPlain c = true) : escapeChar false c = [c] := by
  simp only [isPlain, Bool.and_eq_true, decide_eq_true_eq, ne_eq] at hc
  obtain ⟨⟨⟨hlow, -⟩, hquote⟩, hslash⟩ := hc
  have hne : ∀ d : Char, d.toNat < 32 → c ≠ d := by
    rintro d hd rfl
    omega
  rw [escapeChar, if_neg hquote, if_neg hslash, if_neg (hne _ (by decide)),
    if_neg (hne _ (by decide)), if_neg (hne _ (by decide)), if_neg (by omega), if_neg (by omega),
    if_neg (by omega), if_neg (by simp)]

theorem renderChars_of_plain {cs : List Char} (h : ∀ c ∈ cs, isPlain c = true) :
    renderChars false cs = cs ++ ['"'] := by
  have hsame : cs.flatMap (escapeChar false) = cs := by
    induction cs with
    | nil => rfl
    | cons c cs ih =>
      obtain ⟨hc, hcs⟩ := List.forall_mem_cons.mp h
      rw [List.flatMap_cons, escapeChar_of_plain hc, ih hcs]
      rfl
  rw [renderChars, hsame]

theorem textWidth_of_plain {s : String} (h : ∀ c ∈ s.toList, isPlain c = true) :
    textWidth s = s.length + 2 := by
  have hascii : bytes s.toList = s.length := by
    rw [bytes_of_ascii, String.length_toList]
    intro c hc
    have hplain := h c hc
    simp only [isPlain, Bool.and_eq_true, decide_eq_true_eq] at hplain
    omega
  rw [textWidth, renderChars_of_plain h, bytes_cons, bytes_append, hascii]
  show 1 + (s.length + 1) = _
  omega

theorem bytes_hex4 (n : Nat) : bytes (hex4 n) = 4 := by
  have hdigit : ∀ m < 16, (Nat.digitChar m).utf8Size = 1 := by decide
  have hsize : ∀ m, (Nat.digitChar (m % 16)).utf8Size = 1 := fun m =>
    hdigit _ (Nat.mod_lt _ (by decide))
  simp [hex4, hsize]

/-- A control character takes six bytes, and no character takes more. -/
theorem bytes_escapeChar_le (c : Char) : bytes (escapeChar false c) ≤ 6 := by
  have hslash : '\\'.utf8Size = 1 := rfl
  have hu : 'u'.utf8Size = 1 := rfl
  refine escapeChar_cases (P := fun _ cs => bytes cs ≤ 6) c (by decide) (by decide) (by decide)
    (by decide) (by decide) (by decide) (by decide) (fun c _ => ?_) fun c _ _ _ => ?_
  · rw [bytes_cons, bytes_cons, bytes_hex4, hslash, hu]
  · have hsize := c.utf8Size_le_four
    rw [bytes_cons, bytes_nil]
    omega

theorem textWidth_le (s : String) : textWidth s ≤ 6 * s.length + 2 := by
  have hbody : ∀ cs : List Char, bytes (cs.flatMap (escapeChar false)) ≤ 6 * cs.length := by
    intro cs
    induction cs with
    | nil => exact le_refl 0
    | cons c cs ih =>
      have hc := bytes_escapeChar_le c
      rw [List.flatMap_cons, bytes_append, List.length_cons]
      omega
  have hlist := hbody s.toList
  have hquote : '"'.utf8Size = 1 := rfl
  rw [String.length_toList] at hlist
  rw [textWidth, renderChars, bytes_cons, bytes_append, bytes_cons, bytes_nil, hquote]
  omega

/-- A number between two powers of ten. -/
theorem width_int_le {n : Int} {k : Nat} (hk : 0 < k) (hlow : -(10 : Int) ^ (k - 1) < n)
    (hhigh : n < (10 : Int) ^ k) : width (.int n) ≤ k := by
  have hdigits : ∀ m, ∀ c ∈ Nat.toDigits 10 m, c.toNat < 128 := by
    intro m c hc
    have hdigit := Nat.isDigit_of_mem_toDigits (b := 10) (by decide) (by decide) hc
    simp only [Char.isDigit, Bool.and_eq_true, decide_eq_true_eq, ge_iff_le, UInt32.le_iff_toNat_le]
      at hdigit
    have hval : c.toNat ≤ 57 := hdigit.2
    omega
  show bytes (renderInt n) ≤ k
  rw [renderInt]
  split
  · next hneg =>
    rw [bytes_cons, bytes_of_ascii (hdigits _)]
    have habs : n.natAbs < 10 ^ (k - 1) := by
      have hcast : ((10 ^ (k - 1) : Nat) : Int) = (10 : Int) ^ (k - 1) := by push_cast; rfl
      omega
    have hpos : 0 < k - 1 := by
      by_contra hzero
      rw [show k - 1 = 0 by omega] at habs
      omega
    have hlength := (Nat.length_toDigits_le_iff (by decide) hpos).mpr habs
    have hsign : '-'.utf8Size = 1 := rfl
    omega
  · rw [bytes_of_ascii (hdigits _)]
    refine (Nat.length_toDigits_le_iff (by decide) hk).mpr ?_
    have hcast : ((10 ^ k : Nat) : Int) = (10 : Int) ^ k := by push_cast; rfl
    omega

end Json
end Python
