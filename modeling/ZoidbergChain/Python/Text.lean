import Mathlib

/-!
# Python strings

`str.strip` and the character tests.

- `strip` removes the Unicode white space of `str.isspace` at both ends; it is
  idempotent (`strip_strip`).
- `asciiDigit` maps every Unicode decimal digit to its ASCII digit, which is how
  `int`, `float` and `Decimal` read a numeral.
-/

namespace Python

/-- A statement about the characters of a text is decided by the text, and not by a search
through all characters. -/
instance (priority := high) decidableForallMem {α : Type*} (p : α → Prop) [DecidablePred p]
    (xs : List α) : Decidable (∀ x ∈ xs, p x) := List.decidableBAll p xs

/-! ## Character classes -/

/-- `c.isspace()`. -/
def isSpace (c : Char) : Bool :=
  let n := c.toNat
  (9 ≤ n && n ≤ 13) || (28 ≤ n && n ≤ 32) || n == 133 || n == 160 || n == 5760 ||
    (8192 ≤ n && n ≤ 8202) || n == 8232 || n == 8233 || n == 8239 || n == 8287 || n == 12288

/-- The code points of the zeros of the Unicode decimal digits (category `Nd`); the
nine other digits of a script follow its zero. -/
def decimalZeros : List Nat :=
  [1632, 1776, 1984, 2406, 2534, 2662, 2790, 2918, 3046, 3174, 3302, 3430, 3558, 3664, 3792,
   3872, 4160, 4240, 6112, 6160, 6470, 6608, 6784, 6800, 6992, 7088, 7232, 7248, 42528, 43216,
   43264, 43472, 43504, 43600, 44016, 65296, 66720, 68912, 69734, 69872, 69942, 70096, 70384,
   70736, 70864, 71248, 71360, 71472, 71904, 72016, 72784, 73040, 73120, 92768, 92864, 93008,
   120782, 120792, 120802, 120812, 120822, 123200, 123632, 125264, 130032]

/-- The ASCII digit of a decimal digit; any other character is kept. -/
def asciiDigit (c : Char) : Char :=
  if c.toNat < 128 then c
  else match decimalZeros.find? fun z => z ≤ c.toNat && c.toNat < z + 10 with
    | some z => Char.ofNat (48 + (c.toNat - z))
    | none => c

/-- The digits of `str.isdigit` that are not decimal digits (superscripts, circled
digits and the like), as closed ranges. -/
def otherDigits : List (Nat × Nat) :=
  [(178, 179), (185, 185), (4969, 4977), (6618, 6618), (8304, 8304), (8308, 8313),
   (8320, 8329), (9312, 9320), (9332, 9340), (9352, 9360), (9450, 9450), (9461, 9469),
   (9471, 9471), (10102, 10110), (10112, 10120), (10122, 10130), (68160, 68163),
   (69216, 69224), (69714, 69722), (127232, 127242)]

/-- `c.isdigit()`. -/
def isDigitChar (c : Char) : Bool :=
  (asciiDigit c).isDigit || otherDigits.any fun r => r.1 ≤ c.toNat && c.toNat ≤ r.2

/-- `s.isdigit()`: there is a character, and each one is a digit. -/
def isDigitString (s : String) : Bool := s != "" && s.toList.all isDigitChar

/-- `ch in "0123456789abcdef"`. -/
def isLowerHex (c : Char) : Bool := c.isDigit || ('a' ≤ c && c ≤ 'f')

/-- `ch in "0123456789abcdefABCDEF"`. -/
def isHex (c : Char) : Bool := isLowerHex c || ('A' ≤ c && c ≤ 'F')

/-- `needle in s`. -/
def containsText (needle s : String) : Bool :=
  s.toList.tails.any fun suffix => needle.toList.isPrefixOf suffix

/-! ## Stripping -/

/-- The characters of `s.strip()`. -/
def stripChars (cs : List Char) : List Char := (cs.dropWhile isSpace).rdropWhile isSpace

/-- `s.strip()`. -/
def strip (s : String) : String := String.ofList (stripChars s.toList)

theorem stripChars_eq_self {cs : List Char} (hhead : ∀ c ∈ cs.head?, isSpace c = false)
    (hlast : ∀ c ∈ cs.getLast?, isSpace c = false) : stripChars cs = cs := by
  have hdrop : cs.dropWhile isSpace = cs := by
    cases cs with
    | nil => rfl
    | cons c cs => rw [List.dropWhile_cons_of_neg]; simpa using hhead c (by simp)
  rw [stripChars, hdrop, List.rdropWhile_eq_self_iff]
  intro hne
  have := hlast (cs.getLast hne) (by simp [List.getLast?_eq_some_getLast hne])
  simp [this]

theorem stripChars_stripChars (cs : List Char) : stripChars (stripChars cs) = stripChars cs := by
  unfold stripChars
  generalize hd : cs.dropWhile isSpace = ds
  -- the front of `ds` is not white space, and cutting its end keeps that
  have hfront : (ds.rdropWhile isSpace).dropWhile isSpace = ds.rdropWhile isSpace := by
    rw [List.dropWhile_eq_self_iff]
    intro hl
    have hne : ds.rdropWhile isSpace ≠ [] := List.length_pos_iff.mp hl
    have hpre := List.rdropWhile_prefix isSpace ds
    have hds : ds ≠ [] := fun h => hne (by simp [h])
    have hhead : (ds.rdropWhile isSpace)[0] = ds.head hds := by
      rw [← List.head_eq_getElem hne, hpre.head hne]
    rw [hhead]
    subst hd
    simpa using List.head_dropWhile_not isSpace hds
  rw [hfront, List.rdropWhile_idempotent]

theorem strip_strip (s : String) : strip (strip s) = strip s := by
  simp [strip, stripChars_stripChars]

theorem strip_eq_self {s : String} (hhead : ∀ c ∈ s.toList.head?, isSpace c = false)
    (hlast : ∀ c ∈ s.toList.getLast?, isSpace c = false) : strip s = s := by
  rw [strip, stripChars_eq_self hhead hlast, String.ofList_toList]

/-- A text without white space is its own `strip`. -/
theorem strip_of_forall {s : String} (h : ∀ c ∈ s.toList, isSpace c = false) : strip s = s :=
  strip_eq_self (fun c hc => h c (List.mem_of_mem_head? hc))
    fun c hc => h c (List.mem_of_mem_getLast? hc)

theorem not_isSpace_of_isHex {c : Char} (h : isHex c = true) : isSpace c = false := by
  simp only [isHex, isLowerHex, Char.isDigit, Bool.or_eq_true, Bool.and_eq_true,
    decide_eq_true_eq, Char.le_def, UInt32.le_iff_toNat_le, ge_iff_le] at h
  simp only [isSpace, Char.toNat, Bool.or_eq_false_iff, Bool.and_eq_false_iff,
    decide_eq_false_iff_not, beq_eq_false_iff_ne]
  have h0 : ('0' : Char).val.toNat = 48 := rfl
  have h9 : ('9' : Char).val.toNat = 57 := rfl
  have ha : ('a' : Char).val.toNat = 97 := rfl
  have hf : ('f' : Char).val.toNat = 102 := rfl
  have hA : ('A' : Char).val.toNat = 65 := rfl
  have hF : ('F' : Char).val.toNat = 70 := rfl
  omega

/-- A character is one of the 26 upper-case letters, or its own lower case. -/
theorem upper_or_toLower (c : Char) :
    (∃ n, 65 ≤ n ∧ n ≤ 90 ∧ c = Char.ofNat n) ∨ c.toLower = c := by
  by_cases hup : c.isUpper = true
  · have hrange : 65 ≤ c.toNat ∧ c.toNat ≤ 90 := by
      have hA : ('A' : Char).toNat = 65 := rfl
      have hZ : ('Z' : Char).toNat = 90 := rfl
      simp only [Char.isUpper, decide_eq_true_eq, ge_iff_le, UInt32.le_iff_toNat_le] at hup
      simp only [← Char.toNat_val] at *
      omega
    exact Or.inl ⟨c.toNat, hrange.1, hrange.2, (Char.ofNat_toNat c).symm⟩
  · have hrange : ¬(c.val ≥ 'A'.val ∧ c.val ≤ 'Z'.val) := by
      rwa [Char.isUpper, decide_eq_true_eq] at hup
    exact Or.inr (dif_neg hrange)

theorem isSpace_toLower (c : Char) : isSpace c.toLower = isSpace c := by
  obtain ⟨n, hlow, hn, rfl⟩ | hsame := upper_or_toLower c
  · revert hlow
    revert n
    decide
  · rw [hsame]

theorem toLower_toLower (c : Char) : c.toLower.toLower = c.toLower := by
  obtain ⟨n, hlow, hn, rfl⟩ | hsame := upper_or_toLower c
  · revert hlow
    revert n
    decide
  · rw [hsame, hsame]

theorem lower_toLower (s : String) : s.toLower.toLower = s.toLower := by
  rw [← String.toList_inj]
  simp [String.toLower, toLower_toLower]

theorem strip_toLower (s : String) : strip s.toLower = (strip s).toLower := by
  have hspace : isSpace ∘ Char.toLower = isSpace := funext isSpace_toLower
  rw [← String.toList_inj]
  simp [strip, stripChars, String.toLower, List.dropWhile_map, List.rdropWhile, hspace,
    ← List.map_reverse]

end Python
