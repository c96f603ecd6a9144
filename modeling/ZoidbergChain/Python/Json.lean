import ZoidbergChain.Python.Value

/-!
# Compact JSON

`json.dumps(value, sort_keys=True, separators=(",", ":"))`.

- `sortKeys` puts the entries of every object in the order of their keys and
  `render` writes the text; `dumps` is their composition.
- `render_inj`: the text of a value without floats and bytes determines the value.
  The proof is by structural recursion; a text is followed either by nothing or by
  a delimiter (`Stops`), so that numbers are delimited and the rest can be
  compared.
-/

namespace Python.Json

/-! ## Text -/

/-- A number below 65536 as four hexadecimal digits. -/
def hex4 (n : Nat) : List Char :=
  [n / 4096, n / 256, n / 16, n].map fun d => Nat.digitChar (d % 16)

/-- A character inside a string literal. With `ensureAscii` everything outside
printable ASCII is written as UTF-16 code units. -/
def escapeChar (ensureAscii : Bool) (c : Char) : List Char :=
  if c = '"' then ['\\', '"']
  else if c = '\\' then ['\\', '\\']
  else if c = '\n' then ['\\', 'n']
  else if c = '\r' then ['\\', 'r']
  else if c = '\t' then ['\\', 't']
  else if c.toNat = 8 then ['\\', 'b']
  else if c.toNat = 12 then ['\\', 'f']
  else if c.toNat < 32 then '\\' :: 'u' :: hex4 c.toNat
  else if ensureAscii ∧ 126 < c.toNat then
    if c.toNat < 65536 then '\\' :: 'u' :: hex4 c.toNat
    else
      let n := c.toNat - 65536
      '\\' :: 'u' :: hex4 (55296 + n / 1024) ++ '\\' :: 'u' :: hex4 (56320 + n % 1024)
  else [c]

/-- The rest of a string literal behind its opening quote. -/
def renderChars (ensureAscii : Bool) (cs : List Char) : List Char :=
  cs.flatMap (escapeChar ensureAscii) ++ ['"']

/-- The text of an integer. -/
def renderInt (n : Int) : List Char :=
  if n < 0 then '-' :: Nat.toDigits 10 n.natAbs else Nat.toDigits 10 n.natAbs

/-- The text of a float: `float.__repr__`, with the names JSON readers use for the
special values. -/
def renderFloat : PyFloat → List Char
  | .nan => "NaN".toList
  | .inf neg => if neg then "-Infinity".toList else "Infinity".toList
  | .finite x => (PyFloat.finite x).text.toList

mutual

/-- The text of a value; `bytes` has none (`dumps` rejects it). -/
def render (ensureAscii : Bool) : Value → List Char
  | .null => "null".toList
  | .bool b => if b then "true".toList else "false".toList
  | .int n => renderInt n
  | .float f => renderFloat f
  | .str s => '"' :: renderChars ensureAscii s.toList
  | .bytes _ => []
  | .list [] => ['[', ']']
  | .list (x :: xs) => '[' :: render ensureAscii x ++ renderItems ensureAscii xs
  | .dict [] => ['{', '}']
  | .dict ((k, v) :: es) =>
    '{' :: '"' :: renderChars ensureAscii k.toList ++
      (':' :: render ensureAscii v ++ renderEntries ensureAscii es)

/-- The items of an array behind the first one, and its closing bracket. -/
def renderItems (ensureAscii : Bool) : List Value → List Char
  | [] => [']']
  | x :: xs => ',' :: render ensureAscii x ++ renderItems ensureAscii xs

/-- The entries of an object behind the first one, and its closing brace. -/
def renderEntries (ensureAscii : Bool) : List (String × Value) → List Char
  | [] => ['}']
  | (k, v) :: es =>
    ',' :: '"' :: renderChars ensureAscii k.toList ++
      (':' :: render ensureAscii v ++ renderEntries ensureAscii es)

end

/-- Entries in the order of their keys. -/
def sortEntries (es : List (String × Value)) : List (String × Value) :=
  es.insertionSort fun a b => a.1 ≤ b.1

mutual

/-- `sort_keys=True`, at every depth. -/
def sortKeys : Value → Value
  | .list xs => .list (sortItems xs)
  | .dict es => .dict (sortEntries (sortChildren es))
  | .null => .null
  | .bool b => .bool b
  | .int n => .int n
  | .float f => .float f
  | .str s => .str s
  | .bytes b => .bytes b

def sortItems : List Value → List Value
  | [] => []
  | x :: xs => sortKeys x :: sortItems xs

def sortChildren : List (String × Value) → List (String × Value)
  | [] => []
  | (k, v) :: es => (k, sortKeys v) :: sortChildren es

end

mutual

/-- The value holds no `bytes`. -/
def serializable : Value → Bool
  | .bytes _ => false
  | .list xs => serializableItems xs
  | .dict es => serializableEntries es
  | _ => true

def serializableItems : List Value → Bool
  | [] => true
  | x :: xs => serializable x && serializableItems xs

def serializableEntries : List (String × Value) → Bool
  | [] => true
  | (_, v) :: es => serializable v && serializableEntries es

end

/-- `json.dumps(v, sort_keys=True, separators=(",", ":"), ensure_ascii=...)`. -/
def dumps (ensureAscii : Bool) (v : Value) : Py String :=
  if serializable v then .ok (String.ofList (render ensureAscii (sortKeys v)))
  else .error (.type "Object of type bytes is not JSON serializable")

/-! ## The text determines the value -/

mutual

/-- A value without floats and bytes. -/
def Plain : Value → Prop
  | .float _ => False
  | .bytes _ => False
  | .list xs => PlainItems xs
  | .dict es => PlainEntries es
  | _ => True

def PlainItems : List Value → Prop
  | [] => True
  | x :: xs => Plain x ∧ PlainItems xs

def PlainEntries : List (String × Value) → Prop
  | [] => True
  | (_, v) :: es => Plain v ∧ PlainEntries es

end

/-- What follows a value in a document: nothing, or a delimiter. -/
def Stops (r : List Char) : Prop := ∀ c ∈ r.head?, c = ',' ∨ c = ']' ∨ c = '}'

/-- What a character becomes when only the control characters are escaped. -/
theorem escapeChar_cases {P : Char → List Char → Prop} (c : Char) (hquote : P '"' ['\\', '"'])
    (hslash : P '\\' ['\\', '\\']) (hline : P '\n' ['\\', 'n']) (hreturn : P '\r' ['\\', 'r'])
    (htab : P '\t' ['\\', 't']) (hback : P (Char.ofNat 8) ['\\', 'b'])
    (hfeed : P (Char.ofNat 12) ['\\', 'f'])
    (hcontrol : ∀ c : Char, c.toNat < 32 → P c ('\\' :: 'u' :: hex4 c.toNat))
    (hplain : ∀ c : Char, c ≠ '"' → c ≠ '\\' → ¬c.toNat < 32 → P c [c]) :
    P c (escapeChar false c) := by
  by_cases h : c = '"'
  · exact h ▸ hquote
  by_cases h' : c = '\\'
  · exact h' ▸ hslash
  by_cases hn : c = '\n'
  · exact hn ▸ hline
  by_cases hr : c = '\r'
  · exact hr ▸ hreturn
  by_cases ht : c = '\t'
  · exact ht ▸ htab
  rw [escapeChar, if_neg h, if_neg h', if_neg hn, if_neg hr, if_neg ht]
  by_cases hb : c.toNat = 8
  · rw [if_pos hb, ← Char.ofNat_toNat c, hb]
    exact hback
  by_cases hf : c.toNat = 12
  · rw [if_neg hb, if_pos hf, ← Char.ofNat_toNat c, hf]
    exact hfeed
  rw [if_neg hb, if_neg hf]
  by_cases hc : c.toNat < 32
  · rw [if_pos hc]
    exact hcontrol c hc
  · rw [if_neg hc, if_neg fun hfalse => Bool.false_ne_true hfalse.1]
    exact hplain c h h' hc

/-- The control character of an escape letter. -/
def unescapeLetter : Char → Option Char
  | '"' => some '"'
  | '\\' => some '\\'
  | 'n' => some '\n'
  | 'r' => some '\r'
  | 't' => some '\t'
  | 'b' => some (Char.ofNat 8)
  | 'f' => some (Char.ofNat 12)
  | _ => none

/-- The value of a hexadecimal digit. -/
def hexValue (c : Char) : Nat := if c.isDigit then c.toNat - 48 else c.toNat - 87

/-- Read the first character of the body of a string literal. -/
def unescape : List Char → Option (Char × List Char)
  | '\\' :: 'u' :: _ :: _ :: h :: l :: r => some (Char.ofNat (16 * hexValue h + hexValue l), r)
  | '\\' :: c :: r => (unescapeLetter c).map (·, r)
  | c :: r => if c = '"' then none else some (c, r)
  | [] => none

theorem unescape_escapeChar (c : Char) (r : List Char) :
    unescape (escapeChar false c ++ r) = some (c, r) := by
  refine escapeChar_cases (P := fun c cs => unescape (cs ++ r) = some (c, r)) c rfl rfl rfl rfl rfl
    rfl rfl (fun c hc => ?_) fun c hquote hback hc => ?_
  · -- a control character: its two low digits give it back
    obtain ⟨n, hn, rfl⟩ : ∃ n, n < 32 ∧ c = Char.ofNat n :=
      ⟨c.toNat, hc, (Char.ofNat_toNat c).symm⟩
    have hread : ∀ n < 32,
      Char.ofNat (16 * hexValue (Nat.digitChar ((Char.ofNat n).toNat / 16 % 16))
        + hexValue (Nat.digitChar ((Char.ofNat n).toNat % 16))) = Char.ofNat n := by decide
    simp only [hex4, List.map_cons, List.map_nil, List.cons_append, List.nil_append, unescape,
      hread n hn]
  · rw [List.cons_append, List.nil_append, unescape.eq_def]
    split
    · next h => exact absurd (List.cons.inj h).1 hback
    · next h => exact absurd (List.cons.inj h).1 hback
    · next h =>
      obtain ⟨rfl, rfl⟩ := List.cons.inj h
      rw [if_neg hquote]
    · next h => cases h

theorem unescape_quote (r : List Char) : unescape ('"' :: r) = none := rfl

theorem renderChars_inj {cs ds r s : List Char}
    (h : renderChars false cs ++ r = renderChars false ds ++ s) : cs = ds ∧ r = s := by
  induction cs generalizing ds with
  | nil =>
    cases ds with
    | nil => exact ⟨rfl, by simpa [renderChars] using h⟩
    | cons d ds =>
      have hread := congrArg unescape h
      simp only [renderChars, List.flatMap_nil, List.nil_append, List.cons_append,
        List.flatMap_cons, List.append_assoc, unescape_escapeChar, unescape_quote] at hread
      cases hread
  | cons c cs ih =>
    cases ds with
    | nil =>
      have hread := congrArg unescape h
      simp only [renderChars, List.flatMap_nil, List.nil_append, List.cons_append,
        List.flatMap_cons, List.append_assoc, unescape_escapeChar, unescape_quote] at hread
      cases hread
    | cons d ds =>
      have hread := congrArg unescape h
      simp only [renderChars, List.flatMap_cons, List.append_assoc, unescape_escapeChar,
        Option.some.injEq, Prod.mk.injEq] at hread
      obtain ⟨rfl, hrest⟩ := hread
      obtain ⟨rfl, hr⟩ := @ih ds (by simpa [renderChars] using hrest)
      exact ⟨rfl, hr⟩

theorem takeWhile_digits {ds r : List Char} (hds : ∀ c ∈ ds, c.isDigit = true) (hr : Stops r) :
    (ds ++ r).takeWhile Char.isDigit = ds := by
  rw [List.takeWhile_append_of_pos hds]
  have hnone : r.takeWhile Char.isDigit = [] := by
    cases r with
    | nil => rfl
    | cons c r => rcases hr c (by simp) with rfl | rfl | rfl <;> rfl
  rw [hnone, List.append_nil]

theorem toDigits_inj {m n : Nat} {r s : List Char} (hr : Stops r) (hs : Stops s)
    (h : Nat.toDigits 10 m ++ r = Nat.toDigits 10 n ++ s) : m = n ∧ r = s := by
  have hdigits : ∀ k, ∀ c ∈ Nat.toDigits 10 k, c.isDigit = true := fun k c hc =>
    Nat.isDigit_of_mem_toDigits (by decide) (by decide) hc
  have heq : Nat.toDigits 10 m = Nat.toDigits 10 n := by
    rw [← takeWhile_digits (hdigits m) hr, h, takeWhile_digits (hdigits n) hs]
  refine ⟨?_, by rw [heq] at h; exact List.append_cancel_left h⟩
  rw [← Nat.ofDigitChars_ten_toDigits (n := m), heq, Nat.ofDigitChars_ten_toDigits]

/-- A digit or a minus sign starts no other text. -/
theorem renderInt_head (n : Int) : ∃ c t, renderInt n = c :: t ∧ (c = '-' ∨ c.isDigit = true) := by
  unfold renderInt
  split
  · exact ⟨_, _, rfl, Or.inl rfl⟩
  · cases h : Nat.toDigits 10 n.natAbs with
    | nil => exact absurd h Nat.toDigits_ne_nil
    | cons c t =>
      exact ⟨c, t, rfl, Or.inr (Nat.isDigit_of_mem_toDigits (b := 10) (n := n.natAbs)
        (by decide) (by decide) (by rw [h]; simp))⟩

theorem renderInt_inj {m n : Int} {r s : List Char} (hr : Stops r) (hs : Stops s)
    (h : renderInt m ++ r = renderInt n ++ s) : m = n ∧ r = s := by
  have hminus : ∀ (k : Nat) (t u : List Char), '-' :: t ≠ Nat.toDigits 10 k ++ u := by
    intro k t u heq
    cases hk : Nat.toDigits 10 k with
    | nil => exact Nat.toDigits_ne_nil hk
    | cons c cs =>
      rw [hk] at heq
      have hc : c.isDigit = true := Nat.isDigit_of_mem_toDigits (b := 10) (n := k)
        (by decide) (by decide) (by rw [hk]; simp)
      rw [← (List.cons.inj heq).1] at hc
      exact absurd hc (by decide)
  unfold renderInt at h
  split at h
  · split at h
    · obtain ⟨habs, hrest⟩ := toDigits_inj hr hs (List.cons.inj h).2
      exact ⟨by omega, hrest⟩
    · exact absurd h (hminus _ _ _)
  · split at h
    · exact absurd h.symm (hminus _ _ _)
    · obtain ⟨habs, hrest⟩ := toDigits_inj hr hs h
      exact ⟨by omega, hrest⟩

/-- The kind of a value, and the kind that the first character of a text tells. -/
def kind : Value → Nat
  | .null => 0
  | .bool true => 1
  | .bool false => 2
  | .int _ => 3
  | .str _ => 4
  | .list _ => 5
  | .dict _ => 6
  | _ => 7

def headKind (c : Char) : Nat :=
  if c = 'n' then 0 else if c = 't' then 1 else if c = 'f' then 2
  else if c = '"' then 4 else if c = '[' then 5 else if c = '{' then 6
  else if c = '-' ∨ c.isDigit then 3 else 8

theorem kind_lt (v : Value) : kind v < 8 := by
  cases v with
  | bool b => cases b <;> decide
  | _ => simp [kind]

theorem render_head {v : Value} (hv : Plain v) :
    ∃ c t, render false v = c :: t ∧ headKind c = kind v := by
  cases v with
  | null => exact ⟨_, _, rfl, rfl⟩
  | bool b => cases b <;> exact ⟨_, _, rfl, rfl⟩
  | int n =>
    obtain ⟨c, t, hn, hc⟩ := renderInt_head n
    refine ⟨c, t, by rw [render, hn], ?_⟩
    have hne : ∀ d ∈ ['n', 't', 'f', '"', '[', '{'], c ≠ d := by
      rintro d hd rfl
      rcases hc with rfl | hc
      · revert hd; decide
      · simp only [List.mem_cons, List.not_mem_nil, or_false] at hd
        rcases hd with rfl | rfl | rfl | rfl | rfl | rfl <;> exact absurd hc (by decide)
    simp only [List.mem_cons, List.not_mem_nil, or_false, forall_eq_or_imp, forall_eq] at hne
    have hcb : c = '-' ∨ c.isDigit = true := hc
    simp [headKind, kind, hne, hcb]
  | float f => exact hv.elim
  | str s => exact ⟨_, _, by rw [render], rfl⟩
  | bytes b => exact hv.elim
  | list xs => cases xs <;> exact ⟨_, _, by simp only [render, List.cons_append]; rfl, rfl⟩
  | dict es => cases es <;> exact ⟨_, _, by simp only [render, List.cons_append]; rfl, rfl⟩

/-- No text starts with a closing bracket. -/
theorem render_ne_close {v : Value} (hv : Plain v) {t : List Char} :
    render false v ≠ ']' :: t := by
  intro heq
  obtain ⟨c, u, hc, hk⟩ := render_head hv
  rw [heq, List.cons.injEq] at hc
  have hlt := kind_lt v
  rw [← hk, ← hc.1] at hlt
  exact absurd hlt (by decide)

theorem kind_eq_of_render {a b : Value} {r s : List Char} (ha : Plain a) (hb : Plain b)
    (h : render false a ++ r = render false b ++ s) : kind a = kind b := by
  obtain ⟨c, t, hc, hkc⟩ := render_head ha
  obtain ⟨d, u, hd, hkd⟩ := render_head hb
  rw [hc, hd, List.cons_append, List.cons_append] at h
  rw [← hkc, ← hkd, (List.cons.inj h).1]

theorem stops_items (xs : List Value) (r : List Char) : Stops (renderItems false xs ++ r) := by
  cases xs with
  | nil =>
    intro c hc
    obtain rfl : ']' = c := by simpa [renderItems] using hc
    simp
  | cons x xs =>
    intro c hc
    obtain rfl : ',' = c := by simpa [renderItems] using hc
    simp

theorem stops_entries (es : List (String × Value)) (r : List Char) :
    Stops (renderEntries false es ++ r) := by
  cases es with
  | nil =>
    intro c hc
    obtain rfl : '}' = c := by simpa [renderEntries] using hc
    simp
  | cons e es =>
    intro c hc
    obtain rfl : ',' = c := by simpa [renderEntries] using hc
    simp

mutual

/-- The text of a value, up to where it stops, determines the value. -/
theorem render_inj : ∀ (a b : Value) (r s : List Char), Plain a → Plain b → Stops r → Stops s →
    render false a ++ r = render false b ++ s → a = b ∧ r = s
  | .null, b, r, s, ha, hb, _, _, h => by
    have hk := kind_eq_of_render ha hb h
    cases b with
    | null => exact ⟨rfl, List.append_cancel_left h⟩
    | bool b => cases b <;> cases hk
    | float _ => exact hb.elim
    | bytes _ => exact hb.elim
    | _ => cases hk
  | .bool x, b, r, s, ha, hb, _, _, h => by
    have hk := kind_eq_of_render ha hb h
    cases b with
    | bool y =>
      cases x <;> cases y <;>
        first
        | exact ⟨rfl, List.append_cancel_left h⟩
        | cases hk
    | float _ => exact hb.elim
    | bytes _ => exact hb.elim
    | _ => cases x <;> cases hk
  | .int m, b, r, s, ha, hb, hr, hs, h => by
    have hk := kind_eq_of_render ha hb h
    cases b with
    | int n =>
      rw [render, render] at h
      obtain ⟨rfl, hrest⟩ := renderInt_inj hr hs h
      exact ⟨rfl, hrest⟩
    | bool b => cases b <;> cases hk
    | float _ => exact hb.elim
    | bytes _ => exact hb.elim
    | _ => cases hk
  | .float _, _, _, _, ha, _, _, _, _ => ha.elim
  | .bytes _, _, _, _, ha, _, _, _, _ => ha.elim
  | .str x, b, r, s, ha, hb, _, _, h => by
    have hk := kind_eq_of_render ha hb h
    cases b with
    | str y =>
      rw [render, render] at h
      obtain ⟨hxy, hrest⟩ := renderChars_inj (List.cons.inj h).2
      exact ⟨congrArg Value.str (String.toList_inj.mp hxy), hrest⟩
    | bool b => cases b <;> cases hk
    | float _ => exact hb.elim
    | bytes _ => exact hb.elim
    | _ => cases hk
  | .list xs, b, r, s, ha, hb, hr, hs, h => by
    have hk := kind_eq_of_render ha hb h
    cases b with
    | list ys =>
      cases xs with
      | nil =>
        cases ys with
        | nil => exact ⟨rfl, by simpa [render] using h⟩
        | cons y ys =>
          simp only [render, List.cons_append, List.nil_append, List.append_assoc,
            List.cons.injEq, true_and] at h
          obtain ⟨c, t, hc, -⟩ := render_head hb.1
          rw [hc, List.cons_append, List.cons.injEq] at h
          exact absurd (h.1 ▸ hc) (render_ne_close hb.1)
      | cons x xs =>
        cases ys with
        | nil =>
          simp only [render, List.cons_append, List.nil_append, List.append_assoc,
            List.cons.injEq, true_and] at h
          obtain ⟨c, t, hc, -⟩ := render_head ha.1
          rw [hc, List.cons_append, List.cons.injEq] at h
          exact absurd (h.1 ▸ hc) (render_ne_close ha.1)
        | cons y ys =>
          simp only [render, List.cons_append, List.append_assoc, List.cons.injEq, true_and] at h
          obtain ⟨rfl, hitems⟩ := render_inj x y _ _ ha.1 hb.1 (stops_items xs r)
            (stops_items ys s) h
          obtain ⟨rfl, hrest⟩ := renderItems_inj xs ys r s ha.2 hb.2 hitems
          exact ⟨rfl, hrest⟩
    | bool b => cases b <;> cases hk
    | float _ => exact hb.elim
    | bytes _ => exact hb.elim
    | _ => cases hk
  | .dict es, b, r, s, ha, hb, hr, hs, h => by
    have hk := kind_eq_of_render ha hb h
    cases b with
    | dict fs =>
      cases es with
      | nil =>
        cases fs with
        | nil => exact ⟨rfl, by simpa [render] using h⟩
        | cons f fs =>
          simp only [render, List.cons_append, List.nil_append, List.cons.injEq, true_and] at h
          exact absurd h.1 (by decide)
      | cons e es =>
        cases fs with
        | nil =>
          simp only [render, List.cons_append, List.nil_append, List.cons.injEq, true_and] at h
          exact absurd h.1 (by decide)
        | cons f fs =>
          obtain ⟨k, v⟩ := e
          obtain ⟨l, w⟩ := f
          simp only [render, List.cons_append, List.append_assoc, List.cons.injEq, true_and] at h
          obtain ⟨hkl, hvalue⟩ := renderChars_inj h
          obtain rfl := String.toList_inj.mp hkl
          obtain ⟨rfl, hentries⟩ := render_inj v w _ _ ha.1 hb.1 (stops_entries es r)
            (stops_entries fs s) (List.cons.inj hvalue).2
          obtain ⟨rfl, hrest⟩ := renderEntries_inj es fs r s ha.2 hb.2 hentries
          exact ⟨rfl, hrest⟩
    | bool b => cases b <;> cases hk
    | float _ => exact hb.elim
    | bytes _ => exact hb.elim
    | _ => cases hk

theorem renderItems_inj : ∀ (xs ys : List Value) (r s : List Char), PlainItems xs →
    PlainItems ys → renderItems false xs ++ r = renderItems false ys ++ s → xs = ys ∧ r = s
  | [], [], r, s, _, _, h => ⟨rfl, by simpa [renderItems] using h⟩
  | [], y :: ys, r, s, _, _, h => by
    simp only [renderItems, List.cons_append, List.nil_append, List.cons.injEq] at h
    exact absurd h.1 (by decide)
  | x :: xs, [], r, s, _, _, h => by
    simp only [renderItems, List.cons_append, List.nil_append, List.cons.injEq] at h
    exact absurd h.1 (by decide)
  | x :: xs, y :: ys, r, s, hx, hy, h => by
    simp only [renderItems, List.cons_append, List.append_assoc, List.cons.injEq, true_and] at h
    obtain ⟨rfl, hitems⟩ := render_inj x y _ _ hx.1 hy.1 (stops_items xs r) (stops_items ys s) h
    obtain ⟨rfl, hrest⟩ := renderItems_inj xs ys r s hx.2 hy.2 hitems
    exact ⟨rfl, hrest⟩

theorem renderEntries_inj : ∀ (es fs : List (String × Value)) (r s : List Char),
    PlainEntries es → PlainEntries fs →
    renderEntries false es ++ r = renderEntries false fs ++ s → es = fs ∧ r = s
  | [], [], r, s, _, _, h => ⟨rfl, by simpa [renderEntries] using h⟩
  | [], f :: fs, r, s, _, _, h => by
    simp only [renderEntries, List.cons_append, List.nil_append, List.cons.injEq] at h
    exact absurd h.1 (by decide)
  | e :: es, [], r, s, _, _, h => by
    simp only [renderEntries, List.cons_append, List.nil_append, List.cons.injEq] at h
    exact absurd h.1 (by decide)
  | (k, v) :: es, (l, w) :: fs, r, s, he, hf, h => by
    simp only [renderEntries, List.cons_append, List.append_assoc, List.cons.injEq,
      true_and] at h
    obtain ⟨hkl, hvalue⟩ := renderChars_inj h
    obtain rfl := String.toList_inj.mp hkl
    obtain ⟨rfl, hentries⟩ := render_inj v w _ _ he.1 hf.1 (stops_entries es r)
      (stops_entries fs s) (List.cons.inj hvalue).2
    obtain ⟨rfl, hrest⟩ := renderEntries_inj es fs r s he.2 hf.2 hentries
    exact ⟨rfl, hrest⟩

end

end Python.Json
