import ZoidbergChain.Python.Json

/-!
# Reading JSON

`json.loads` of a text, with hooks: what reads an integer, what the entries of an object
become, and what is raised for other numbers and for malformed text.

- `readValue` reads one value behind white space, `loads` a document.
- `loads_render`: the text that `render` writes is read back, for the values that the hooks
  accept (`Reads`).

The reader takes fuel: every call consumes a character, so that the length of the text is
enough. A lone surrogate, which a Python `str` can hold and no text here, raises at once.
-/

namespace Python.Json

/-- What `json.loads` is called with. -/
structure Hooks where
  /-- `parse_int`. -/
  integer : List Char → Py Int
  /-- What `parse_float` and `parse_constant` raise. -/
  forbidden : PyError
  /-- `object_pairs_hook`. -/
  pairs : List (String × Value) → Py Dict
  /-- What malformed text ends in. -/
  malformed : PyError
  /-- What a lone surrogate ends in. -/
  surrogate : PyError

/-! ## The reader -/

/-- White space between tokens. -/
def isSpace (c : Char) : Bool := c == ' ' || c == '\t' || c == '\n' || c == '\r'

def skipSpace (cs : List Char) : List Char := cs.dropWhile isSpace

def isHexDigit (c : Char) : Bool :=
  c.isDigit || ('a' ≤ c && c ≤ 'f') || ('A' ≤ c && c ≤ 'F')

/-- The value of a hexadecimal digit of either case. -/
def hexDigit (c : Char) : Nat :=
  if c.isDigit then c.toNat - 48 else if c ≤ 'F' then c.toNat - 55 else c.toNat - 87

/-- The value of four hexadecimal digits. -/
def hexUnit (a b c d : Char) : Option Nat :=
  if [a, b, c, d].all isHexDigit then
    some (((hexDigit a * 16 + hexDigit b) * 16 + hexDigit c) * 16 + hexDigit d)
  else none

/-- The character of an escape letter. -/
def escapeLetter : Char → Option Char
  | '"' => some '"'
  | '\\' => some '\\'
  | '/' => some '/'
  | 'b' => some (Char.ofNat 8)
  | 'f' => some (Char.ofNat 12)
  | 'n' => some '\n'
  | 'r' => some '\r'
  | 't' => some '\t'
  | _ => none

/-- One character of a string literal, and what follows it. -/
def readChar (h : Hooks) : List Char → Py (Char × List Char)
  | '\\' :: 'u' :: a :: b :: c :: d :: r =>
    match hexUnit a b c d with
    | none => .error h.malformed
    | some n =>
      if 0xD800 ≤ n ∧ n < 0xE000 then
        match r with
        | '\\' :: 'u' :: e :: f :: g :: k :: r' =>
          match hexUnit e f g k with
          | some m =>
            if n < 0xDC00 ∧ 0xDC00 ≤ m ∧ m < 0xE000 then
              .ok (Char.ofNat (0x10000 + (n - 0xD800) * 0x400 + (m - 0xDC00)), r')
            else .error h.surrogate
          | none => .error h.malformed
        | _ => .error h.surrogate
      else .ok (Char.ofNat n, r)
  | '\\' :: c :: r =>
    match escapeLetter c with
    | some d => .ok (d, r)
    | none => .error h.malformed
  | c :: r => if c.toNat < 32 then .error h.malformed else .ok (c, r)
  | [] => .error h.malformed

/-- The rest of a string literal behind its opening quote, and what follows it. -/
def readChars (h : Hooks) : Nat → List Char → Py (List Char × List Char)
  | 0, _ => .error h.malformed
  | fuel + 1, cs =>
    match cs with
    | '"' :: r => .ok ([], r)
    | _ => do
      let (c, r) ← readChar h cs
      let (more, r) ← readChars h fuel r
      .ok (c :: more, r)

/-- The text starts a fraction or an exponent. -/
def isFraction : List Char → Bool
  | '.' :: c :: _ => c.isDigit
  | 'e' :: '+' :: c :: _ | 'e' :: '-' :: c :: _ | 'E' :: '+' :: c :: _ | 'E' :: '-' :: c :: _ =>
    c.isDigit
  | 'e' :: c :: _ | 'E' :: c :: _ => c.isDigit
  | _ => false

/-- The digits that a number has before its fraction: a zero stands alone. -/
def wholeDigits : List Char → List Char
  | '0' :: _ => ['0']
  | cs => cs.takeWhile Char.isDigit

/-- A number. -/
def readNumber (h : Hooks) (cs : List Char) : Py (Value × List Char) :=
  let sign := if cs.head? = some '-' then ['-'] else []
  let digits := wholeDigits (cs.drop sign.length)
  let rest := cs.drop (sign.length + digits.length)
  if digits = [] then .error h.malformed
  else if isFraction rest then .error h.forbidden
  else do
    let n ← h.integer (sign ++ digits)
    .ok (.int n, rest)

/-- The rest of the text behind a literal. -/
def afterLiteral (literal : String) (cs : List Char) : Option (List Char) :=
  if literal.toList.isPrefixOf cs then some (cs.drop literal.length) else none

/-- A literal name or a number. -/
def readAtom (h : Hooks) (cs : List Char) : Py (Value × List Char) :=
  match afterLiteral "null" cs, afterLiteral "true" cs, afterLiteral "false" cs with
  | some r, _, _ => .ok (.null, r)
  | _, some r, _ => .ok (.bool true, r)
  | _, _, some r => .ok (.bool false, r)
  | _, _, _ =>
    if ["NaN", "Infinity", "-Infinity"].any fun name => (afterLiteral name cs).isSome then
      .error h.forbidden
    else readNumber h cs

/-- The text behind a colon and the white space around it. -/
def afterColon (h : Hooks) (cs : List Char) : Py (List Char) :=
  match skipSpace cs with
  | ':' :: r => .ok (skipSpace r)
  | _ => .error h.malformed

mutual

/-- A value, and what follows it. -/
def readValue (h : Hooks) : Nat → List Char → Py (Value × List Char)
  | 0, _ => .error h.malformed
  | fuel + 1, cs =>
    match cs with
    | '"' :: r => do
      let (s, r) ← readChars h (r.length + 1) r
      .ok (.str (String.ofList s), r)
    | '[' :: r =>
      match skipSpace r with
      | ']' :: r => .ok (.list [], r)
      | r => do
        let (x, r) ← readValue h fuel r
        let (xs, r) ← readItems h fuel (skipSpace r)
        .ok (.list (x :: xs), r)
    | '{' :: r =>
      match skipSpace r with
      | '}' :: r => do
        let d ← h.pairs []
        .ok (.dict d, r)
      | '"' :: r => do
        let (k, r) ← readChars h (r.length + 1) r
        let r ← afterColon h r
        let (v, r) ← readValue h fuel r
        let (es, r) ← readEntries h fuel (skipSpace r)
        let d ← h.pairs ((String.ofList k, v) :: es)
        .ok (.dict d, r)
      | _ => .error h.malformed
    | cs => readAtom h cs

/-- The items of an array behind the first one, and what follows its closing bracket. -/
def readItems (h : Hooks) : Nat → List Char → Py (List Value × List Char)
  | 0, _ => .error h.malformed
  | fuel + 1, cs =>
    match cs with
    | ']' :: r => .ok ([], r)
    | ',' :: r => do
      let (x, r) ← readValue h fuel (skipSpace r)
      let (xs, r) ← readItems h fuel (skipSpace r)
      .ok (x :: xs, r)
    | _ => .error h.malformed

/-- The entries of an object behind the first one, and what follows its closing brace. -/
def readEntries (h : Hooks) : Nat → List Char → Py (List (String × Value) × List Char)
  | 0, _ => .error h.malformed
  | fuel + 1, cs =>
    match cs with
    | '}' :: r => .ok ([], r)
    | ',' :: r =>
      match skipSpace r with
      | '"' :: r => do
        let (k, r) ← readChars h (r.length + 1) r
        let r ← afterColon h r
        let (v, r) ← readValue h fuel r
        let (es, r) ← readEntries h fuel (skipSpace r)
        .ok ((String.ofList k, v) :: es, r)
      | _ => .error h.malformed
    | _ => .error h.malformed

end

/-- `json.loads(text, ...)`. -/
def loads (h : Hooks) (text : String) : Py Value := do
  let cs := skipSpace text.toList
  let (v, rest) ← readValue h (cs.length + 1) cs
  if skipSpace rest = [] then .ok v else .error h.malformed

/-! ## Reading what has been written -/

variable {h : Hooks}

theorem readChar_escapeChar (c : Char) (r : List Char) :
    readChar h (escapeChar false c ++ r) = .ok (c, r) := by
  refine escapeChar_cases (P := fun c cs => readChar h (cs ++ r) = .ok (c, r)) c rfl rfl rfl rfl rfl
    rfl rfl (fun c hc => ?_) fun c _ hback hc => ?_
  · -- a control character: its four digits give it back
    obtain ⟨n, hn, rfl⟩ : ∃ n, n < 32 ∧ c = Char.ofNat n :=
      ⟨c.toNat, hc, (Char.ofNat_toNat c).symm⟩
    have hread : ∀ n < 32, hexUnit (Nat.digitChar ((Char.ofNat n).toNat / 4096 % 16))
        (Nat.digitChar ((Char.ofNat n).toNat / 256 % 16))
        (Nat.digitChar ((Char.ofNat n).toNat / 16 % 16))
        (Nat.digitChar ((Char.ofNat n).toNat % 16)) = some n := by decide
    have hsmall : ¬(0xD800 ≤ n ∧ n < 0xE000) := by omega
    simp only [hex4, List.map_cons, List.map_nil, List.cons_append, List.nil_append, readChar,
      hread n hn, if_neg hsmall]
  · rw [List.cons_append, List.nil_append, readChar.eq_def]
    split
    · next heq => exact absurd (List.cons.inj heq).1 hback
    · next heq => exact absurd (List.cons.inj heq).1 hback
    · next heq =>
      obtain ⟨rfl, rfl⟩ := List.cons.inj heq
      rw [if_neg hc]
    · next heq => cases heq

theorem escapeChar_head (c : Char) : ∃ d t, escapeChar false c = d :: t ∧ d ≠ '"' := by
  have hback : '\\' ≠ '"' := by decide
  exact escapeChar_cases (P := fun _ cs => ∃ d t, cs = d :: t ∧ d ≠ '"') c ⟨_, _, rfl, hback⟩
    ⟨_, _, rfl, hback⟩ ⟨_, _, rfl, hback⟩ ⟨_, _, rfl, hback⟩ ⟨_, _, rfl, hback⟩ ⟨_, _, rfl, hback⟩
    ⟨_, _, rfl, hback⟩ (fun _ _ => ⟨_, _, rfl, hback⟩) fun _ hquote _ _ => ⟨_, _, rfl, hquote⟩

theorem readChars_cons {d : Char} (hd : d ≠ '"') (fuel : Nat) (u : List Char) :
    readChars h (fuel + 1) (d :: u) = (do
      let (c, r) ← readChar h (d :: u)
      let (more, r) ← readChars h fuel r
      .ok (c :: more, r)) := by
  rw [readChars]
  intro r heq
  exact hd (List.cons.inj heq).1

theorem readChars_renderChars (cs r : List Char) {fuel : Nat} (hfuel : cs.length < fuel) :
    readChars h fuel (renderChars false cs ++ r) = .ok (cs, r) := by
  induction cs generalizing fuel with
  | nil =>
    obtain ⟨fuel, rfl⟩ := Nat.exists_eq_succ_of_ne_zero (Nat.ne_zero_of_lt hfuel)
    rfl
  | cons c cs ih =>
    obtain ⟨fuel, rfl⟩ := Nat.exists_eq_succ_of_ne_zero (Nat.ne_zero_of_lt hfuel)
    obtain ⟨d, t, hd, hquote⟩ := escapeChar_head c
    have hread := readChar_escapeChar (h := h) c (renderChars false cs ++ r)
    have hsplit : renderChars false (c :: cs) ++ r =
        escapeChar false c ++ (renderChars false cs ++ r) := by
      simp [renderChars]
    rw [hsplit, hd, List.cons_append] at *
    rw [readChars_cons hquote, hread, ok_bind]
    simp only [ih (by simpa using hfuel), ok_bind]

theorem length_le_renderChars (cs : List Char) : cs.length < (renderChars false cs).length := by
  induction cs with
  | nil => simp [renderChars]
  | cons c cs ih =>
    obtain ⟨d, t, hd, -⟩ := escapeChar_head c
    simp only [renderChars, List.length_append, List.flatMap_cons, hd, List.length_cons,
      List.length_nil] at ih ⊢
    omega

/-- No digit is skipped as white space, and a digit starts no fraction. -/
theorem isFraction_of_stops {r : List Char} (hr : Stops r) : isFraction r = false := by
  cases r with
  | nil => rfl
  | cons c r =>
    obtain rfl | rfl | rfl := hr c rfl <;> rfl

theorem toDigits_head {n : Nat} (hn : 0 < n) :
    ∃ c t, Nat.toDigits 10 n = c :: t ∧ c ≠ '0' ∧ c ≠ '-' := by
  induction n using Nat.strong_induction_on with
  | _ n ih =>
    by_cases hlt : n < 10
    · rw [Nat.toDigits_of_lt_base hlt]
      refine ⟨_, _, rfl, ?_⟩
      have hall : ∀ k < 10, 0 < k → Nat.digitChar k ≠ '0' ∧ Nat.digitChar k ≠ '-' := by decide
      exact hall n hlt hn
    · obtain ⟨c, t, hct, hc⟩ := ih (n / 10) (by omega) (by omega)
      rw [Nat.toDigits_of_base_le (by decide) (by omega), hct]
      exact ⟨c, _, rfl, hc⟩

theorem wholeDigits_toDigits (n : Nat) {r : List Char} (hr : Stops r) :
    wholeDigits (Nat.toDigits 10 n ++ r) = Nat.toDigits 10 n := by
  have hdigits : ∀ c ∈ Nat.toDigits 10 n, c.isDigit = true := fun c hc =>
    Nat.isDigit_of_mem_toDigits (by decide) (by decide) hc
  obtain rfl | hn := Nat.eq_zero_or_pos n
  · rfl
  · obtain ⟨c, t, hct, hzero, -⟩ := toDigits_head hn
    have hspan := takeWhile_digits hdigits hr
    rw [hct, List.cons_append] at hspan ⊢
    unfold wholeDigits
    split
    · next heq => exact absurd (List.cons.inj heq).1 hzero
    · exact hspan

theorem readNumber_renderInt {n : Int} (hn : h.integer (renderInt n) = .ok n) {r : List Char}
    (hr : Stops r) : readNumber h (renderInt n ++ r) = .ok (.int n, r) := by
  have hread : ∀ sign : List Char, sign = [] ∨ sign = ['-'] →
      (sign = [] → ∃ c t, Nat.toDigits 10 n.natAbs = c :: t ∧ c ≠ '-') →
      h.integer (sign ++ Nat.toDigits 10 n.natAbs) = .ok n →
      readNumber h (sign ++ Nat.toDigits 10 n.natAbs ++ r) = .ok (.int n, r) := by
    intro sign hsign hplus hint
    have hhead : (if (sign ++ Nat.toDigits 10 n.natAbs ++ r).head? = some '-' then ['-'] else []) =
        sign := by
      obtain rfl | rfl := hsign
      · obtain ⟨c, t, hct, hc⟩ := hplus rfl
        simp [hct, hc]
      · rfl
    have hdrop : (sign ++ Nat.toDigits 10 n.natAbs ++ r).drop sign.length =
        Nat.toDigits 10 n.natAbs ++ r := by
      rw [List.append_assoc, List.drop_left]
    have hrest : (sign ++ Nat.toDigits 10 n.natAbs ++ r).drop
        (sign.length + (Nat.toDigits 10 n.natAbs).length) = r := by
      rw [← List.length_append, List.drop_left]
    simp only [readNumber, hhead, hdrop, wholeDigits_toDigits _ hr, hrest,
      if_neg Nat.toDigits_ne_nil, isFraction_of_stops hr, hint, ok_bind, Bool.false_eq_true,
      if_false]
  unfold renderInt at hn ⊢
  split at hn
  · next hneg =>
    rw [if_pos hneg]
    exact hread ['-'] (Or.inr rfl) nofun hn
  · next hpos =>
    rw [if_neg hpos]
    refine hread [] (Or.inl rfl) (fun _ => ?_) hn
    obtain hzero | hpos := Nat.eq_zero_or_pos n.natAbs
    · rw [hzero]
      exact ⟨'0', [], rfl, by decide⟩
    · obtain ⟨c, t, hct, -, hc⟩ := toDigits_head hpos
      exact ⟨c, t, hct, hc⟩

/-! ### Values -/

mutual

/-- The hooks accept every integer and every object of the value. -/
def Reads (h : Hooks) : Value → Prop
  | .int n => h.integer (renderInt n) = .ok n
  | .float _ | .bytes _ => False
  | .list xs => ReadsItems h xs
  | .dict es => h.pairs es = .ok es ∧ ReadsEntries h es
  | _ => True

def ReadsItems (h : Hooks) : List Value → Prop
  | [] => True
  | x :: xs => Reads h x ∧ ReadsItems h xs

def ReadsEntries (h : Hooks) : List (String × Value) → Prop
  | [] => True
  | (_, v) :: es => Reads h v ∧ ReadsEntries h es

end

mutual

theorem plain_of_reads : ∀ {v : Value}, Reads h v → Plain v
  | .null, _ | .bool _, _ | .int _, _ | .str _, _ => trivial
  | .float _, hv | .bytes _, hv => hv
  | .list _, hv => plainItems_of_reads hv
  | .dict _, hv => plainEntries_of_reads hv.2

theorem plainItems_of_reads : ∀ {xs : List Value}, ReadsItems h xs → PlainItems xs
  | [], _ => trivial
  | _ :: _, hxs => ⟨plain_of_reads hxs.1, plainItems_of_reads hxs.2⟩

theorem plainEntries_of_reads : ∀ {es : List (String × Value)}, ReadsEntries h es →
    PlainEntries es
  | [], _ => trivial
  | (_, _) :: _, hes => ⟨plain_of_reads hes.1, plainEntries_of_reads hes.2⟩

end

theorem skipSpace_cons {c : Char} (hc : isSpace c = false) (r : List Char) :
    skipSpace (c :: r) = c :: r := by
  rw [skipSpace, List.dropWhile_cons_of_neg (by simp [hc])]

/-- No text starts with white space. -/
theorem skipSpace_render {v : Value} (hv : Plain v) (r : List Char) :
    skipSpace (render false v ++ r) = render false v ++ r := by
  obtain ⟨c, t, hct, hkind⟩ := render_head hv
  have hc : isSpace c = false := by
    have hlt := kind_lt v
    rw [← hkind] at hlt
    by_contra hspace
    simp only [isSpace, Bool.not_eq_false, Bool.or_eq_true, beq_iff_eq] at hspace
    obtain ((rfl | rfl) | rfl) | rfl := hspace <;> exact absurd hlt (by decide)
  rw [hct, List.cons_append, skipSpace_cons hc]

theorem skipSpace_items (xs : List Value) (r : List Char) :
    skipSpace (renderItems false xs ++ r) = renderItems false xs ++ r := by
  cases xs <;> exact skipSpace_cons (by decide) _

theorem skipSpace_entries (es : List (String × Value)) (r : List Char) :
    skipSpace (renderEntries false es ++ r) = renderEntries false es ++ r := by
  cases es <;> exact skipSpace_cons (by decide) _

/-- An atom is read as one. -/
theorem readValue_atom {c : Char} (hc : c ≠ '"' ∧ c ≠ '[' ∧ c ≠ '\x7b') (fuel : Nat)
    (u : List Char) : readValue h (fuel + 1) (c :: u) = readAtom h (c :: u) := by
  rw [readValue]
  all_goals
    intro r heq
    obtain ⟨rfl, -⟩ := List.cons.inj heq
    simp at hc

theorem readAtom_renderInt {n : Int} (hn : h.integer (renderInt n) = .ok n) {r : List Char}
    (hr : Stops r) : readAtom h (renderInt n ++ r) = .ok (.int n, r) := by
  obtain ⟨c, t, hct, hc⟩ := renderInt_head n
  have hnone : ∀ (d : Char) (literal : List Char), d ≠ '-' → d.isDigit = false →
      (d :: literal).isPrefixOf (renderInt n ++ r) = false := by
    intro d literal hminus hdigit
    have hne : d ≠ c := by
      rintro rfl
      obtain hc | hc := hc
      · exact hminus hc
      · exact absurd (hdigit.symm.trans hc) Bool.false_ne_true
    simp [hct, List.isPrefixOf, hne]
  have hminus : "-Infinity".toList.isPrefixOf (renderInt n ++ r) = false := by
    cases hdigits : Nat.toDigits 10 n.natAbs with
    | nil => exact absurd hdigits Nat.toDigits_ne_nil
    | cons d t =>
      have hd : d.isDigit = true := Nat.isDigit_of_mem_toDigits (b := 10) (n := n.natAbs)
        (by decide) (by decide) (by rw [hdigits]; simp)
      unfold renderInt
      split
      · have hne : 'I' ≠ d := by
          rintro rfl
          exact absurd hd (by decide)
        simp [hdigits, List.isPrefixOf, hne]
      · have hne : '-' ≠ d := by
          rintro rfl
          exact absurd hd (by decide)
        simp [hdigits, List.isPrefixOf, hne]
  have hafter : ∀ literal ∈ ["null", "true", "false", "NaN", "Infinity", "-Infinity"],
      afterLiteral literal (renderInt n ++ r) = none := by
    intro literal hmem
    refine if_neg (Bool.not_eq_true _ ▸ ?_)
    simp only [List.mem_cons, List.not_mem_nil, or_false] at hmem
    obtain rfl | rfl | rfl | rfl | rfl | rfl := hmem
    all_goals first
      | exact hminus
      | exact hnone _ _ (by decide) (by decide)
  have hconstant : (["NaN", "Infinity", "-Infinity"].any fun name =>
      (afterLiteral name (renderInt n ++ r)).isSome) = false := by
    simp [hafter]
  rw [readAtom, hafter "null" (by simp), hafter "true" (by simp), hafter "false" (by simp)]
  simp only [hconstant, Bool.false_eq_true, if_false, readNumber_renderInt hn hr]

/-- Behind the opening bracket of a list that is not empty comes its first item. -/
theorem readValue_list {x : Value} (hx : Plain x) (fuel : Nat) (u : List Char) :
    readValue h (fuel + 1) ('[' :: (render false x ++ u)) = (do
      let (x, r) ← readValue h fuel (render false x ++ u)
      let (xs, r) ← readItems h fuel (skipSpace r)
      .ok (.list (x :: xs), r)) := by
  rw [readValue, skipSpace_render hx]
  split
  · next heq =>
    obtain ⟨c, t, hct, -⟩ := render_head hx
    rw [hct, List.cons_append] at heq
    exact absurd ((List.cons.inj heq).1 ▸ hct) (render_ne_close hx)
  · rfl

theorem afterColon_render {v : Value} (hv : Plain v) (u : List Char) :
    afterColon h (':' :: (render false v ++ u)) = .ok (render false v ++ u) := by
  rw [afterColon, skipSpace_cons (by decide)]
  exact congrArg Except.ok (skipSpace_render hv u)

mutual

/-- The text of a value is read back, up to where it stops. -/
theorem readValue_render : ∀ (v : Value) (fuel : Nat) (r : List Char), Reads h v → Stops r →
    (render false v).length ≤ fuel → readValue h fuel (render false v ++ r) = .ok (v, r)
  | _, 0, _, hv, _, hfuel => by
    obtain ⟨c, t, hct, -⟩ := render_head (plain_of_reads hv)
    rw [hct] at hfuel
    exact absurd hfuel (Nat.not_succ_le_zero _)
  | .null, fuel + 1, r, _, _, _ => readValue_atom (by decide) fuel _
  | .bool true, fuel + 1, r, _, _, _ => readValue_atom (by decide) fuel _
  | .bool false, fuel + 1, r, _, _, _ => readValue_atom (by decide) fuel _
  | .int n, fuel + 1, r, hv, hr, _ => by
    obtain ⟨c, t, hct, hc⟩ := renderInt_head n
    have hread := readAtom_renderInt hv hr
    rw [render, hct, List.cons_append] at *
    have hne : c ≠ '"' ∧ c ≠ '[' ∧ c ≠ '\x7b' := by
      refine ⟨?_, ?_, ?_⟩ <;>
        (rintro rfl; obtain hc | hc := hc <;> exact absurd hc (by decide))
    rw [readValue_atom hne, hread]
  | .float _, _, _, hv, _, _ | .bytes _, _, _, hv, _, _ => hv.elim
  | .str s, fuel + 1, r, _, _, _ => by
    rw [render, List.cons_append, readValue]
    have hlength := length_le_renderChars s.toList
    rw [readChars_renderChars s.toList r (by rw [List.length_append]; omega)]
    simp only [ok_bind, String.ofList_toList]
  | .list [], fuel + 1, r, _, _, _ => rfl
  | .list (x :: xs), fuel + 1, r, hv, _, hfuel => by
    simp only [render, List.length_cons, List.length_append, List.cons_append] at hfuel
    have hx := readValue_render x fuel (renderItems false xs ++ r) hv.1 (stops_items xs r)
      (by omega)
    have hxs := readItems_render xs fuel r hv.2 (by omega)
    rw [render, List.cons_append, List.cons_append, List.append_assoc,
      readValue_list (plain_of_reads hv.1), hx, ok_bind]
    simp only [skipSpace_items, hxs, ok_bind]
  | .dict [], fuel + 1, r, hv, _, _ => by
    rw [render, List.cons_append, readValue, List.cons_append, skipSpace_cons (by decide)]
    simp only [hv.1, ok_bind, List.nil_append]
  | .dict ((k, v) :: es), fuel + 1, r, hv, _, hfuel => by
    simp only [render, List.length_cons, List.length_append, List.cons_append] at hfuel
    have hvalue := readValue_render v fuel (renderEntries false es ++ r) hv.2.1
      (stops_entries es r) (by omega)
    have hes := readEntries_render es fuel r hv.2.2 (by omega)
    have hlength := length_le_renderChars k.toList
    rw [render, List.cons_append, List.cons_append, readValue]
    simp only [List.append_assoc, List.cons_append, skipSpace_cons (c := '"') (by decide)]
    rw [readChars_renderChars k.toList _ (by rw [List.length_append]; omega), ok_bind]
    simp only [afterColon_render (plain_of_reads hv.2.1), ok_bind, hvalue, skipSpace_entries, hes,
      String.ofList_toList, hv.1]

theorem readItems_render : ∀ (xs : List Value) (fuel : Nat) (r : List Char), ReadsItems h xs →
    (renderItems false xs).length ≤ fuel →
    readItems h fuel (renderItems false xs ++ r) = .ok (xs, r)
  | [], 0, _, _, hfuel => absurd hfuel (by simp [renderItems])
  | [], fuel + 1, r, _, _ => rfl
  | x :: xs, 0, _, _, hfuel => absurd hfuel (by simp [renderItems])
  | x :: xs, fuel + 1, r, hxs, hfuel => by
    simp only [renderItems, List.length_cons, List.length_append, List.cons_append] at hfuel
    have hx := readValue_render x fuel (renderItems false xs ++ r) hxs.1 (stops_items xs r)
      (by omega)
    have hrest := readItems_render xs fuel r hxs.2 (by omega)
    rw [renderItems, List.cons_append, List.cons_append, List.append_assoc, readItems,
      skipSpace_render (plain_of_reads hxs.1), hx, ok_bind]
    simp only [skipSpace_items, hrest, ok_bind]

theorem readEntries_render : ∀ (es : List (String × Value)) (fuel : Nat) (r : List Char),
    ReadsEntries h es → (renderEntries false es).length ≤ fuel →
    readEntries h fuel (renderEntries false es ++ r) = .ok (es, r)
  | [], 0, _, _, hfuel => absurd hfuel (by simp [renderEntries])
  | [], fuel + 1, r, _, _ => rfl
  | (k, v) :: es, 0, _, _, hfuel => absurd hfuel (by simp [renderEntries])
  | (k, v) :: es, fuel + 1, r, hes, hfuel => by
    simp only [renderEntries, List.length_cons, List.length_append, List.cons_append] at hfuel
    have hvalue := readValue_render v fuel (renderEntries false es ++ r) hes.1
      (stops_entries es r) (by omega)
    have hrest := readEntries_render es fuel r hes.2 (by omega)
    have hlength := length_le_renderChars k.toList
    rw [renderEntries, List.cons_append, List.cons_append, readEntries]
    simp only [List.append_assoc, List.cons_append, skipSpace_cons (c := '"') (by decide)]
    rw [readChars_renderChars k.toList _ (by rw [List.length_append]; omega), ok_bind]
    simp only [afterColon_render (plain_of_reads hes.1), ok_bind, hvalue, skipSpace_entries, hrest,
      String.ofList_toList]

end

/-- The text of a value that the hooks accept is read back. -/
theorem loads_render {v : Value} (hv : Reads h v) :
    loads h (String.ofList (render false v)) = .ok v := by
  have hskip := skipSpace_render (plain_of_reads hv) []
  have hread := readValue_render v ((render false v).length + 1) [] hv nofun (by omega)
  rw [List.append_nil] at hskip hread
  simp only [loads, String.toList_ofList, hskip, hread, ok_bind]
  rfl

/-! ### Objects -/

mutual

/-- Every object in the value satisfies `P`. -/
def Objects (P : Dict → Prop) : Value → Prop
  | .list xs => ObjectsItems P xs
  | .dict es => P es ∧ ObjectsEntries P es
  | _ => True

def ObjectsItems (P : Dict → Prop) : List Value → Prop
  | [] => True
  | x :: xs => Objects P x ∧ ObjectsItems P xs

def ObjectsEntries (P : Dict → Prop) : List (String × Value) → Prop
  | [] => True
  | (_, v) :: es => Objects P v ∧ ObjectsEntries P es

end

theorem readAtom_objects {P : Dict → Prop} {cs r : List Char} {v : Value}
    (hv : readAtom h cs = .ok (v, r)) : Objects P v := by
  unfold readAtom at hv
  split at hv
  · cases hv
    trivial
  · cases hv
    trivial
  · cases hv
    trivial
  · split at hv
    · cases hv
    · unfold readNumber at hv
      extract_lets sign digits rest at hv
      split at hv
      · cases hv
      · split at hv
        · cases hv
        · obtain ⟨n, -, hv⟩ := bind_eq_ok.mp hv
          obtain ⟨rfl, -⟩ := Prod.mk.inj (Except.ok.inj hv)
          trivial

/-- The objects that are read are those that the hook makes. -/
theorem read_objects {P : Dict → Prop}
    (hpairs : ∀ es d, h.pairs es = .ok d → d = es ∧ P es) (fuel : Nat) :
    (∀ cs v r, readValue h fuel cs = .ok (v, r) → Objects P v) ∧
    (∀ cs xs r, readItems h fuel cs = .ok (xs, r) → ObjectsItems P xs) ∧
    ∀ cs es r, readEntries h fuel cs = .ok (es, r) → ObjectsEntries P es := by
  induction fuel with
  | zero => exact ⟨nofun, nofun, nofun⟩
  | succ fuel ih =>
    obtain ⟨hvalue, hitems, hentries⟩ := ih
    have hdict : ∀ {es : List (String × Value)} {r r' : List Char} {v : Value},
        ObjectsEntries P es → (do let d ← h.pairs es; .ok (Value.dict d, r)) = .ok (v, r') →
        Objects P v := by
      intro es r r' v hes hd
      obtain ⟨d, hd, heq⟩ := bind_eq_ok.mp hd
      obtain ⟨rfl, hP⟩ := hpairs es d hd
      cases heq
      exact ⟨hP, hes⟩
    refine ⟨fun cs v r hv => ?_, fun cs xs r hxs => ?_, fun cs es r hes => ?_⟩
    · rw [readValue.eq_def] at hv
      dsimp only at hv
      split at hv
      · obtain ⟨⟨s, r'⟩, -, hv⟩ := bind_eq_ok.mp hv
        cases hv
        trivial
      · split at hv
        · cases hv
          trivial
        · obtain ⟨⟨x, r'⟩, hx, hv⟩ := bind_eq_ok.mp hv
          obtain ⟨⟨xs, r''⟩, hxs, hv⟩ := bind_eq_ok.mp hv
          cases hv
          exact ⟨hvalue _ _ _ hx, hitems _ _ _ hxs⟩
      · split at hv
        · exact @hdict [] _ _ _ trivial hv
        · obtain ⟨⟨k, r₁⟩, -, hv⟩ := bind_eq_ok.mp hv
          obtain ⟨r₂, -, hv⟩ := bind_eq_ok.mp hv
          obtain ⟨⟨w, r₃⟩, hw, hv⟩ := bind_eq_ok.mp hv
          obtain ⟨⟨es, r₄⟩, hes, hv⟩ := bind_eq_ok.mp hv
          exact @hdict ((String.ofList k, w) :: es) _ _ _
            ⟨hvalue _ _ _ hw, hentries _ _ _ hes⟩ hv
        · cases hv
      · exact readAtom_objects hv
    · rw [readItems.eq_def] at hxs
      dsimp only at hxs
      split at hxs
      · cases hxs
        trivial
      · obtain ⟨⟨x, r'⟩, hx, hxs⟩ := bind_eq_ok.mp hxs
        obtain ⟨⟨more, r''⟩, hmore, hxs⟩ := bind_eq_ok.mp hxs
        cases hxs
        exact ⟨hvalue _ _ _ hx, hitems _ _ _ hmore⟩
      · cases hxs
    · rw [readEntries.eq_def] at hes
      dsimp only at hes
      split at hes
      · cases hes
        trivial
      · split at hes
        · obtain ⟨⟨k, r₁⟩, -, hes⟩ := bind_eq_ok.mp hes
          obtain ⟨r₂, -, hes⟩ := bind_eq_ok.mp hes
          obtain ⟨⟨w, r₃⟩, hw, hes⟩ := bind_eq_ok.mp hes
          obtain ⟨⟨more, r₄⟩, hmore, hes⟩ := bind_eq_ok.mp hes
          cases hes
          exact ⟨hvalue _ _ _ hw, hentries _ _ _ hmore⟩
        · cases hes
      · cases hes

theorem loads_objects {P : Dict → Prop} (hpairs : ∀ es d, h.pairs es = .ok d → d = es ∧ P es)
    {text : String} {v : Value} (hv : loads h text = .ok v) : Objects P v := by
  obtain ⟨⟨w, rest⟩, hw, hv⟩ := bind_eq_ok.mp hv
  dsimp only at hv
  split at hv
  · cases hv
    exact (read_objects hpairs _).1 _ _ _ hw
  · cases hv

end Python.Json
