import ZoidbergChain.Python.JsonReader

/-!
# JSON texts

Which texts spell a value, with the tokens that their string literals have between the quotes.

- `Phrase` is a set of texts with their string tokens; `Spells` gives the one of every value,
  `Document` with white space around it.
- `document_of_loads`: what `loads` reads is spelled by the text.
- `spells_render`: what `render` writes spells the value, with the `tokens` of its strings.

Numbers and names are any words without punctuation, so that every JSON text is among them.
-/

namespace Python.Json

/-! ## Phrases -/

/-- Texts, each with its string tokens. -/
abbrev Phrase := List Char → List (List Char) → Prop

namespace Phrase

/-- The text itself, which has no string token. -/
def chars (cs : List Char) : Phrase := fun ds ts => ds = cs ∧ ts = []

/-- White space. -/
def spaces : Phrase := fun ds ts => ds.all isSpace = true ∧ ts = []

/-- One phrase behind the other. -/
def seq (A B : Phrase) : Phrase := fun ds ts =>
  ∃ c t c' t', A c t ∧ B c' t' ∧ ds = c ++ c' ∧ ts = t ++ t'

end Phrase

/-- The characters that the token of a string literal stands for. A lone surrogate stands for
U+0000 here. -/
inductive Literal : List Char → List Char → Prop
  | nil : Literal [] []
  | char {c : Char} {s t : List Char} : c ≠ '"' → c ≠ '\\' → 32 ≤ c.toNat → Literal s t →
      Literal (c :: s) (c :: t)
  | letter {e c : Char} {s t : List Char} : escapeLetter e = some c → Literal s t →
      Literal (c :: s) ('\\' :: e :: t)
  | unit {a b c d : Char} {n : Nat} {s t : List Char} : hexUnit a b c d = some n →
      Literal s t → Literal (Char.ofNat n :: s) ('\\' :: 'u' :: a :: b :: c :: d :: t)
  | pair {a b c d e f g k : Char} {n m : Nat} {s t : List Char} :
      hexUnit a b c d = some n → hexUnit e f g k = some m → Literal s t →
      Literal (Char.ofNat (0x10000 + (n - 0xD800) * 0x400 + (m - 0xDC00)) :: s)
        ('\\' :: 'u' :: a :: b :: c :: d :: '\\' :: 'u' :: e :: f :: g :: k :: t)

/-- The characters of numbers and names. -/
def isWordChar (c : Char) : Bool := c.isAlphanum || c == '-' || c == '+' || c == '.'

namespace Phrase

/-- A number or a name. -/
def word : Phrase := fun ds ts => ds ≠ [] ∧ ds.all isWordChar = true ∧ ts = []

/-- A string literal. -/
def string (s : String) : Phrase := fun ds ts =>
  ∃ t, Literal s.toList t ∧ ds = '"' :: (t ++ ['"']) ∧ ts = [t]

/-- A key and its value. -/
def entry (k : String) (value : Phrase) : Phrase :=
  seq (string k) (seq spaces (seq (chars [':']) (seq spaces value)))

end Phrase

/-! ## Values -/

open Phrase

mutual

/-- The texts of a value. -/
def Spells : Value → Phrase
  | .null | .bool _ | .int _ | .float _ => word
  | .bytes _ => fun _ _ => False
  | .str s => string s
  | .list [] => seq (chars ['[']) (seq spaces (chars [']']))
  | .list (x :: xs) => seq (chars ['[']) (seq spaces (seq (Spells x) (SpellsItems xs)))
  | .dict [] => seq (chars ['{']) (seq spaces (chars ['}']))
  | .dict ((k, v) :: es) =>
    seq (chars ['{']) (seq spaces (seq (entry k (Spells v)) (SpellsEntries es)))

/-- The texts of the items behind the first one, and of the closing bracket. -/
def SpellsItems : List Value → Phrase
  | [] => seq spaces (chars [']'])
  | x :: xs =>
    seq spaces (seq (chars [',']) (seq spaces (seq (Spells x) (SpellsItems xs))))

/-- The texts of the entries behind the first one, and of the closing brace. -/
def SpellsEntries : List (String × Value) → Phrase
  | [] => seq spaces (chars ['}'])
  | (k, v) :: es =>
    seq spaces (seq (chars [',']) (seq spaces (seq (entry k (Spells v)) (SpellsEntries es))))

end

/-- The texts of a JSON document with that value. -/
def Document (v : Value) : Phrase := seq spaces (seq (Spells v) spaces)

/-! ## What the reader reads -/

/-- A text starts with a phrase. -/
def Starts (A : Phrase) (cs r : List Char) : Prop := ∃ c ts, A c ts ∧ cs = c ++ r

theorem Starts.seq {A B : Phrase} {cs r r' : List Char} (hA : Starts A cs r)
    (hB : Starts B r r') : Starts (seq A B) cs r' := by
  obtain ⟨c, t, hc, rfl⟩ := hA
  obtain ⟨c', t', hc', rfl⟩ := hB
  exact ⟨c ++ c', t ++ t', ⟨c, t, c', t', hc, hc', rfl, rfl⟩, (List.append_assoc c c' r').symm⟩

theorem starts_chars (cs r : List Char) : Starts (chars cs) (cs ++ r) r :=
  ⟨cs, [], ⟨rfl, rfl⟩, rfl⟩

theorem starts_spaces (cs : List Char) : Starts spaces cs (skipSpace cs) :=
  ⟨cs.takeWhile isSpace, [], ⟨List.all_eq_true.mpr fun _ hc => List.mem_takeWhile_imp hc, rfl⟩,
    List.takeWhile_append_dropWhile.symm⟩

variable {h : Hooks}

/-- One character that is read lengthens the token. -/
theorem readChar_literal {cs r : List Char} {c : Char} (hquote : cs.head? ≠ some '"')
    (hr : r ≠ []) (hc : readChar h cs = .ok (c, r)) :
    ∃ p, cs = p ++ r ∧ ∀ {s t : List Char}, Literal s t → Literal (c :: s) (p ++ t) := by
  unfold readChar at hc
  split at hc
  · next a b c' d r' =>
    split at hc
    · cases hc
    · next n hn =>
      split at hc
      · split at hc
        · next e f g k r'' =>
          split at hc
          · next m hm =>
            split at hc
            · obtain ⟨hpair, rfl⟩ := Prod.mk.inj (Except.ok.inj hc)
              refine ⟨['\\', 'u', a, b, c', d, '\\', 'u', e, f, g, k], rfl, fun ht => ?_⟩
              rw [← hpair]
              exact .pair hn hm ht
            · cases hc
          · cases hc
        · cases hc
      · cases hc
        exact ⟨['\\', 'u', a, b, c', d], rfl, fun ht => .unit hn ht⟩
  · next e r' _ =>
    split at hc
    · next d hd =>
      cases hc
      exact ⟨['\\', e], rfl, fun ht => .letter hd ht⟩
    · cases hc
  · next d r' _ hback =>
    split at hc
    · cases hc
    · next hcontrol =>
      cases hc
      have hne : c ≠ '\\' := by
        rintro rfl
        obtain ⟨e, r', rfl⟩ := List.exists_cons_of_ne_nil hr
        exact hback e r' rfl rfl
      exact ⟨[c], rfl, fun ht =>
        .char (fun hd => hquote (congrArg some hd)) hne (Nat.le_of_not_lt hcontrol) ht⟩
  · cases hc

theorem readChars_literal {fuel : Nat} {cs s r : List Char}
    (hs : readChars h fuel cs = .ok (s, r)) : ∃ t, Literal s t ∧ cs = t ++ '"' :: r := by
  induction fuel generalizing cs s with
  | zero => cases hs
  | succ fuel ih =>
    rw [readChars.eq_def] at hs
    dsimp only at hs
    split at hs
    · cases hs
      exact ⟨[], .nil, rfl⟩
    · next hquote =>
      obtain ⟨⟨c, r₁⟩, hc, hs⟩ := bind_eq_ok.mp hs
      obtain ⟨⟨more, r₂⟩, hmore, hs⟩ := bind_eq_ok.mp hs
      cases hs
      obtain ⟨t, ht, rfl⟩ := ih hmore
      have hhead : cs.head? ≠ some '"' := by
        intro hhead
        obtain ⟨u, rfl⟩ := List.head?_eq_some_iff.mp hhead
        exact hquote u rfl
      obtain ⟨p, rfl, hp⟩ := readChar_literal hhead (by simp) hc
      exact ⟨p ++ t, hp ht, (List.append_assoc p t _).symm⟩

theorem starts_string {fuel : Nat} {cs s r : List Char} (hs : readChars h fuel cs = .ok (s, r)) :
    Starts (string (String.ofList s)) ('"' :: cs) r := by
  obtain ⟨t, ht, rfl⟩ := readChars_literal hs
  refine ⟨_, _, ⟨t, ?_, rfl, rfl⟩, by simp⟩
  rwa [String.toList_ofList]

/-! ### Numbers and names -/

theorem starts_word {cs r : List Char} (hne : cs ≠ []) (hword : cs.all isWordChar = true) :
    Starts word (cs ++ r) r := ⟨cs, [], ⟨hne, hword, rfl⟩, rfl⟩

theorem starts_literal {literal : String} {cs r : List Char} (hne : literal.toList ≠ [])
    (hword : literal.toList.all isWordChar = true) (hr : afterLiteral literal cs = some r) :
    Starts word cs r := by
  unfold afterLiteral at hr
  split at hr
  · next hpre =>
    obtain ⟨t, rfl⟩ := List.isPrefixOf_iff_prefix.mp hpre
    rw [← String.length_toList, List.drop_left] at hr
    cases hr
    exact starts_word hne hword
  · cases hr

theorem wholeDigits_prefix (cs : List Char) :
    ∃ r, cs = wholeDigits cs ++ r ∧ (wholeDigits cs).all isWordChar = true := by
  unfold wholeDigits
  split
  · next r => exact ⟨r, rfl, by decide⟩
  · refine ⟨cs.dropWhile Char.isDigit, List.takeWhile_append_dropWhile.symm, ?_⟩
    refine List.all_eq_true.mpr fun c hc => ?_
    have hdigit : c.isDigit = true := List.mem_takeWhile_imp hc
    simp [isWordChar, Char.isAlphanum, hdigit]

theorem readNumber_spells {cs r : List Char} {v : Value} (hv : readNumber h cs = .ok (v, r)) :
    ∃ n, v = .int n ∧ Starts word cs r := by
  unfold readNumber at hv
  extract_lets sign digits rest at hv
  split at hv
  · cases hv
  next hdigits =>
  split at hv
  · cases hv
  obtain ⟨n, -, hv⟩ := bind_eq_ok.mp hv
  obtain ⟨hn, hr⟩ := Prod.mk.inj (Except.ok.inj hv)
  refine ⟨n, hn.symm, ?_⟩
  have hsign : cs = sign ++ cs.drop sign.length ∧ sign.all isWordChar = true := by
    unfold sign
    split
    · next hhead =>
      obtain ⟨u, rfl⟩ := List.head?_eq_some_iff.mp hhead
      exact ⟨rfl, by decide⟩
    · exact ⟨rfl, rfl⟩
  obtain ⟨u, hu, hword⟩ := wholeDigits_prefix (cs.drop sign.length)
  have hsplit : cs = (sign ++ digits) ++ u := by
    rw [List.append_assoc, ← hu]
    exact hsign.1
  have hrest : rest = u := by
    unfold rest
    rw [← List.length_append, hsplit]
    exact List.drop_left
  rw [← hr, hrest]
  nth_rewrite 1 [hsplit]
  refine starts_word (List.append_ne_nil_of_right_ne_nil _ hdigits) ?_
  rw [List.all_append, hsign.2, hword, Bool.and_self]

theorem readAtom_spells {cs r : List Char} {v : Value} (hv : readAtom h cs = .ok (v, r)) :
    Starts (Spells v) cs r := by
  unfold readAtom at hv
  split at hv
  · next hnull =>
    cases hv
    rw [Spells]
    exact starts_literal (by decide) (by decide) hnull
  · next htrue _ =>
    cases hv
    rw [Spells]
    exact starts_literal (by decide) (by decide) htrue
  · next hfalse _ _ =>
    cases hv
    rw [Spells]
    exact starts_literal (by decide) (by decide) hfalse
  · split at hv
    · cases hv
    · obtain ⟨n, rfl, hn⟩ := readNumber_spells hv
      rw [Spells]
      exact hn

/-! ### Values -/

theorem starts_colon {cs r : List Char} (hr : afterColon h cs = .ok r) {A : Phrase}
    {r' : List Char} (hA : Starts A r r') :
    Starts (seq spaces (seq (chars [':']) (seq spaces A))) cs r' := by
  unfold afterColon at hr
  split at hr
  · next r₁ hcolon =>
    cases hr
    exact (hcolon ▸ starts_spaces cs).seq ((starts_chars [':'] r₁).seq ((starts_spaces r₁).seq hA))
  · cases hr

/-- Whatever is read is spelled by the characters that have been read. -/
theorem read_spells (hpairs : ∀ es d, h.pairs es = .ok d → d = es) (fuel : Nat) :
    (∀ cs v r, readValue h fuel cs = .ok (v, r) → Starts (Spells v) cs r) ∧
    (∀ cs xs r, readItems h fuel (skipSpace cs) = .ok (xs, r) → Starts (SpellsItems xs) cs r) ∧
    ∀ cs es r, readEntries h fuel (skipSpace cs) = .ok (es, r) →
      Starts (SpellsEntries es) cs r := by
  induction fuel with
  | zero => exact ⟨nofun, nofun, nofun⟩
  | succ fuel ih =>
    obtain ⟨hvalue, hitems, hentries⟩ := ih
    refine ⟨fun cs v r hv => ?_, fun cs xs r hxs => ?_, fun cs es r hes => ?_⟩
    · rw [readValue.eq_def] at hv
      dsimp only at hv
      split at hv
      · -- a string
        obtain ⟨⟨s, r'⟩, hs, hv⟩ := bind_eq_ok.mp hv
        cases hv
        rw [Spells]
        exact starts_string hs
      · next r₁ =>
        have hspace := starts_spaces r₁
        split at hv
        · next r₂ hclose =>
          cases hv
          rw [Spells]
          exact (starts_chars ['['] _).seq ((hclose ▸ hspace).seq (starts_chars [']'] _))
        · obtain ⟨⟨x, r₃⟩, hx, hv⟩ := bind_eq_ok.mp hv
          obtain ⟨⟨xs, r₄⟩, hxs, hv⟩ := bind_eq_ok.mp hv
          cases hv
          rw [Spells]
          exact (starts_chars ['['] _).seq
            (hspace.seq ((hvalue _ _ _ hx).seq (hitems _ _ _ hxs)))
      · next r₁ =>
        have hspace := starts_spaces r₁
        split at hv
        · next r₂ hclose =>
          obtain ⟨d, hd, hv⟩ := bind_eq_ok.mp hv
          obtain rfl := hpairs _ _ hd
          cases hv
          rw [Spells]
          exact (starts_chars ['\x7b'] _).seq ((hclose ▸ hspace).seq (starts_chars ['\x7d'] _))
        · next r₂ hkey =>
          obtain ⟨⟨k, r₃⟩, hk, hv⟩ := bind_eq_ok.mp hv
          obtain ⟨r₄, hcolon, hv⟩ := bind_eq_ok.mp hv
          obtain ⟨⟨w, r₅⟩, hw, hv⟩ := bind_eq_ok.mp hv
          obtain ⟨⟨es, r₆⟩, hes, hv⟩ := bind_eq_ok.mp hv
          obtain ⟨d, hd, hv⟩ := bind_eq_ok.mp hv
          obtain rfl := hpairs _ _ hd
          cases hv
          rw [Spells]
          exact (starts_chars ['\x7b'] _).seq ((hkey ▸ hspace).seq
            (((starts_string hk).seq (starts_colon hcolon (hvalue _ _ _ hw))).seq
              (hentries _ _ _ hes)))
        · cases hv
      · exact readAtom_spells hv
    · have hspace := starts_spaces cs
      rw [readItems.eq_def] at hxs
      dsimp only at hxs
      split at hxs
      · next r₁ hclose =>
        cases hxs
        rw [SpellsItems]
        exact (hclose ▸ hspace).seq (starts_chars [']'] _)
      · next r₁ hcomma =>
        obtain ⟨⟨x, r₂⟩, hx, hxs⟩ := bind_eq_ok.mp hxs
        obtain ⟨⟨more, r₃⟩, hmore, hxs⟩ := bind_eq_ok.mp hxs
        cases hxs
        rw [SpellsItems]
        exact (hcomma ▸ hspace).seq ((starts_chars [','] _).seq
          ((starts_spaces r₁).seq ((hvalue _ _ _ hx).seq (hitems _ _ _ hmore))))
      · cases hxs
    · have hspace := starts_spaces cs
      rw [readEntries.eq_def] at hes
      dsimp only at hes
      split at hes
      · next r₁ hclose =>
        cases hes
        rw [SpellsEntries]
        exact (hclose ▸ hspace).seq (starts_chars ['\x7d'] _)
      · next r₁ hcomma =>
        have hnext := starts_spaces r₁
        split at hes
        · next r₂ hkey =>
          obtain ⟨⟨k, r₃⟩, hk, hes⟩ := bind_eq_ok.mp hes
          obtain ⟨r₄, hcolon, hes⟩ := bind_eq_ok.mp hes
          obtain ⟨⟨w, r₅⟩, hw, hes⟩ := bind_eq_ok.mp hes
          obtain ⟨⟨more, r₆⟩, hmore, hes⟩ := bind_eq_ok.mp hes
          cases hes
          rw [SpellsEntries]
          exact (hcomma ▸ hspace).seq ((starts_chars [','] _).seq ((hkey ▸ hnext).seq
            (((starts_string hk).seq (starts_colon hcolon (hvalue _ _ _ hw))).seq
              (hentries _ _ _ hmore))))
        · cases hes
      · cases hes

/-- A document that is read is a text of the value that comes out. -/
theorem document_of_loads (hpairs : ∀ es d, h.pairs es = .ok d → d = es) {text : String}
    {v : Value} (hv : loads h text = .ok v) : ∃ ts, Document v text.toList ts := by
  obtain ⟨⟨w, rest⟩, hw, hv⟩ := bind_eq_ok.mp hv
  dsimp only at hv
  split at hv
  · next hrest =>
    cases hv
    have hvalue := (read_spells hpairs _).1 _ _ _ hw
    obtain ⟨c, ts, hc, htext⟩ :=
      (starts_spaces text.toList).seq (hvalue.seq (starts_spaces rest))
    rw [hrest, List.append_nil] at htext
    exact ⟨ts, htext ▸ hc⟩
  · cases hv

/-! ## What is written -/

mutual

/-- The string tokens of the text that `render` writes. -/
def tokens : Value → List (List Char)
  | .str s => [s.toList.flatMap (escapeChar false)]
  | .list xs => tokensItems xs
  | .dict es => tokensEntries es
  | _ => []

def tokensItems : List Value → List (List Char)
  | [] => []
  | x :: xs => tokens x ++ tokensItems xs

def tokensEntries : List (String × Value) → List (List Char)
  | [] => []
  | (k, v) :: es => k.toList.flatMap (escapeChar false) :: tokens v ++ tokensEntries es

end

/-- The token that is written for a string is a literal of it, as it is read back. -/
theorem literal_escapeChars (cs : List Char) : Literal cs (cs.flatMap (escapeChar false)) := by
  have hread := readChars_renderChars
    (h := ⟨fun _ => .ok 0, .value "", .ok, .value "", .value ""⟩) cs [] (Nat.lt_succ_self _)
  obtain ⟨t, ht, heq⟩ := readChars_literal hread
  rw [List.append_nil, renderChars] at heq
  rwa [List.append_cancel_right heq]

theorem string_render (s : String) :
    string s ('"' :: renderChars false s.toList) [s.toList.flatMap (escapeChar false)] :=
  ⟨_, literal_escapeChars s.toList, rfl, rfl⟩

theorem word_renderInt (n : Int) : word (renderInt n) [] := by
  have hdigits : (Nat.toDigits 10 n.natAbs).all isWordChar = true := by
    refine List.all_eq_true.mpr fun c hc => ?_
    have hdigit := Nat.isDigit_of_mem_toDigits (b := 10) (by decide) (by decide) hc
    simp [isWordChar, Char.isAlphanum, hdigit]
  unfold renderInt
  split
  · refine ⟨nofun, ?_, rfl⟩
    rw [List.all_cons, hdigits]
    decide
  · exact ⟨Nat.toDigits_ne_nil, hdigits, rfl⟩

/-- Without white space. -/
theorem spaces_seq {A : Phrase} {cs : List Char} {ts : List (List Char)} (hA : A cs ts) :
    seq spaces A cs ts := ⟨[], [], cs, ts, ⟨rfl, rfl⟩, hA, rfl, rfl⟩

theorem chars_seq (cs : List Char) {A : Phrase} {ds : List Char} {ts : List (List Char)}
    (hA : A ds ts) : seq (chars cs) A (cs ++ ds) ts := ⟨cs, [], ds, ts, ⟨rfl, rfl⟩, hA, rfl, rfl⟩

theorem entry_render (k : String) {A : Phrase} {cs : List Char} {ts : List (List Char)}
    (hA : A cs ts) : entry k A ('"' :: renderChars false k.toList ++ ':' :: cs)
      (k.toList.flatMap (escapeChar false) :: ts) :=
  ⟨_, _, ':' :: cs, ts, string_render k, spaces_seq (chars_seq [':'] (spaces_seq hA)), rfl, rfl⟩

mutual

/-- The text that `render` writes spells the value. -/
theorem spells_render : ∀ {v : Value}, Plain v → Spells v (render false v) (tokens v)
  | .null, _ => ⟨by decide, by decide, rfl⟩
  | .bool true, _ => ⟨by decide, by decide, rfl⟩
  | .bool false, _ => ⟨by decide, by decide, rfl⟩
  | .int n, _ => word_renderInt n
  | .float _, hv | .bytes _, hv => hv.elim
  | .str s, _ => string_render s
  | .list [], _ => chars_seq ['['] (spaces_seq ⟨rfl, rfl⟩)
  | .list (x :: xs), hv => by
    rw [Spells, render]
    exact chars_seq ['['] (spaces_seq
      ⟨_, _, _, _, spells_render hv.1, spells_renderItems hv.2, rfl, rfl⟩)
  | .dict [], _ => chars_seq ['\x7b'] (spaces_seq ⟨rfl, rfl⟩)
  | .dict ((k, v) :: es), hv => by
    rw [Spells, render]
    exact chars_seq ['\x7b'] (spaces_seq
      ⟨_, _, _, _, entry_render k (spells_render hv.1), spells_renderEntries hv.2,
        by simp, rfl⟩)

theorem spells_renderItems : ∀ {xs : List Value}, PlainItems xs →
    SpellsItems xs (renderItems false xs) (tokensItems xs)
  | [], _ => spaces_seq ⟨rfl, rfl⟩
  | x :: xs, hxs => by
    rw [SpellsItems, renderItems]
    exact spaces_seq (chars_seq [','] (spaces_seq
      ⟨_, _, _, _, spells_render hxs.1, spells_renderItems hxs.2, rfl, rfl⟩))

theorem spells_renderEntries : ∀ {es : List (String × Value)}, PlainEntries es →
    SpellsEntries es (renderEntries false es) (tokensEntries es)
  | [], _ => spaces_seq ⟨rfl, rfl⟩
  | (k, v) :: es, hes => by
    rw [SpellsEntries, renderEntries]
    exact spaces_seq (chars_seq [','] (spaces_seq
      ⟨_, _, _, _, entry_render k (spells_render hes.1), spells_renderEntries hes.2,
        by simp, rfl⟩))

end

theorem document_render {v : Value} (hv : Plain v) :
    Document v (render false v) (tokens v) :=
  spaces_seq ⟨_, _, [], [], spells_render hv, ⟨rfl, rfl⟩, (List.append_nil _).symm,
    (List.append_nil _).symm⟩

/-! ## Deciding a property of objects -/

mutual

def decideObjects (P : Dict → Prop) [DecidablePred P] : (v : Value) → Decidable (Objects P v)
  | .null | .bool _ | .int _ | .float _ | .str _ | .bytes _ => .isTrue trivial
  | .list xs => decideItems P xs
  | .dict es => @instDecidableAnd _ _ _ (decideEntries P es)

def decideItems (P : Dict → Prop) [DecidablePred P] :
    (xs : List Value) → Decidable (ObjectsItems P xs)
  | [] => .isTrue trivial
  | x :: xs => @instDecidableAnd _ _ (decideObjects P x) (decideItems P xs)

def decideEntries (P : Dict → Prop) [DecidablePred P] :
    (es : List (String × Value)) → Decidable (ObjectsEntries P es)
  | [] => .isTrue trivial
  | (_, v) :: es => @instDecidableAnd _ _ (decideObjects P v) (decideEntries P es)

end

instance (P : Dict → Prop) [DecidablePred P] (v : Value) : Decidable (Objects P v) :=
  decideObjects P v

end Python.Json
