import ZoidbergChain.CanonicalV3.BlockSize

/-!
# Values that can be written

The other direction of the size bounds: what has passed the scalar checks can be written, in so
many bytes, and objects of such fields can.

- `Writes`: a value that can be written, with its nesting and its width. `writes_dict` is the one
  lemma for objects.
- `writes_message`: a message of printable characters is at most twice as wide inside a record.
- `fieldsEqual_of_subset`, `withoutDigest_append`: what a check finds in such an object.
-/

namespace Python

namespace Json

/-- A printable character. -/
def isPrintable (c : Char) : Bool := 32 ≤ c.toNat && c.toNat ≤ 126

theorem isPrintable_of_isPlain {c : Char} (hc : isPlain c = true) : isPrintable c = true := by
  simp only [isPlain, Bool.and_eq_true] at hc
  rw [isPrintable, Bool.and_eq_true]
  exact hc.1.1

/-- A printable character is escaped with a backslash at most. -/
theorem escapeChar_of_printable {c : Char} (hc : isPrintable c = true) :
    (∀ d ∈ escapeChar false c, isPrintable d = true) ∧ (escapeChar false c).length ≤ 2 := by
  by_cases hplain : isPlain c = true
  · rw [escapeChar_of_plain hplain]
    simp [hc]
  · have hcases : c = '"' ∨ c = '\\' := by
      simp only [isPrintable, Bool.and_eq_true, decide_eq_true_eq] at hc
      simp only [isPlain, Bool.and_eq_true, decide_eq_true_eq, ne_eq] at hplain
      tauto
    obtain rfl | rfl := hcases <;> decide

theorem renderChars_of_printable {cs : List Char} (h : ∀ c ∈ cs, isPrintable c = true) :
    (∀ c ∈ renderChars false cs, isPrintable c = true) ∧
      (renderChars false cs).length ≤ 2 * cs.length + 1 := by
  induction cs with
  | nil => decide
  | cons c cs ih =>
    obtain ⟨hc, hcs⟩ := List.forall_mem_cons.mp h
    obtain ⟨hprintable, hlength⟩ := escapeChar_of_printable hc
    obtain ⟨ihprintable, ihlength⟩ := ih hcs
    have hcons : renderChars false (c :: cs) = escapeChar false c ++ renderChars false cs := by
      simp [renderChars]
    rw [hcons]
    constructor
    · intro d hd
      obtain hd | hd := List.mem_append.mp hd
      · exact hprintable d hd
      · exact ihprintable d hd
    · rw [List.length_append, List.length_cons]
      omega

theorem bytes_of_printable {cs : List Char} (h : ∀ c ∈ cs, isPrintable c = true) :
    bytes cs = cs.length := by
  refine bytes_of_ascii fun c hc => ?_
  have hprintable := h c hc
  simp only [isPrintable, Bool.and_eq_true, decide_eq_true_eq] at hprintable
  omega

/-- The text of a list is printable when the texts of its items are. -/
theorem printable_list {xs : List Value}
    (h : ∀ x ∈ xs, ∀ c ∈ render false x, isPrintable c = true) :
    ∀ c ∈ render false (.list xs), isPrintable c = true := by
  have hitems : ∀ xs : List Value, (∀ x ∈ xs, ∀ c ∈ render false x, isPrintable c = true) →
      ∀ c ∈ renderItems false xs, isPrintable c = true := by
    intro xs
    induction xs with
    | nil =>
      intro _
      decide
    | cons x xs ih =>
      intro h
      obtain ⟨hx, hxs⟩ := List.forall_mem_cons.mp h
      rw [renderItems, List.cons_append, List.forall_mem_cons, List.forall_mem_append]
      exact ⟨by decide, hx, ih hxs⟩
  cases xs with
  | nil => decide
  | cons x xs =>
    obtain ⟨hx, hxs⟩ := List.forall_mem_cons.mp h
    rw [render, List.cons_append, List.forall_mem_cons, List.forall_mem_append]
    exact ⟨by decide, hx, hitems xs hxs⟩

/-- The text of an object is printable when its keys and the texts of its values are. -/
theorem printable_dict {es : List (String × Value)}
    (hkeys : ∀ e ∈ es, ∀ c ∈ e.1.toList, isPrintable c = true)
    (h : ∀ e ∈ es, ∀ c ∈ render false e.2, isPrintable c = true) :
    ∀ c ∈ render false (.dict es), isPrintable c = true := by
  have hentries : ∀ es : List (String × Value),
      (∀ e ∈ es, ∀ c ∈ e.1.toList, isPrintable c = true) →
      (∀ e ∈ es, ∀ c ∈ render false e.2, isPrintable c = true) →
      ∀ c ∈ renderEntries false es, isPrintable c = true := by
    intro es
    induction es with
    | nil =>
      intro _ _
      decide
    | cons e es ih =>
      intro hkeys h
      obtain ⟨hkey, hkeys⟩ := List.forall_mem_cons.mp hkeys
      obtain ⟨he, hes⟩ := List.forall_mem_cons.mp h
      simp only [renderEntries, List.cons_append, List.forall_mem_cons, List.forall_mem_append]
      exact ⟨by decide, by decide, (renderChars_of_printable hkey).1, by decide, he,
        ih hkeys hes⟩
  cases es with
  | nil => decide
  | cons e es =>
    obtain ⟨hkey, hkeys⟩ := List.forall_mem_cons.mp hkeys
    obtain ⟨he, hes⟩ := List.forall_mem_cons.mp h
    simp only [render, List.cons_append, List.forall_mem_cons, List.forall_mem_append]
    exact ⟨by decide, by decide, (renderChars_of_printable hkey).1, by decide, he,
      hentries es hkeys hes⟩

end Json

end Python

namespace ZoidbergChain

open Python

namespace CanonicalV3

/-! ## Values that can be written -/

/-- The value can be written in printable characters and read again, nests at most so deep, and
takes at most so many bytes. -/
structure Writes (depth n : Nat) (v : Value) : Prop extends Fits depth n v where
  json : jsonValue 0 v = .ok ()
  unique : Unique v
  printable : ∀ c ∈ Json.render false (Json.sortKeys v), Json.isPrintable c = true

theorem Writes.mono {depth depth' n n' : Nat} {v : Value} (h : Writes depth n v)
    (hdepth : depth ≤ depth') (hn : n ≤ n') : Writes depth' n' v :=
  ⟨h.toFits.mono hdepth hn, h.json, h.unique, h.printable⟩

theorem Writes.bounded {depth n limit : Nat} {v : Value} (h : Writes depth n v)
    (hn : n ≤ limit) : bounded v limit = .ok () :=
  bounded_eq_ok.mpr ⟨h.json, h.width.trans hn⟩

theorem Writes.fixed {depth n : Nat} {v : Value} (h : Writes depth n v) : fixed v v = .ok () :=
  fixed_self h.json

theorem Writes.canonical {depth n : Nat} {v : Value} (h : Writes depth n v) :
    canonical v = .ok (encodeUtf8 (canonicalText v)) :=
  canonical_eq_ok.mpr ⟨h.json, rfl⟩

/-- A text of printable characters. -/
theorem writes_text {s : String} {n : Nat} (hs : ∀ c ∈ s.toList, Json.isPrintable c = true)
    (hlength : s.length ≤ n) (hn : n ≤ maxRecord) : Writes 0 (2 * n + 2) (.str s) := by
  obtain ⟨hprintable, hwidth⟩ := Json.renderChars_of_printable hs
  have hrendered : ∀ c ∈ '"' :: Json.renderChars false s.toList, Json.isPrintable c = true :=
    List.forall_mem_cons.mpr ⟨by decide, hprintable⟩
  refine ⟨⟨le_refl 0, ?_⟩, ?_, trivial, hrendered⟩
  · rw [Json.width_str, Json.textWidth, Json.bytes_of_printable hrendered, List.length_cons]
    rw [String.length_toList] at hwidth
    omega
  · have hbytes : s.utf8ByteSize = s.length := by
      rw [utf8ByteSize_eq, Json.bytes_of_printable hs, String.length_toList]
    rw [jsonValue, text, require_pos (hlength.trans hn), ok_bind]
    exact require_pos (by omega)

theorem writes_plain {s : String} {n : Nat} (hs : ∀ c ∈ s.toList, Json.isPlain c = true)
    (hlength : s.length ≤ n) (hn : n ≤ maxRecord) : Writes 0 (n + 2) (.str s) := by
  obtain ⟨-, hjson, hunique, hprintable⟩ :=
    writes_text (fun c hc => Json.isPrintable_of_isPlain (hs c hc)) hlength hn
  exact ⟨fits_str hs hlength, hjson, hunique, hprintable⟩

theorem writes_hex {v : Value} {pre s : String} {n : Nat}
    (h : pattern v (isHexAfter pre n) = .ok s) (hpre : ∀ c ∈ pre.toList, Json.isPlain c = true)
    (hn : pre.length + n ≤ maxRecord) : Writes 0 (pre.length + n + 2) v := by
  obtain ⟨rfl, hhex⟩ := pattern_eq_ok.mp h
  obtain ⟨hplain, hlength⟩ := plain_of_hex hpre hhex
  exact writes_plain hplain (le_of_eq hlength) hn

theorem writes_h64 {v : Value} {s : String} (h : h64 v = .ok s) : Writes 0 66 v :=
  writes_hex h (by decide) (by decide)

theorem writes_wallet {v : Value} {s : String} (h : wallet v = .ok s) : Writes 0 44 v :=
  writes_hex h (by decide) (by decide)

theorem writes_submissionId {v : Value} {s : String} (h : submissionId v = .ok s) :
    Writes 0 34 v := writes_hex h (by decide) (by decide)

theorem writes_uint {v : Value} {low high n : Int} {k : Nat} (h : uint v low high = .ok n)
    (hk : 0 < k) (hlow : 0 ≤ low) (hhigh : high < (10 : Int) ^ k) (hmax : high ≤ maxUint) :
    Writes 0 k v := by
  have hfits := fits_uint h hk hlow hhigh
  obtain ⟨rfl, hn⟩ := uint_eq_ok.mp h
  refine ⟨hfits, require_pos (by omega), trivial, ?_⟩
  have hpos : ¬ n < 0 := by omega
  show ∀ c ∈ Json.renderInt n, Json.isPrintable c = true
  rw [Json.renderInt, if_neg hpos]
  intro c hc
  have hdigit := Nat.isDigit_of_mem_toDigits (b := 10) (by decide) (by decide) hc
  exact Json.isPrintable_of_isPlain (isPlain_of_isDigit hdigit)

/-- A text of the source. -/
theorem writes_constant {s : String} (hs : ∀ c ∈ s.toList, Json.isPlain c = true)
    (hlength : s.length ≤ maxRecord) : Writes 0 (s.length + 2) (.str s) :=
  writes_plain hs (le_refl _) hlength

theorem jsonItems_eq_ok {depth : Nat} {xs : List Value} :
    jsonItems depth xs = .ok () ↔ ∀ x ∈ xs, jsonValue depth x = .ok () := by
  induction xs with
  | nil => exact ⟨fun _ => nofun, fun _ => rfl⟩
  | cons x xs ih =>
    rw [jsonItems, bind_eq_ok, List.forall_mem_cons, ← ih]
    constructor
    · rintro ⟨⟨⟩, hx, hxs⟩
      exact ⟨hx, hxs⟩
    · rintro ⟨hx, hxs⟩
      exact ⟨(), hx, hxs⟩

theorem writes_list (count : Nat) {xs : List Value} {depth n : Nat} (hcount : 0 < count)
    (hlength : xs.length ≤ count) (hdepth : depth < maxDepth) (h : ∀ x ∈ xs, Writes depth n x) :
    Writes (depth + 1) (count * (n + 1) + 1) (.list xs) := by
  refine ⟨fits_list count hcount hlength fun x hx => (h x hx).toFits, ?_,
    objectsItems_iff.mpr fun x hx => (h x hx).unique, ?_⟩
  · rw [jsonValue, require_pos (by decide), ok_bind, jsonItems_eq_ok]
    exact fun x hx => jsonValue_of_nesting (h x hx).json (by have := (h x hx).nesting; omega)
  · rw [Json.sortKeys, sortItems_eq_map]
    refine Json.printable_list fun x hx => ?_
    obtain ⟨y, hy, rfl⟩ := List.mem_map.mp hx
    exact (h y hy).printable

/-- A key of the source. -/
def isKey (key : String) : Bool :=
  key.toList.all Json.isPlain && decide (key.length ≤ 64)

/-- The keys of an object of the source. -/
def areKeys (widths : List (String × Nat)) : Bool :=
  widths.all (fun w => isKey w.1) && decide (widths.map Prod.fst).Nodup

/-- The fields of an object with their widths. -/
def FieldsWrite (depth : Nat) : Dict → List (String × Nat) → Prop :=
  List.Forall₂ fun e w => e.1 = w.1 ∧ Writes depth w.2 e.2

theorem fieldsWrite_entry {d : Dict} {widths : List (String × Nat)} {depth : Nat}
    (h : FieldsWrite depth d widths) (hkeys : widths.all (fun w => isKey w.1) = true) :
    d.map Prod.fst = widths.map Prod.fst ∧
      ∀ e ∈ d, isKey e.1 = true ∧ ∃ n, Writes depth n e.2 := by
  induction h with
  | nil => exact ⟨rfl, nofun⟩
  | @cons e w d widths hfirst hrest ih =>
    obtain ⟨hkey, hwrites⟩ := hfirst
    rw [List.all_cons, Bool.and_eq_true] at hkeys
    obtain ⟨hsame, hentries⟩ := ih hkeys.2
    rw [List.map_cons, List.map_cons, hsame, List.forall_mem_cons, hkey]
    exact ⟨rfl, ⟨hkeys.1, _, hwrites⟩, hentries⟩

/-- An object of fields that can be written. -/
theorem writes_dict {d : Dict} {l : List (String × Nat)} {i : Nat}
    (h : FieldsWrite i d l) (hkeys : areKeys l = true)
    (hdepth : i < maxDepth) : Writes (i + 1) (objectWidth l) (.dict d) := by
  rw [areKeys, Bool.and_eq_true, decide_eq_true_eq] at hkeys
  obtain ⟨hsame, hentry⟩ := fieldsWrite_entry h hkeys.1
  have hplain : ∀ e ∈ d, ∀ c ∈ e.1.toList, Json.isPlain c = true := by
    intro e he
    have hkey := (hentry e he).1
    rw [isKey, Bool.and_eq_true] at hkey
    exact List.all_eq_true.mp hkey.1
  have hnodup : (d.map Prod.fst).Nodup := by
    rw [hsame]
    exact hkeys.2
  refine ⟨⟨?_, ?_⟩, ?_, ⟨hnodup, objectsEntries_iff.mpr fun e he => ?_⟩, ?_⟩
  · rw [nesting, Nat.succ_le_succ_iff, nestingEntries_le]
    intro e he
    obtain ⟨-, n, hwrites⟩ := hentry e he
    exact hwrites.nesting
  · cases h with
    | nil => decide
    | @cons e w d l hfirst hrest =>
      have hsum : ∀ {d : Dict} {l : List (String × Nat)}, FieldsWrite i d l →
          (∀ e ∈ d, ∀ c ∈ e.1.toList, Json.isPlain c = true) →
          (d.map fun e => Json.textWidth e.1 + Json.width e.2 + 2).sum ≤
            l.length + (l.map fun e => e.1.length + 3 + e.2).sum := by
        intro d l hd hplain
        induction hd with
        | nil => decide
        | @cons e w d l hfirst hrest ih =>
          obtain ⟨hkey, hwrites⟩ := hfirst
          obtain ⟨hplain, hplains⟩ := List.forall_mem_cons.mp hplain
          have hwidth := hwrites.width
          have htail := ih hplains
          have hkeyWidth := Json.textWidth_of_plain hplain
          rw [hkey] at hkeyWidth
          simp only [List.map_cons, List.sum_cons, List.length_cons, hkey, hkeyWidth]
          omega
      have hall := hsum (List.Forall₂.cons hfirst hrest) hplain
      rw [Json.width_dict (by simp), objectWidth]
      rw [List.length_cons] at hall ⊢
      omega
  · rw [jsonValue, require_pos (by decide), ok_bind, jsonEntries_eq_ok]
    intro e he
    obtain ⟨hkey, n, hwrites⟩ := hentry e he
    rw [isKey, Bool.and_eq_true, decide_eq_true_eq] at hkey
    refine ⟨?_, jsonValue_of_nesting hwrites.json (by have := hwrites.nesting; omega)⟩
    exact jsonValue_plain (n := 0) (hplain e he) (hkey.2.trans (by decide))
  · obtain ⟨-, n, hwrites⟩ := hentry e he
    exact hwrites.unique
  · rw [Json.sortKeys]
    have hsorted : ∀ e ∈ Json.sortEntries (Json.sortChildren d), ∃ e' ∈ d,
        e = (e'.1, Json.sortKeys e'.2) := by
      intro e he
      rw [(perm_sortEntries _).mem_iff, sortChildren_eq_map] at he
      obtain ⟨e', he', rfl⟩ := List.mem_map.mp he
      exact ⟨e', he', rfl⟩
    refine Json.printable_dict (fun e he c hc => ?_) (fun e he => ?_)
    · obtain ⟨e', he', rfl⟩ := hsorted e he
      exact Json.isPrintable_of_isPlain (hplain e' he' c hc)
    · obtain ⟨e', he', rfl⟩ := hsorted e he
      obtain ⟨-, n, hwrites⟩ := hentry e' he'
      exact hwrites.printable

/-- The text of a message inside a record. -/
theorem writes_message {v : Value} {depth n : Nat} (h : Writes depth n v) (hn : n ≤ maxRecord) :
    Writes 0 (2 * n + 2) (decodedText (encodeUtf8 (canonicalText v))) := by
  rw [decodedText, fromUTF8_encodeUtf8]
  refine writes_text ?_ ?_ hn
  · rw [Option.getD_some, canonicalText, String.toList_ofList]
    exact h.printable
  · rw [Option.getD_some, ← String.length_toList, canonicalText, String.toList_ofList,
      ← Json.bytes_of_printable h.printable]
    have hwidth := h.width
    rw [← width_sortKeys] at hwidth
    exact hwidth

/-! ## Checked texts -/

theorem writes_seconds {v : Value} {units : Nat} (h : seconds v = .ok units) : Writes 0 34 v := by
  obtain ⟨s, hs, h⟩ := bind_eq_ok.mp h
  obtain ⟨t, ht, -⟩ := bind_eq_ok.mp h
  obtain ⟨rfl, -, hlength, -⟩ := nonemptyText_eq_ok.mp hs
  obtain ⟨heq, hdecimal⟩ := pattern_eq_ok.mp ht
  obtain rfl := Value.str.inj heq
  exact writes_plain (plain_of_isDecimal hdecimal) hlength (by decide)

theorem isPlain_of_isOpaqueChar {c : Char} (hc : isOpaqueChar c = true) :
    Json.isPlain c = true := by
  have hrange : (48 ≤ c.toNat ∧ c.toNat ≤ 57) ∨ (65 ≤ c.toNat ∧ c.toNat ≤ 90) ∨
      (97 ≤ c.toNat ∧ c.toNat ≤ 122) ∨ c = '_' ∨ c = '-' := by
    simp only [isOpaqueChar, Char.isAlphanum, Char.isAlpha, Char.isUpper, Char.isLower,
      Char.isDigit, Bool.or_eq_true, Bool.and_eq_true, decide_eq_true_eq, beq_iff_eq, ge_iff_le,
      UInt32.le_iff_toNat_le] at hc
    obtain (((hupper | hlower) | hdigit) | hunderscore) | hdash := hc
    · exact .inr (.inl hupper)
    · exact .inr (.inr (.inl hlower))
    · exact .inl hdigit
    · exact .inr (.inr (.inr (.inl hunderscore)))
    · exact .inr (.inr (.inr (.inr hdash)))
  have hquote : c ≠ '"' := by
    rintro rfl
    revert hrange
    decide
  have hslash : c ≠ '\\' := by
    rintro rfl
    revert hrange
    decide
  have hprintable : 32 ≤ c.toNat ∧ c.toNat ≤ 126 := by
    obtain h | h | h | rfl | rfl := hrange
    · omega
    · omega
    · omega
    · decide
    · decide
  simp only [Json.isPlain, Bool.and_eq_true, decide_eq_true_eq, ne_eq]
  exact ⟨⟨hprintable, hquote⟩, hslash⟩

theorem writes_opaqueText {v : Value} {s : String} (h : opaqueText v = .ok s) :
    Writes 0 258 v := by
  obtain ⟨rfl, hs⟩ := pattern_eq_ok.mp h
  rw [Bool.and_eq_true, decide_eq_true_eq] at hs
  obtain ⟨⟨-, hlength⟩, hchars⟩ := hs
  refine writes_plain (fun c hc => ?_) hlength (by decide)
  exact isPlain_of_isOpaqueChar (List.all_eq_true.mp hchars c hc)

theorem plain_of_areDigits {low high : Nat} {cs : List Char} (h : areDigits low high cs = true) :
    ∀ c ∈ cs, Json.isPlain c = true := by
  rw [areDigits, Bool.and_eq_true] at h
  exact fun c hc => isPlain_of_isDigit (List.all_eq_true.mp h.2 c hc)

theorem plain_of_isFraction {cs : List Char} (h : isFraction cs = true) :
    ∀ c ∈ cs, Json.isPlain c = true := by
  unfold isFraction at h
  split at h
  · nofun
  · next cs =>
    rw [Bool.and_eq_true] at h
    exact List.forall_mem_cons.mpr ⟨by decide, plain_of_areDigits h.1⟩
  · cases h

/-- A time has digits, and delimiters that are plain. -/
theorem plain_of_timeParts {s : String} (h : (timeParts s).isSome = true) :
    ∀ c ∈ s.toList, Json.isPlain c = true := by
  simp only [timeParts] at h
  split at h
  · next hparts =>
    obtain ⟨hlength, hyear, hnumbers, h4, h7, h10, h13, h16, hfraction, hzone⟩ := hparts
    simp only [List.drop_succ_cons, List.drop_zero, List.all_cons, List.all_nil, Bool.and_true,
      Bool.and_eq_true] at hnumbers
    obtain ⟨hmonth, hday, hhour, hminute, hsecond⟩ := hnumbers
    have hsplit : s.toList = s.toList.take (4 + 1 + 2 + 1 + 2 + 1 + 2 + 1 + 2 + 1 + 2) ++
        ((s.toList.drop 19).take (s.toList.length - 25) ++
          s.toList.drop (s.toList.length - 6)) := by
      conv_lhs => rw [← List.take_append_drop 19 s.toList]
      congr 1
      conv_lhs => rw [← List.take_append_drop (s.toList.length - 25) (s.toList.drop 19)]
      rw [List.drop_drop]
      congr 2
      omega
    rw [hsplit]
    simp only [List.take_add, List.forall_mem_append, h4, h7, h10, h13, h16, hzone]
    exact ⟨⟨⟨⟨⟨⟨⟨⟨⟨⟨⟨plain_of_areDigits hyear, by decide⟩, plain_of_areDigits hmonth⟩, by decide⟩,
      plain_of_areDigits hday⟩, by decide⟩, plain_of_areDigits hhour⟩, by decide⟩,
      plain_of_areDigits hminute⟩, by decide⟩, plain_of_areDigits hsecond⟩,
      plain_of_isFraction hfraction, by decide⟩
  · cases h

theorem writes_timeUtc {v : Value} {parts : List Nat} (h : timeUtc v = .ok parts) :
    Writes 0 34 v := by
  obtain ⟨s, hs, h⟩ := bind_eq_ok.mp h
  obtain ⟨t, ht, -⟩ := bind_eq_ok.mp h
  obtain ⟨rfl, -, hlength, -⟩ := nonemptyText_eq_ok.mp hs
  obtain ⟨heq, htime⟩ := pattern_eq_ok.mp ht
  obtain rfl := Value.str.inj heq
  exact writes_plain (plain_of_timeParts htime) hlength (by decide)

theorem writes_expiry {issued expires : Value} {u : Unit} (h : expiry issued expires = .ok u) :
    Writes 0 34 issued ∧ Writes 0 34 expires := by
  obtain ⟨_, hexpires, h⟩ := bind_eq_ok.mp h
  obtain ⟨_, hissued, -⟩ := bind_eq_ok.mp h
  exact ⟨writes_timeUtc hissued, writes_timeUtc hexpires⟩

theorem writes_signature {v : Value} {s : String} (h : signature v = .ok s) :
    Writes 0 134 v := by
  obtain ⟨_, hpattern, -⟩ := bind_eq_ok.mp h
  exact writes_hex hpattern (by decide) (by decide)

theorem writes_sha256 (crypto : Crypto) (raw : ByteArray) :
    Writes 0 66 (.str (crypto.sha256Hex raw)) :=
  writes_h64 (h64_isHex64 (crypto.sha256Hex_isHex64 raw))

theorem writes_networkId (ctx : Context) : Writes 0 66 (.str ctx.networkId) := by
  obtain ⟨hplain, hlength⟩ := plain_networkId ctx
  exact writes_plain hplain hlength (by decide)

theorem writes_contextHash (ctx : Context) {s : String}
    (h : s ∈ [ctx.genesisHash, ctx.mediaPolicyDigest, ctx.reviewPolicyDigest]) :
    Writes 0 66 (.str s) :=
  writes_h64 (pattern_eq_ok.mpr ⟨rfl, ctx.hashes_valid s h⟩)

theorem writes_mediaPolicyId (ctx : Context) : Writes 0 84 (.str ctx.mediaPolicyId) := by
  obtain ⟨hplain, hlength⟩ := plain_networkId ctx
  refine writes_plain (n := 82) (fun c hc => ?_) ?_ (by decide)
  · rw [Context.mediaPolicyId, String.toList_append] at hc
    obtain hc | hc := List.mem_append.mp hc
    · exact hplain c hc
    · exact (by decide : ∀ c ∈ "/media-admission/2".toList, Json.isPlain c = true) c hc
  · rw [Context.mediaPolicyId, String.length_append]
    have hsuffix : "/media-admission/2".length = 18 := by decide
    omega

/-- One of some texts of the source. -/
theorem writes_member {s : String} {l : List String} {n : Nat} (h : s ∈ l)
    (hchoices : l.all (fun c => c.toList.all Json.isPlain && decide (c.length ≤ n)) = true)
    (hn : n ≤ maxRecord) : Writes 0 (n + 2) (.str s) := by
  have hs := List.all_eq_true.mp hchoices s h
  rw [Bool.and_eq_true, decide_eq_true_eq] at hs
  exact writes_plain (List.all_eq_true.mp hs.1) hs.2 hn

theorem writes_small {n : Int} {k : Nat} (h : 0 ≤ n ∧ n < (10 : Int) ^ k) (hk : 0 < k)
    (hmax : n ≤ maxUint) : Writes 0 k (.int n) :=
  writes_uint (uint_eq_ok.mpr ⟨rfl, h.1, le_refl n⟩) hk (le_refl 0) h.2 hmax

theorem writes_bool (b : Bool) : Writes 0 5 (.bool b) := by
  cases b
  · exact ⟨⟨by decide, by decide +kernel⟩, rfl, trivial, by decide⟩
  · exact ⟨⟨by decide, by decide +kernel⟩, rfl, trivial, by decide⟩

/-! ## Checks of objects -/

variable {crypto : Crypto} {ctx : Context}

theorem oneOf_eq_ok {v : Value} {choices : List String} {code s : String} :
    oneOf v choices code = .ok s ↔ v = .str s ∧ s ∈ choices := by
  cases v with
  | str t =>
    rw [oneOf]
    by_cases hmem : t ∈ choices
    · rw [if_pos hmem]
      constructor
      · intro h
        obtain rfl := Except.ok.inj h
        exact ⟨rfl, hmem⟩
      · rintro ⟨heq, -⟩
        rw [Value.str.inj heq]
    · rw [if_neg hmem]
      constructor
      · intro h
        cases h
      · rintro ⟨heq, hs⟩
        exact absurd (Value.str.inj heq ▸ hs) hmem
  | _ => simp [oneOf]

/-- The fields of a flat object are in order. -/
theorem sortKeys_field {v : Value} {key : String} (h : nesting v ≤ 1) :
    Json.sortKeys (v.field key) = v.field key := by
  have hflat : nesting (v.field key) = 0 := by
    cases v with
    | dict d =>
      rw [nesting, Nat.succ_le_succ_iff, nestingEntries_le] at h
      show nesting (Dict.get d key) = 0
      rw [Dict.get]
      cases hget : Dict.get? d key with
      | none => rfl
      | some w => exact Nat.le_zero.mp (h _ (Dict.mem_of_get? hget))
    | _ => rfl
  cases hv : v.field key with
  | list xs =>
    rw [hv, nesting] at hflat
    omega
  | dict d =>
    rw [hv, nesting] at hflat
    omega
  | _ => rfl

/-- An object with these keys, in this order, is closed. -/
theorem closed_of_keys {d : Dict} {fields optional l : List String}
    (hkeys : d.map Prod.fst = l)
    (h : (fields.all l.contains && l.all (fields ++ optional).contains) = true) :
    closed (.dict d) fields optional = .ok d := by
  have hdict : Dict.keys d = l := hkeys
  rw [Bool.and_eq_true] at h
  rw [closed, hdict, require_pos h, ok_bind]

/-- A field that is added behind the others. -/
theorem withoutKey_append {d : Dict} {key : String} {v : Value} (h : key ∉ d.map Prod.fst) :
    withoutKey (.dict (d ++ [(key, v)])) key = .dict d := by
  have hself : d.filter (fun e => decide (e.1 ≠ key)) = d := by
    refine List.filter_eq_self.mpr fun e he => decide_eq_true fun heq => ?_
    exact h (heq ▸ List.mem_map_of_mem he)
  rw [withoutKey, List.filter_append, hself]
  simp

/-- A field of an object that can be written is fixed at its value. -/
theorem fixed_of_mem {d : Dict} {depth n : Nat} (h : Writes (depth + 1) n (.dict d))
    (hdepth : depth < maxDepth) {e : String × Value} (he : e ∈ d) :
    (Value.dict d).field e.1 = e.2 ∧ fixed ((Value.dict d).field e.1) e.2 = .ok () := by
  have hfield : (Value.dict d).field e.1 = e.2 := by
    show Dict.get d e.1 = e.2
    rw [Dict.get_eq, Dict.get?_of_mem h.unique.1 he]
    rfl
  have hnesting := h.nesting
  rw [nesting, Nat.succ_le_succ_iff, nestingEntries_le] at hnesting
  have hjson := jsonValue_field h.json e.1
  rw [hfield] at hjson
  refine ⟨hfield, ?_⟩
  rw [hfield]
  exact fixed_eq_ok.mpr ⟨jsonValue_of_nesting hjson (by have := hnesting e he; omega), rfl⟩

theorem fieldsEqual_of_subset {d expected : Dict} {depth n : Nat}
    (h : Writes (depth + 1) n (.dict d)) (hdepth : depth < maxDepth) (hsubset : expected ⊆ d) :
    fieldsEqual (.dict d) expected = .ok () := by
  rw [fieldsEqual_eq_ok]
  exact fun e he => (fixed_of_mem h hdepth (hsubset he)).2

/-- A digest over the other fields. -/
theorem withoutDigest_append {d : Dict} {key : String} {depth n : Nat}
    (h : Writes depth n (.dict d)) (hkey : key ∉ d.map Prod.fst) :
    withoutDigest crypto (.dict (d ++
      [(key, .str (crypto.sha256Hex (encodeUtf8 (canonicalText (.dict d)))))])) key = .ok () := by
  have hstated : (Value.dict (d ++ [(key, .str (crypto.sha256Hex
      (encodeUtf8 (canonicalText (.dict d)))))])).field key =
      .str (crypto.sha256Hex (encodeUtf8 (canonicalText (.dict d)))) := by
    have hnodup : ((d ++ [(key, Value.str (crypto.sha256Hex
        (encodeUtf8 (canonicalText (.dict d)))))]).map Prod.fst).Nodup := by
      rw [List.map_append, List.nodup_append]
      refine ⟨h.unique.1, List.nodup_singleton key, fun k hk k' hk' heq => hkey ?_⟩
      have hk' : k' = key := List.mem_singleton.mp hk'
      rw [← hk', ← heq]
      exact hk
    show Dict.get _ key = _
    rw [Dict.get_eq, Dict.get?_of_mem hnodup
      (List.mem_append_right d (List.mem_singleton_self _))]
    rfl
  rw [withoutDigest, hstated, h64_isHex64 (crypto.sha256Hex_isHex64 _), ok_bind,
    withoutKey_append hkey, digest, h.canonical, ok_bind]
  exact require_pos rfl

/-- An envelope around a payload. -/
theorem writes_envelope {payload : Value} {depth n k : Nat} {purpose : String}
    (h : Writes depth n payload) (hdepth : depth < maxDepth)
    (hpurpose : purpose.toList.all Json.isPlain = true) (hlength : purpose.length ≤ k)
    (hk : k ≤ 64) : Writes (depth + 1) (n + 2 * k + 210) (envelope payload purpose ctx) := by
  have hflat : ∀ {n : Nat} {w : Value}, Writes 0 n w → Writes depth n w := fun hw =>
    hw.mono (Nat.zero_le depth) (le_refl _)
  have hmax : 64 ≤ maxRecord := by decide
  have hdomain : Writes 0 (k + 17 + 2) (.str ("zoidbergchain/" ++ purpose ++ "/v2")) := by
    refine writes_plain (fun c hc => ?_) ?_ ((by omega : k + 17 ≤ 81).trans (by decide))
    · simp only [String.toList_append, List.mem_append] at hc
      obtain (hc | hc) | hc := hc
      · exact (by decide : ∀ c ∈ "zoidbergchain/".toList, Json.isPlain c = true) c hc
      · exact List.all_eq_true.mp hpurpose c hc
      · exact (by decide : ∀ c ∈ "/v2".toList, Json.isPlain c = true) c hc
    · have hends : "zoidbergchain/".length = 14 ∧ "/v2".length = 3 := by decide
      rw [String.length_append, String.length_append]
      omega
  have hfields : FieldsWrite depth [("domain", .str ("zoidbergchain/" ++ purpose ++ "/v2")),
      ("network_id", .str ctx.networkId), ("object_type", .str purpose), ("payload", payload),
      ("protocol", .str "zoidbergchain"), ("protocol_version", .int 2)]
      [("domain", k + 17 + 2), ("network_id", 66), ("object_type", k + 2), ("payload", n),
        ("protocol", 15), ("protocol_version", 1)] := by
    simp only [FieldsWrite, List.forall₂_cons, List.forall₂_nil_left_iff, true_and, and_true]
    exact ⟨hflat hdomain, hflat (writes_networkId ctx),
      hflat (writes_plain (List.all_eq_true.mp hpurpose) hlength (hk.trans hmax)), h,
      hflat (writes_plain (n := 13) (by decide) (by decide) (by decide)),
      hflat (writes_small (by decide) (by decide) (by decide))⟩
  have hkeys : areKeys [("domain", k + 17 + 2), ("network_id", 66), ("object_type", k + 2),
      ("payload", n), ("protocol", 15), ("protocol_version", 1)] = true := by
    show areKeys [("domain", 0), ("network_id", 0), ("object_type", 0), ("payload", 0),
      ("protocol", 0), ("protocol_version", 0)] = true
    decide +kernel
  have hlengths : "domain".length = 6 ∧ "network_id".length = 10 ∧ "object_type".length = 11 ∧
      "payload".length = 7 ∧ "protocol".length = 8 ∧ "protocol_version".length = 16 := by decide
  refine (writes_dict hfields hkeys hdepth).mono (le_refl _) ?_
  simp only [objectWidth, List.map_cons, List.map_nil, List.sum_cons, List.sum_nil,
    List.length_cons, List.length_nil, hlengths]
  omega

end CanonicalV3

end ZoidbergChain
