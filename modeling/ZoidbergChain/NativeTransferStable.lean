import ZoidbergChain.NativeTransfer
import ZoidbergChain.Python.Plain

/-!
# Canonical transfer records are fixed points

Every field parser returns a text that it reads back unchanged, so that a
validated record passes `validate_transaction_shape` again with the same result.
The ledger depends on this: it validates a transaction once for its identity and
once more for its shape, and it revalidates stored records on every change of
their status.

- `parseNativeZoidAmount_eq_ok` says what an accepted amount is: the positional
  text of a normal decimal with at most six places.
- `readCanonicalFields_stable`, `readTxId_stable`: the signed part of a record.
- `validateTransactionShape_stable`: the whole record.
-/

namespace ZoidbergChain

open Python

variable {h : Host}

/-! ## Amounts -/

/-- A canonical amount: a normal decimal with at most six places. -/
def IsAmount (s : String) (c : Nat) : Prop :=
  ∃ e : Int, IsNormal c e ∧ -e ≤ 6 ∧ s = String.ofList (positional c e)

theorem parseNativeZoidAmount_eq_ok {v : Value} {allowZero : Bool} {s : String}
    (hs : parseNativeZoidAmount h v allowZero = .ok s) :
    ∃ c, IsAmount s c ∧ (allowZero = true ∨ c ≠ 0) := by
  unfold parseNativeZoidAmount at hs
  split at hs
  · cases hs
  · simp only [bind_eq_ok, require_eq_ok] at hs
    obtain ⟨-, -, -, -, -, -, hs⟩ := hs
    split at hs
    · cases hs
    · next n _ =>
      simp only [bind_eq_ok, require_eq_ok, pure_eq_ok] at hs
      obtain ⟨-, hneg, -, hzero, -, hplaces, rfl⟩ := hs
      obtain ⟨hnormal, hsign, hexp⟩ := normalize_isNormal n
      by_cases hc : n.coeff = 0
      · -- zero, with either sign, is written "0"
        have hnorm : n.normalize = ⟨n.neg, 0, 0⟩ := by
          rcases trim_cases n.coeff n.exp with ⟨-, ht⟩ | ⟨c, k, hc', hk, -⟩
          · unfold Numeral.normalize
            rw [ht]
            rfl
          · rw [hk] at hc
            rcases Nat.mul_eq_zero.mp hc with rfl | hpow
            · exact absurd rfl hc'
            · exact absurd hpow (Nat.pow_pos (by decide)).ne'
        refine ⟨0, ⟨0, Or.inl ⟨rfl, rfl⟩, by decide, ?_⟩, hzero.imp_right fun h => absurd hc h⟩
        rw [hnorm]
        cases n.neg <;> decide
      · have hfalse : n.neg = false := by simpa using fun hn => hneg ⟨hn, hc⟩
        obtain ⟨hc', hle⟩ := hexp hc
        have htext : n.normalize.fixedText = positional n.normalize.coeff n.normalize.exp := by
          rw [Numeral.fixedText, hsign, hfalse]
          rfl
        refine ⟨n.normalize.coeff, ⟨n.normalize.exp, hnormal, by omega, ?_⟩, Or.inr hc'⟩
        obtain ⟨d, t, hdt, hd⟩ := positional_head n.normalize.coeff n.normalize.exp
        rw [htext, stripFraction_positional hnormal, if_neg]
        rw [hdt]
        rintro (hnil | hminus)
        · cases hnil
        · obtain ⟨rfl, -⟩ := List.cons.inj hminus
          exact absurd hd (by decide)
    · cases hs

theorem IsAmount.chars {s : String} {c : Nat} (hs : IsAmount s c) :
    ∀ x ∈ s.toList, isPositional x = true := by
  obtain ⟨e, -, -, rfl⟩ := hs
  rw [String.toList_ofList]
  exact fun x hx => positional_chars hx

/-- A text of lower-case ASCII characters is its own lower case. -/
theorem lower_eq_self {s : String} (hs : ∀ x ∈ s.toList, x.toNat < 128 ∧ x.toLower = x) :
    h.lower s = s := by
  rw [h.lower_ascii s fun x hx => (hs x hx).1, ← String.toList_inj]
  have hmap : s.toList.map Char.toLower = s.toList := by
    conv_rhs => rw [← List.map_id s.toList]
    exact List.map_congr_left fun x hx => (hs x hx).2
  simpa [String.toLower] using hmap

/-- The texts that stand for no number. -/
def specialNames : List String :=
  ["nan", "+nan", "-nan", "inf", "+inf", "-inf", "infinity", "+infinity", "-infinity"]

/-- A positional text passes the first checks of an amount as it stands. -/
theorem positional_candidate {s : String} {c : Nat} {e : Int}
    (hse : s = String.ofList (positional c e)) :
    strip s = s ∧ h.lower s = s ∧ s ≠ "" ∧ 'e' ∉ s.toList ∧ s ∉ specialNames := by
  have hchars : ∀ x ∈ s.toList, isPositional x = true := by
    rw [hse, String.toList_ofList]
    exact fun x hx => positional_chars hx
  obtain ⟨d, t, hdt, hd⟩ := positional_head c e
  have hlist : s.toList = d :: t := by rw [hse, String.toList_ofList, hdt]
  refine ⟨strip_of_forall fun x hx => (isPositional_spec (hchars x hx)).2.2.1,
    lower_eq_self fun x hx =>
      ⟨by have := lt_of_isPositional (hchars x hx); omega, (isPositional_spec (hchars x hx)).2.1⟩,
    ?_, fun hmem => (isPositional_spec (hchars _ hmem)).2.2.2.2 rfl, ?_⟩
  · rintro rfl
    cases hlist
  · intro hmem
    have hfirst : ∀ w ∈ specialNames, w.toList.head?.all (fun x => !x.isDigit) = true := by decide
    have hnot := hfirst s hmem
    rw [hlist, List.head?_cons, Option.all_some, hd] at hnot
    cases hnot

/-- A canonical amount is parsed to itself. -/
theorem parseNativeZoidAmount_stable {s : String} {c : Nat} {allowZero : Bool}
    (hs : IsAmount s c) (hzero : allowZero = true ∨ c ≠ 0) :
    parseNativeZoidAmount h (.str s) allowZero = .ok s := by
  obtain ⟨e, hnormal, hplaces, hse⟩ := hs
  obtain ⟨d, t, hdt, hd⟩ := positional_head c e
  obtain ⟨hstrip, hlower, hne, hexponent, hspecial⟩ := positional_candidate (h := h) hse
  unfold specialNames at hspecial
  have hread : parseDecimal s = some (.finite
      (if 0 ≤ e then ⟨false, c * 10 ^ e.toNat, 0⟩ else ⟨false, c, e⟩)) := by
    rw [hse]
    exact parseDecimal_positional c e
  unfold parseNativeZoidAmount
  simp only [Value.trimmed_str, hstrip, hlower, require_pos hne, require_pos hspecial,
    require_pos hexponent, ok_bind, hread]
  have hnorm := normalize_positional hnormal
  generalize hn : (if 0 ≤ e then ⟨false, c * 10 ^ e.toNat, 0⟩ else ⟨false, c, e⟩ : Numeral) = n
    at hnorm
  have hneg : n.neg = false := by rw [← hn]; split <;> rfl
  have hcoeff : c ≠ 0 → n.coeff ≠ 0 := by
    intro hc
    rw [← hn]
    split
    · exact Nat.mul_ne_zero hc (Nat.pow_pos (by decide)).ne'
    · exact hc
  have hexp : -n.exp ≤ 6 := by
    rw [← hn]
    split
    · show -(0 : Int) ≤ 6
      decide
    · exact hplaces
  rw [require_pos (by simp [hneg]), require_pos (hzero.imp_right hcoeff), require_pos hexp, hnorm]
  have htext : Numeral.fixedText ⟨false, c, e⟩ = positional c e := rfl
  simp only [ok_bind, htext, stripFraction_positional hnormal]
  rw [if_neg]
  · rw [hse]
    rfl
  · rw [hdt]
    rintro (hnil | hminus)
    · cases hnil
    · obtain ⟨rfl, -⟩ := List.cons.inj hminus
      exact absurd hd (by decide)

/-- The value of a positional text. -/
theorem ofString_positional (c : Nat) (e : Int) :
    Decimal.ofString (String.ofList (positional c e)) = .ok (.finite (c * (10 : Rat) ^ e)) := by
  rw [Decimal.ofString, parseDecimal_positional]
  dsimp only
  split
  · next he =>
    obtain ⟨k, rfl⟩ := Int.eq_ofNat_of_zero_le he
    simp [Numeral.value]
  · simp [Numeral.value]

/-- The decimal of a canonical amount is its nonnegative value. -/
theorem IsAmount.decimal {s : String} {c : Nat} (hs : IsAmount s c) :
    ∃ q : Rat, Decimal.ofString s = .ok (.finite q) ∧ 0 ≤ q ∧ (q = 0 ↔ c = 0) := by
  obtain ⟨e, -, -, rfl⟩ := hs
  rw [Decimal.ofString, parseDecimal_positional]
  have hpow : (10 : Rat) ^ e ≠ 0 := zpow_ne_zero e (by norm_num)
  refine ⟨_, rfl, ?_, ?_⟩
  · split <;> simp only [Numeral.value, Bool.false_eq_true, if_false, one_mul]
    · positivity
    · exact mul_nonneg (Nat.cast_nonneg c) (zpow_nonneg (by norm_num) e)
  · split <;> simp [Numeral.value, hpow]

/-! ## The other field parsers -/

theorem parseTransferTimestamp_stable {v : Value} {t : String}
    (ht : parseTransferTimestamp h v = .ok t) :
    parseTransferTimestamp h (.str t) = .ok t ∧ t ≠ "" := by
  simp only [parseTransferTimestamp, bind_eq_ok, require_eq_ok] at ht
  obtain ⟨-, -, ht⟩ := ht
  split at ht
  · cases ht
  · cases ht
  · cases ht
  · next hiso =>
    cases ht
    obtain ⟨hself, hne, hstrip, hz⟩ := h.fromIsoformat_utc _ _ hiso
    have hreplace : String.ofList (t.toList.flatMap fun c =>
        if c = 'Z' then "+00:00".toList else [c]) = t := by
      have hflat : ∀ cs : List Char, 'Z' ∉ cs →
          (cs.flatMap fun c => if c = 'Z' then "+00:00".toList else [c]) = cs := by
        intro cs hcs
        induction cs with
        | nil => rfl
        | cons c cs ih =>
          have hc : c ≠ 'Z' := fun hc => hcs (by simp [hc])
          rw [List.flatMap_cons, if_neg hc, ih fun hmem => hcs (List.mem_cons_of_mem _ hmem)]
          rfl
      rw [hflat _ hz, String.ofList_toList]
    refine ⟨?_, hne⟩
    simp only [parseTransferTimestamp, Value.trimmed_str, hstrip, require_pos hne, ok_bind,
      hreplace, hself]

/-- Digits alone are grouped digits. -/
theorem readGroupedDigits_of_digits {ds : List Char} (hne : ds ≠ [])
    (hds : ∀ c ∈ ds, c.isDigit = true) : readGroupedDigits ds = some ds := by
  induction ds with
  | nil => exact absurd rfl hne
  | cons c ds ih =>
    have hc := hds c (by simp)
    cases ds with
    | nil => simp [readGroupedDigits, hc]
    | cons d ds =>
      have hd := hds d (by simp)
      have hund : d ≠ '_' := by rintro rfl; exact absurd hd (by decide)
      rw [readGroupedDigits.eq_def]
      split
      · next heq => cases heq
      · next heq => cases heq
      · next heq => cases heq; exact absurd rfl hund
      · next heq =>
        cases heq
        rw [if_pos hc, ih (by simp) fun x hx => hds x (List.mem_cons_of_mem _ hx)]
        rfl

/-- The digits of a natural number are a digit string that reads back as it. -/
theorem parseInt_toString {n : Int} (hn : 0 ≤ n) :
    strip (toString n) = toString n ∧ isDigitString (toString n) = true ∧
      parseInt (toString n) = some n := by
  obtain ⟨m, rfl⟩ : ∃ m : Nat, n = m := ⟨n.toNat, by omega⟩
  have htext : toString (m : Int) = String.ofList (Nat.toDigits 10 m) := by
    rw [← Nat.toString_eq_ofList_toDigits]
    rfl
  have hspec : ∀ x ∈ Nat.toDigits 10 m, _ := fun x hx =>
    isPositional_spec (x := x) (by simp [isPositional, isDigit_toDigits hx])
  have hstrip : stripChars (Nat.toDigits 10 m) = Nat.toDigits 10 m :=
    stripChars_eq_self (fun x hx => (hspec x (List.mem_of_mem_head? hx)).2.2.1)
      fun x hx => (hspec x (List.mem_of_mem_getLast? hx)).2.2.1
  have hmap : (Nat.toDigits 10 m).map asciiDigit = Nat.toDigits 10 m := by
    conv_rhs => rw [← List.map_id (Nat.toDigits 10 m)]
    exact List.map_congr_left fun x hx => (hspec x hx).1
  refine ⟨by rw [htext, strip, String.toList_ofList, hstrip], ?_, ?_⟩
  · rw [isDigitString, htext, Bool.and_eq_true]
    refine ⟨?_, ?_⟩
    · simp [← String.toList_inj, Nat.toDigits_ne_nil]
    · rw [String.toList_ofList, List.all_eq_true]
      intro x hx
      rw [isDigitChar, (hspec x hx).1, isDigit_toDigits hx, Bool.true_or]
  · cases hds : Nat.toDigits 10 m with
    | nil => exact absurd hds Nat.toDigits_ne_nil
    | cons d t =>
      have hd : d.isDigit = true := isDigit_toDigits (n := m) (by rw [hds]; simp)
      have hsign : readSign (d :: t) = (false, d :: t) := by
        unfold readSign
        split
        · next heq => cases heq; exact absurd hd (by decide)
        · next heq => cases heq; exact absurd hd (by decide)
        · rfl
      rw [parseInt, htext, String.toList_ofList, hstrip, hmap, hds, hsign]
      simp only
      rw [readGroupedDigits_of_digits (by simp) fun c hc =>
        isDigit_toDigits (n := m) (by rw [hds]; exact hc), ← hds]
      simp [Nat.ofDigitChars_ten_toDigits]

theorem parseTransferNonce_eq_ok {v : Value} {s : String} (hs : parseTransferNonce h v = .ok s) :
    strip s = s ∧ isDigitString s = true ∧ ∃ n : Int, 1 ≤ n ∧ (Value.str s).toInt = .ok n := by
  unfold parseTransferNonce at hs
  split at hs
  · cases hs
  · next n =>
    simp only [bind_eq_ok, require_eq_ok, pure_eq_ok] at hs
    obtain ⟨-, hn, rfl⟩ := hs
    obtain ⟨hstrip, hdigits, hread⟩ := parseInt_toString (show 0 ≤ n by omega)
    exact ⟨hstrip, hdigits, n, hn, by rw [Value.toInt, hread]⟩
  · simp only [bind_eq_ok, require_eq_ok, pure_eq_ok] at hs
    obtain ⟨-, -, -, hdigits, n, hread, -, hn, rfl⟩ := hs
    exact ⟨Value.strip_trimmed _ _, hdigits, n, hn, hread⟩

theorem parseTransferNonce_stable {v : Value} {s : String}
    (hs : parseTransferNonce h v = .ok s) : parseTransferNonce h (.str s) = .ok s := by
  obtain ⟨hstrip, hdigits, n, hn, hread⟩ := parseTransferNonce_eq_ok hs
  have hne : s ≠ "" := by
    rintro rfl
    exact absurd hdigits (by decide)
  simp only [parseTransferNonce, Value.trimmed_str, hstrip, require_pos hne, require_pos hdigits,
    hread, require_pos hn, ok_bind]
  rfl

theorem IsHex64.chars {s : String} (hs : IsHex64 s) :
    ∀ x ∈ s.toList, isLowerHex x = true := List.all_eq_true.mp hs.2

theorem IsHex64.lower_eq {s : String} (hs : IsHex64 s) : h.lower s = s :=
  lower_eq_self fun x hx => by
    have hhex := isHex_of_isLowerHex (hs.chars x hx)
    exact ⟨by have := lt_of_isHex hhex; omega, (toLower_of_isHex hhex).2 (hs.chars x hx)⟩

theorem IsHex64.strip_eq {s : String} (hs : IsHex64 s) : strip s = s :=
  strip_of_forall fun x hx => not_isSpace_of_isHex (isHex_of_isLowerHex (hs.chars x hx))

theorem IsHex64.ne_empty {s : String} (hs : IsHex64 s) : s ≠ "" := by
  rintro rfl
  exact absurd hs.1 (by decide)

@[simp] theorem IsHex64.lower_trimmed {s : String} (hs : IsHex64 s) :
    h.lower (Value.trimmed h.toRuntime (.str s)) = s := by
  rw [Value.trimmed_str, hs.strip_eq, hs.lower_eq]

theorem normalizeTxId_str {s : String} (hs : IsHex64 s) :
    normalizeTxId h (.str s) = some s := by
  simp only [normalizeTxId, hs.lower_trimmed, if_pos hs]

/-- A word of lower-case letters and underscores is its own lower-cased text. -/
theorem lower_trimmed_word {s : String}
    (hs : s.toList.all (fun x => x == '_' || x.isLower) = true) :
    h.lower (Value.trimmed h.toRuntime (.str s)) = s := by
  rw [List.all_eq_true] at hs
  have hspec : ∀ x ∈ s.toList, x.toNat < 128 ∧ x.toLower = x ∧ isSpace x = false := by
    intro x hx
    have hx' := hs x hx
    obtain ⟨n, hn, rfl⟩ : ∃ n, n < 128 ∧ x = Char.ofNat n := by
      refine ⟨x.toNat, ?_, (Char.ofNat_toNat x).symm⟩
      simp only [Bool.or_eq_true, beq_iff_eq] at hx'
      rcases hx' with rfl | hlow
      · decide
      · have hz : ('z' : Char).toNat = 122 := rfl
        simp only [Char.isLower, Bool.and_eq_true, decide_eq_true_eq, ge_iff_le,
          UInt32.le_iff_toNat_le] at hlow
        simp only [← Char.toNat_val] at *
        omega
    clear hx
    revert hx'
    revert n
    decide
  rw [Value.trimmed_str, strip_of_forall fun x hx => (hspec x hx).2.2]
  exact lower_eq_self fun x hx => ⟨(hspec x hx).1, (hspec x hx).2.1⟩

theorem normalizeTransactionStatus_of_mem {s : String} (hs : s ∈ nativeTransactionStatuses) :
    normalizeTransactionStatus h (.str s) = .ok s := by
  have hword : ∀ w ∈ nativeTransactionStatuses, w ≠ "" ∧
      w.toList.all (fun x => x == '_' || x.isLower) = true := by decide
  obtain ⟨hne, hchars⟩ := hword s hs
  have hor : (Value.str s).orElse (.str "signed_pending") = .str s :=
    Value.orElse_of_truthy (by simpa using hne)
  simp only [normalizeTransactionStatus, hor, lower_trimmed_word hchars, require_pos hs, ok_bind]
  rfl

theorem normalizeTransactionStatus_eq_ok {v : Value} {s : String}
    (hs : normalizeTransactionStatus h v = .ok s) : s ∈ nativeTransactionStatuses := by
  simp only [normalizeTransactionStatus, bind_eq_ok, require_eq_ok, pure_eq_ok] at hs
  obtain ⟨-, hmem, rfl⟩ := hs
  exact hmem

theorem normalizeTransferMemo_stable {v : Value} {memo : Option String}
    (hm : normalizeTransferMemo h v = .ok memo) :
    normalizeTransferMemo h (optionText memo) = .ok memo := by
  cases memo with
  | none => rfl
  | some s =>
    obtain ⟨hstrip, hne, hlen⟩ : strip s = s ∧ s ≠ "" ∧ s.toList.length ≤ 280 := by
      unfold normalizeTransferMemo at hm
      split at hm
      · cases hm
      · dsimp only at hm
        split at hm
        · cases hm
        · next hne =>
          simp only [bind_eq_ok, require_eq_ok, pure_eq_ok, Option.some.injEq] at hm
          obtain ⟨-, hlen, rfl⟩ := hm
          exact ⟨strip_strip _, hne, hlen⟩
    have htext : (Value.str s).text h.toRuntime = s := rfl
    simp only [optionText, normalizeTransferMemo, htext, hstrip, if_neg hne, require_pos hlen,
      ok_bind]
    rfl

/-- A normalized network identifier has only lower-case letters, digits and hyphens. -/
theorem normalizeNetworkId_stable {v : Value} {id : String}
    (hid : normalizeNetworkId h v = .ok id) : normalizeNetworkId h (.str id) = .ok id := by
  unfold normalizeNetworkId at hid
  split at hid
  · next s =>
    dsimp only at hid
    split at hid
    · next hvalid =>
      cases hid
      -- stripping commutes with lower-casing, so the result has no white space
      have hstrip : strip (h.lower (strip s)) = h.lower (strip s) := by
        rw [h.strip_lower, strip_strip]
      rw [hstrip] at hvalid
      have hchars : ∀ x ∈ (h.lower (strip s)).toList, isLowerAlnum x = true ∨ x = '-' := by
        unfold isValidNetworkId at hvalid
        split at hvalid
        · cases hvalid
        · next c cs hcs =>
          simp only [Bool.and_eq_true, List.all_eq_true, Bool.or_eq_true, beq_iff_eq] at hvalid
          rw [hcs]
          intro x hx
          rcases List.mem_cons.mp hx with rfl | hx
          · exact Or.inl hvalid.1.1
          · exact hvalid.2 x hx
      have hlower : h.lower (h.lower (strip s)) = h.lower (strip s) := by
        refine lower_eq_self fun x hx => ?_
        obtain ⟨n, hn, rfl⟩ : ∃ n, n < 128 ∧ x = Char.ofNat n := by
          refine ⟨x.toNat, ?_, (Char.ofNat_toNat x).symm⟩
          rcases hchars x hx with halnum | rfl
          · have hz : ('z' : Char).toNat = 122 := rfl
            have h9 : ('9' : Char).toNat = 57 := rfl
            simp only [isLowerAlnum, Char.isDigit, Char.isLower, Bool.or_eq_true,
              Bool.and_eq_true, decide_eq_true_eq, ge_iff_le, UInt32.le_iff_toNat_le] at halnum
            simp only [← Char.toNat_val] at *
            omega
          · decide
        have hcase := hchars _ hx
        clear hx
        revert hcase
        revert n
        decide
      simp only [normalizeNetworkId, hstrip, hlower, hvalid, if_true]
    · cases hid
  · cases hid

/-! ## The signed part of a record -/

/-- The signed entries of a versioned record. -/
def CanonicalFields.signedEntries (f : CanonicalFields) : Dict :=
  f.toDict ++ [("transaction_version", .int ZoidbergChain.protocolVersion),
    ("protocol_version", .int ZoidbergChain.protocolVersion),
    ("network_id", optionText f.networkId)]

/-- A dictionary carries the signed entries of a record. -/
def CarriesSigned (d : Dict) (f : CanonicalFields) : Prop :=
  ∀ e ∈ f.signedEntries, d.get? e.1 = some e.2

theorem CarriesSigned.get {d : Dict} {f : CanonicalFields} (hd : CarriesSigned d f) {k : String}
    {v : Value} (hmem : (k, v) ∈ f.signedEntries) : d.get k = v := by
  rw [Dict.get_eq, hd _ hmem]
  rfl

theorem readNetwork_stable {payload d : Dict} {network : String}
    (hn : readNetwork h payload = .ok network) (hd : d.get "network" = .str network) :
    readNetwork h d = .ok network := by
  simp only [readNetwork, bind_eq_ok, require_eq_ok, pure_eq_ok] at hn
  obtain ⟨-, hne, -, hvalid, rfl⟩ := hn
  simp only [readNetwork, hd, Value.trimmed_str, Value.strip_trimmed, require_pos hne,
    require_pos hvalid, ok_bind]
  rfl

theorem readVersion_eq_ok {v : Value} {supported n : Int} {field : String}
    (hn : readVersion v supported field = .ok n) : n = supported := by
  unfold readVersion at hn
  split at hn
  · simp only [bind_eq_ok, require_eq_ok, pure_eq_ok] at hn
    obtain ⟨-, hn, rfl⟩ := hn
    exact hn
  · cases hn

theorem readVersion_int (n : Int) (field : String) : readVersion (.int n) n field = .ok n := by
  simp only [readVersion, require_pos, ok_bind]
  rfl

/-- What accepted signed parts are: canonical addresses, and texts that stripping
keeps. -/
structure SignedParts.Canonical (h : Host) (parts : SignedParts) : Prop where
  fromAddress : IsWalletAddress parts.fromAddress
  toAddress : IsWalletAddress parts.toAddress
  addresses : parts.fromAddress ≠ parts.toAddress
  transactionType : parts.transactionType = "native_transfer"
  signature : strip parts.signature = parts.signature ∧ parts.signature ≠ ""
  signatureScheme : parts.signatureScheme = "personal_sign"
  signedMessage : strip parts.signedMessage = parts.signedMessage ∧ parts.signedMessage ≠ ""

theorem readSignedParts_eq_ok {payload : Dict} {network : String} {parts : SignedParts}
    (hp : readSignedParts h payload network = .ok parts) :
    parts.Canonical h ∧ parts.network = network := by
  unfold readSignedParts at hp
  split at hp
  · cases hp
  · next a ha =>
    split at hp
    · cases hp
    · next b hb =>
      simp only [bind_eq_ok, require_eq_ok, pure_eq_ok] at hp
      obtain ⟨-, hab, -, htype, -, hsig, -, hscheme, -, hmessage, rfl⟩ := hp
      exact ⟨⟨NativeTransfer.isWalletAddress_of_normalize ha,
        NativeTransfer.isWalletAddress_of_normalize hb, hab, htype,
        ⟨Value.strip_trimmed _ _, hsig⟩, hscheme, Value.strip_trimmed _ _, hmessage⟩, rfl⟩

theorem readSignedParts_stable {d : Dict} {network : String} {parts : SignedParts}
    (hp : parts.Canonical h) (hnetwork : parts.network = network)
    (hfrom : d.get "from_address" = .str parts.fromAddress)
    (hto : d.get "to_address" = .str parts.toAddress)
    (htype : d.get "transaction_type" = .str parts.transactionType)
    (hsig : d.get "signature" = .str parts.signature)
    (hscheme : d.get "signature_scheme" = .str parts.signatureScheme)
    (hmessage : d.get "signed_message" = .str parts.signedMessage) :
    readSignedParts h d network = .ok parts := by
  obtain ⟨n, a, b, ty, sig, scheme, message⟩ := parts
  obtain ⟨ha, hb, hab, rfl, ⟨hs, hsne⟩, rfl, hm, hmne⟩ := hp
  obtain rfl : n = network := hnetwork
  have hword : h.lower (strip "native_transfer") = "native_transfer" := by
    rw [← Value.trimmed_str h.toRuntime]
    exact lower_trimmed_word (by decide)
  have hscheme' : strip "personal_sign" = "personal_sign" := by decide
  simp only at ha hb hab hs hsne hm hmne hfrom hto htype hsig hscheme hmessage
  simp only [readSignedParts, hfrom, hto, htype, hsig, hscheme, hmessage,
    NativeTransfer.normalizeWalletAddress_str ha, NativeTransfer.normalizeWalletAddress_str hb,
    Value.trimmed_str, hword, hscheme', hs, hm, require_pos hab, require_pos hsne,
    require_pos hmne, require_pos, ok_bind]
  rfl

theorem readSignedMessageHash_eq_ok {payload : Dict} {message hash : String}
    (hh : readSignedMessageHash h payload message = .ok hash) :
    hash = hashTransferSigningMessage h message ∧ IsHex64 hash := by
  simp only [readSignedMessageHash, bind_eq_ok, require_eq_ok, pure_eq_ok] at hh
  obtain ⟨-, -, -, -, -, heq, hhash⟩ := hh
  rw [hhash] at heq
  exact ⟨heq, heq ▸ h.sha256Hex_isHex64 _⟩

theorem readSignedMessageHash_stable {d : Dict} {message hash : String}
    (hh : hash = hashTransferSigningMessage h message) (hhex : IsHex64 hash)
    (hd : d.get "signed_message_hash" = .str hash) :
    readSignedMessageHash h d message = .ok hash := by
  simp only [readSignedMessageHash, hd, hhex.lower_trimmed, require_pos hhex.ne_empty,
    normalizeTxId_str hhex, Option.isSome_some, require_pos hh, require_pos, ok_bind]
  rfl

/-- The parsed fields of a record, each a fixed point of its parser. -/
structure CanonicalFields.Parsed (h : Host) (f : CanonicalFields) : Prop where
  amount : ∃ c, IsAmount f.amount c ∧ c ≠ 0
  fee : ∃ c, IsAmount f.fee c
  nonce : parseTransferNonce h (.str f.nonce) = .ok f.nonce
  nonceInt : ∃ n : Int, 1 ≤ n ∧ (Value.str f.nonce).toInt = .ok n
  memo : normalizeTransferMemo h (optionText f.memo) = .ok f.memo
  timestamp : parseTransferTimestamp h (.str f.timestamp) = .ok f.timestamp
  timestamp_ne : f.timestamp ≠ ""

theorem readParsedFields_eq_ok {payload : Dict} {parts : SignedParts}
    {version : Option (Int × Int × String)} {hash : String} {f : CanonicalFields}
    (hf : readParsedFields h payload parts version hash = .ok f) :
    f.Parsed h ∧ f.transactionType = parts.transactionType ∧ f.network = parts.network ∧
      f.transactionVersion = version.map (·.1) ∧ f.protocolVersion = version.map (·.2.1) ∧
      f.networkId = version.map (·.2.2) ∧ f.fromAddress = parts.fromAddress ∧
      f.toAddress = parts.toAddress ∧ f.signature = parts.signature ∧
      f.signatureScheme = parts.signatureScheme ∧ f.signedMessage = parts.signedMessage ∧
      f.signedMessageHash = hash := by
  simp only [readParsedFields, bind_eq_ok, pure_eq_ok] at hf
  obtain ⟨amount, ha, fee, hfe, nonce, hno, memo, hme, time, hti, rfl⟩ := hf
  obtain ⟨c, hc, hczero⟩ := parseNativeZoidAmount_eq_ok ha
  obtain ⟨c', hc', -⟩ := parseNativeZoidAmount_eq_ok hfe
  have htime := parseTransferTimestamp_stable hti
  exact ⟨⟨⟨c, hc, by simpa using hczero⟩, ⟨c', hc'⟩, parseTransferNonce_stable hno,
    (parseTransferNonce_eq_ok hno).2.2, normalizeTransferMemo_stable hme, htime.1, htime.2⟩,
    rfl, rfl, rfl, rfl, rfl, rfl, rfl, rfl, rfl, rfl, rfl⟩

theorem readParsedFields_stable (parts : SignedParts)
    (version : Option (Int × Int × String)) (hash : String) {d : Dict} {f : CanonicalFields}
    (hf : f.Parsed h)
    (hamount : d.get "amount" = .str f.amount) (hfee : d.getD "fee" (.str "0") = .str f.fee)
    (hnonce : d.get "nonce" = .str f.nonce) (hmemo : d.get "memo" = optionText f.memo)
    (htime : d.get "timestamp" = .str f.timestamp) :
    readParsedFields h d parts version hash = .ok
      { transactionType := parts.transactionType, network := parts.network
        transactionVersion := version.map (·.1), protocolVersion := version.map (·.2.1)
        networkId := version.map (·.2.2), fromAddress := parts.fromAddress
        toAddress := parts.toAddress, amount := f.amount, fee := f.fee, nonce := f.nonce
        memo := f.memo, timestamp := f.timestamp, signature := parts.signature
        signatureScheme := parts.signatureScheme, signedMessage := parts.signedMessage
        signedMessageHash := hash } := by
  obtain ⟨c, hc, hczero⟩ := hf.amount
  obtain ⟨c', hc'⟩ := hf.fee
  simp only [readParsedFields, hamount, hfee, hnonce, hmemo, htime,
    parseNativeZoidAmount_stable hc (Or.inr hczero),
    parseNativeZoidAmount_stable hc' (Or.inl rfl), hf.nonce, hf.memo, hf.timestamp, ok_bind]
  rfl

/-- What an accepted versioned record is. -/
structure CanonicalFields.Versioned (h : Host) (f : CanonicalFields) : Prop where
  parsed : f.Parsed h
  parts : SignedParts.Canonical h ⟨f.network, f.fromAddress, f.toAddress, f.transactionType,
    f.signature, f.signatureScheme, f.signedMessage⟩
  network : strip f.network = f.network ∧ f.network ≠ "" ∧ isValidNetworkName f.network = true
  transactionVersion : f.transactionVersion = some ZoidbergChain.protocolVersion
  protocolVersion : f.protocolVersion = some ZoidbergChain.protocolVersion
  networkId : ∃ id, f.networkId = some id ∧ normalizeNetworkId h (.str id) = .ok id
  message : looksLikeProtocolV1NativeTransferMessage h f.signedMessage = true
  messageHash : f.signedMessageHash = hashTransferSigningMessage h f.signedMessage

theorem canonicalTransactionFieldsV1_eq_ok {payload : Dict} {f : CanonicalFields}
    (hf : canonicalTransactionFieldsV1 h payload = .ok f) : f.Versioned h := by
  simp only [canonicalTransactionFieldsV1, bind_eq_ok, require_eq_ok] at hf
  obtain ⟨network, hnetwork, tv, htv, pv, hpv, id, hid, parts, hparts, -, hlooks, hash, hhash,
    hparsed⟩ := hf
  obtain rfl := readVersion_eq_ok htv
  obtain rfl := readVersion_eq_ok hpv
  have hid' : normalizeNetworkId h (.str id) = .ok id := by
    unfold readNetworkId at hid
    split at hid
    · cases hid
    · exact normalizeNetworkId_stable hid
  obtain ⟨hcanonical, hnet⟩ := readSignedParts_eq_ok hparts
  obtain ⟨hhash, -⟩ := readSignedMessageHash_eq_ok hhash
  obtain ⟨hparsed, h1, h2, h3, h4, h5, h6, h7, h8, h9, h10, h11⟩ := readParsedFields_eq_ok hparsed
  simp only [readNetwork, bind_eq_ok, require_eq_ok, pure_eq_ok] at hnetwork
  obtain ⟨-, hne, -, hvalid, rfl⟩ := hnetwork
  refine ⟨hparsed, ?_, ?_, h3, h4, ⟨id, h5, hid'⟩, ?_, ?_⟩
  · rw [h1, h2, h6, h7, h8, h9, h10]
    exact hcanonical
  · rw [h2, hnet]
    exact ⟨Value.strip_trimmed _ _, hne, hvalid⟩
  · rw [h10]
    exact hlooks
  · rw [h10, h11]
    exact hhash

/-- The fields of a versioned record are read back from any dictionary that carries
them. -/
theorem canonicalTransactionFieldsV1_stable {d : Dict} {f : CanonicalFields}
    (hf : f.Versioned h) (hd : CarriesSigned d f) :
    canonicalTransactionFieldsV1 h d = .ok f := by
  obtain ⟨id, hid, hid'⟩ := hf.networkId
  obtain ⟨hstrip, hne, hvalid⟩ := hf.network
  have hget : ∀ {k : String} {v : Value}, (k, v) ∈ f.signedEntries → d.get k = v := hd.get
  have hfee : d.getD "fee" (.str "0") = .str f.fee := by
    rw [Dict.getD, hd ("fee", .str f.fee) (by simp [CanonicalFields.signedEntries,
      CanonicalFields.toDict])]
    rfl
  simp only [CanonicalFields.signedEntries, CanonicalFields.toDict, List.mem_append,
    List.mem_cons, List.not_mem_nil, or_false] at hget
  have hnetwork : readNetwork h d = .ok f.network := by
    simp only [readNetwork, hget (k := "network") (v := .str f.network) (by simp),
      Value.trimmed_str, hstrip, require_pos hne, require_pos hvalid, ok_bind]
    rfl
  have hnetworkId : readNetworkId h d = .ok id := by
    rw [readNetworkId, hget (k := "network_id") (v := .str id) (by simp [hid, optionText])]
    exact hid'
  have hparts := readSignedParts_stable hf.parts rfl (hget (by simp)) (hget (by simp))
    (hget (by simp)) (hget (by simp)) (hget (by simp)) (hget (by simp))
  have hhash : readSignedMessageHash h d f.signedMessage = .ok f.signedMessageHash :=
    readSignedMessageHash_stable hf.messageHash (hf.messageHash ▸ h.sha256Hex_isHex64 _)
      (hget (by simp))
  have hparsed := readParsedFields_stable ⟨f.network, f.fromAddress, f.toAddress,
    f.transactionType, f.signature, f.signatureScheme, f.signedMessage⟩
    (some (ZoidbergChain.protocolVersion, ZoidbergChain.protocolVersion, id))
    f.signedMessageHash hf.parsed (hget (by simp)) hfee (hget (by simp))
    (hget (by simp)) (hget (by simp))
  simp only [canonicalTransactionFieldsV1, hnetwork, hnetworkId, hparts, hhash, hparsed,
    hget (k := "transaction_version") (v := .int ZoidbergChain.protocolVersion) (by simp),
    hget (k := "protocol_version") (v := .int ZoidbergChain.protocolVersion) (by simp),
    readVersion_int, require_pos hf.message, ok_bind]
  have htv := hf.transactionVersion
  have hpv := hf.protocolVersion
  cases f
  simp only at htv hpv hid
  subst htv hpv hid
  rfl

theorem readCanonicalFields_stable {d : Dict} {f : CanonicalFields} (hf : f.Versioned h)
    (hd : CarriesSigned d f) : readCanonicalFields h d = .ok f := by
  have hversion : d.get "transaction_version" = .int ZoidbergChain.protocolVersion :=
    hd.get (by simp [CanonicalFields.signedEntries])
  have hpresent : (Value.int ZoidbergChain.protocolVersion).isNone = false := rfl
  rw [readCanonicalFields, hversion, hpresent, if_neg Bool.false_ne_true]
  exact canonicalTransactionFieldsV1_stable hf hd

/-- Legacy fields have no version, so fields with one are versioned fields. -/
theorem readCanonicalFields_eq_ok {payload : Dict} {f : CanonicalFields}
    (hf : readCanonicalFields h payload = .ok f) (hv : f.transactionVersion ≠ none) :
    f.Versioned h := by
  unfold readCanonicalFields at hf
  split at hf
  · simp only [canonicalTransactionFieldsLegacy, bind_eq_ok] at hf
    obtain ⟨-, -, -, -, parts, -, hash, -, -, -, hparsed⟩ := hf
    exact absurd (readParsedFields_eq_ok hparsed).2.2.2.1 hv
  · exact canonicalTransactionFieldsV1_eq_ok hf

/-! ## The identifier -/

theorem canonicalDomainHash_isHex64 {payload networkId : Value} {objectType : ObjectType}
    {id : String} (hid : canonicalDomainHash h payload objectType networkId = .ok id) :
    IsHex64 id := by
  simp only [canonicalDomainHash, bind_eq_ok, pure_eq_ok] at hid
  obtain ⟨data, -, rfl⟩ := hid
  exact h.sha256Hex_isHex64 data

theorem computeTransactionId_isHex64 {f : CanonicalFields} {id : String}
    (hid : computeTransactionId h f = .ok id) : IsHex64 id := by
  unfold computeTransactionId at hid
  split at hid
  · simp only [bind_eq_ok, pure_eq_ok] at hid
    obtain ⟨-, -, -, -, rfl⟩ := hid
    exact h.sha256Hex_isHex64 _
  · simp only [bind_eq_ok] at hid
    obtain ⟨-, -, hid⟩ := hid
    split at hid
    · cases hid
    · simp only [calculateProtocolV1TransactionId, bind_eq_ok] at hid
      obtain ⟨_, -, _, -, hid⟩ := hid
      exact canonicalDomainHash_isHex64 hid

theorem readTxId_eq_ok {payload : Dict} {f : CanonicalFields} {id : String}
    (hid : readTxId h payload f = .ok id) : computeTransactionId h f = .ok id := by
  simp only [readTxId] at hid
  split at hid
  · split at hid
    · cases hid
    · simp only [bind_eq_ok, require_eq_ok, pure_eq_ok] at hid
      obtain ⟨expected, hexpected, -, rfl, rfl⟩ := hid
      exact hexpected
  · exact hid

theorem readTxId_stable {d : Dict} {f : CanonicalFields} {id : String}
    (hid : computeTransactionId h f = .ok id) (hd : d.get "tx_id" = .str id) :
    readTxId h d f = .ok id := by
  have hhex := computeTransactionId_isHex64 hid
  simp only [readTxId, hd, hhex.lower_trimmed, hhex.ne_empty, normalizeTxId_str hhex, hid, ne_eq,
    not_false_eq_true, if_true, ok_bind, require_pos]
  rfl

/-! ## The whole record -/

/-- The local lifecycle of a record is read from a dictionary. -/
structure ReadsLifecycle (h : Host) (d : Dict) (t : NativeTransaction) : Prop where
  status : normalizeTransactionStatus h (d.get "status") = .ok t.status
  createdAt : parseTransferTimestamp h (d.get "created_at") = .ok t.createdAt
  updatedAt : parseTransferTimestamp h (d.get "updated_at") = .ok t.updatedAt
  admittedAt : parseOptionalTimestamp h (d.get "admitted_at") = .ok t.admittedAt
  includedBlockHash : textOrNone h (d.get "included_block_hash") = t.includedBlockHash
  includedBlockHeight :
    readIncludedBlockHeight (d.get "included_block_height") = .ok t.includedBlockHeight
  settledAt : parseOptionalTimestamp h (d.get "settled_at") = .ok t.settledAt
  rejectionReason : textOrNone h (d.get "rejection_reason") = t.rejectionReason

/-- A valid versioned record of the active network under its own identifier. -/
structure NativeTransaction.Valid (h : Host) (networkName : String) (t : NativeTransaction) :
    Prop where
  fields : t.fields.Versioned h
  network : requireActiveNetwork h networkName t.fields = .ok ()
  txId : computeTransactionId h t.fields = .ok t.txId

theorem validateTransactionShape_eq_ok {networkName : String} {payload : Dict}
    {t : NativeTransaction} (ht : validateTransactionShape h networkName payload = .ok t) :
    readCanonicalFields h payload = .ok t.fields ∧
      requireActiveNetwork h networkName t.fields = .ok () ∧
      computeTransactionId h t.fields = .ok t.txId ∧ ReadsLifecycle h payload t := by
  simp only [validateTransactionShape, bind_eq_ok, pure_eq_ok] at ht
  obtain ⟨f, hf, ⟨⟩, hnet, status, hstatus, id, hid, created, hcreated, updated, hupdated,
    admitted, hadmitted, height, hheight, settled, hsettled, rfl⟩ := ht
  refine ⟨hf, hnet, readTxId_eq_ok hid, ?_⟩
  constructor <;> dsimp only
  · exact hstatus
  · exact hcreated
  · exact hupdated
  · exact hadmitted
  · exact hheight
  · exact hsettled

theorem validateTransactionShape_valid {networkName : String} {payload : Dict}
    {t : NativeTransaction} (ht : validateTransactionShape h networkName payload = .ok t)
    (hv : t.fields.transactionVersion ≠ none) : t.Valid h networkName := by
  obtain ⟨hf, hnet, hid, -⟩ := validateTransactionShape_eq_ok ht
  exact ⟨readCanonicalFields_eq_ok hf hv, hnet, hid⟩

/-- A record is read back from any dictionary that carries its signed entries and its
identifier, with the lifecycle that the dictionary has. -/
theorem validateTransactionShape_stable {networkName : String} {d : Dict}
    {t : NativeTransaction} (ht : t.Valid h networkName) (hd : CarriesSigned d t.fields)
    (hid : d.get "tx_id" = .str t.txId) (hl : ReadsLifecycle h d t) :
    validateTransactionShape h networkName d = .ok t := by
  simp only [validateTransactionShape, readCanonicalFields_stable ht.fields hd, ht.network,
    hl.status, readTxId_stable ht.txId hid, hl.createdAt, hl.updatedAt, hl.admittedAt,
    hl.includedBlockHash, hl.includedBlockHeight, hl.settledAt, hl.rejectionReason, ok_bind]
  rfl

/-! ## The dictionary of a record -/

/-- The keys of the dictionary of a versioned record. -/
def nativeTransactionKeys : List String :=
  ["tx_id", "transaction_type", "network", "from_address", "to_address", "amount", "fee", "nonce",
    "timestamp", "signature", "signature_scheme", "signed_message", "signed_message_hash", "status",
    "created_at", "updated_at", "admitted_at", "memo", "included_block_hash",
    "included_block_height", "settled_at", "rejection_reason", "transaction_version",
    "protocol_version", "network_id"]

theorem NativeTransaction.keys_toDict {t : NativeTransaction} (ht : t.fields.Versioned h) :
    t.toDict.keys = nativeTransactionKeys := by
  obtain ⟨id, hid, -⟩ := ht.networkId
  simp only [NativeTransaction.toDict, ht.transactionVersion, ht.protocolVersion, hid]
  rfl

theorem NativeTransaction.nodup_keys_toDict {t : NativeTransaction} (ht : t.fields.Versioned h) :
    t.toDict.keys.Nodup := by
  rw [NativeTransaction.keys_toDict ht]
  decide

theorem NativeTransaction.carriesSigned_toDict {t : NativeTransaction}
    (ht : t.fields.Versioned h) : CarriesSigned t.toDict t.fields := by
  obtain ⟨id, hid, -⟩ := ht.networkId
  intro e he
  simp only [CanonicalFields.signedEntries, CanonicalFields.toDict, List.mem_append,
    List.mem_cons, List.not_mem_nil, or_false, hid] at he
  simp only [NativeTransaction.toDict, ht.transactionVersion, ht.protocolVersion, hid]
  rcases he with (rfl | rfl | rfl | rfl | rfl | rfl | rfl | rfl | rfl | rfl | rfl | rfl | rfl) |
    rfl | rfl | rfl <;> rfl

theorem parseOptionalTimestamp_stable {v : Value} {t : Option String}
    (ht : parseOptionalTimestamp h v = .ok t) :
    parseOptionalTimestamp h (optionText t) = .ok t := by
  unfold parseOptionalTimestamp at ht
  split at ht
  · simp only [bind_eq_ok, pure_eq_ok] at ht
    obtain ⟨s, hs, rfl⟩ := ht
    obtain ⟨hstable, hne⟩ := parseTransferTimestamp_stable hs
    have hpresent : Value.isPresent (.str s) = true := by
      simpa [Value.isPresent, Value.isNone, Value.pyEq] using hne
    rw [optionText, parseOptionalTimestamp, if_pos hpresent, hstable]
    rfl
  · cases ht
    rfl

theorem textOrNone_stable {v : Value} {t : Option String} (ht : textOrNone h v = t) :
    textOrNone h (optionText t) = t := by
  unfold textOrNone at ht
  dsimp only at ht
  split at ht
  · subst ht
    rfl
  · next hne =>
    subst ht
    simp [optionText, textOrNone, Value.strip_trimmed, hne]

theorem readIncludedBlockHeight_stable {v : Value} {n : Option Int}
    (hn : readIncludedBlockHeight v = .ok n) : readIncludedBlockHeight (optionInt n) = .ok n := by
  unfold readIncludedBlockHeight at hn
  split at hn
  · simp only [bind_eq_ok, require_eq_ok, pure_eq_ok] at hn
    obtain ⟨m, -, -, hm, rfl⟩ := hn
    have hpresent : Value.isPresent (.int m) = true := by
      simp [Value.isPresent, Value.isNone, Value.pyEq, Value.number?]
    rw [optionInt, readIncludedBlockHeight, if_pos hpresent]
    simp only [includedBlockHeightInt, Value.toInt, ok_bind, require_pos hm]
    rfl
  · cases hn
    rfl

/-- The lifecycle of a record is read back from its own dictionary. -/
theorem NativeTransaction.readsLifecycle_toDict {payload : Dict} {t : NativeTransaction}
    (ht : ReadsLifecycle h payload t) : ReadsLifecycle h t.toDict t where
  status := normalizeTransactionStatus_of_mem (normalizeTransactionStatus_eq_ok ht.status)
  createdAt := (parseTransferTimestamp_stable ht.createdAt).1
  updatedAt := (parseTransferTimestamp_stable ht.updatedAt).1
  admittedAt := parseOptionalTimestamp_stable ht.admittedAt
  includedBlockHash := textOrNone_stable ht.includedBlockHash
  includedBlockHeight := readIncludedBlockHeight_stable ht.includedBlockHeight
  settledAt := parseOptionalTimestamp_stable ht.settledAt
  rejectionReason := textOrNone_stable ht.rejectionReason

/-- The lifecycle depends only on its own keys. -/
theorem ReadsLifecycle.congr {d e : Dict} {t : NativeTransaction} (ht : ReadsLifecycle h e t)
    (hd : ∀ k ∈ nativeTransactionKeys, d.get? k = e.get? k) : ReadsLifecycle h d t := by
  have hget : ∀ k ∈ nativeTransactionKeys, d.get k = e.get k := fun k hk =>
    Dict.get_congr (hd k hk)
  constructor
  · rw [hget _ (by decide)]
    exact ht.status
  · rw [hget _ (by decide)]
    exact ht.createdAt
  · rw [hget _ (by decide)]
    exact ht.updatedAt
  · rw [hget _ (by decide)]
    exact ht.admittedAt
  · rw [hget _ (by decide)]
    exact ht.includedBlockHash
  · rw [hget _ (by decide)]
    exact ht.includedBlockHeight
  · rw [hget _ (by decide)]
    exact ht.settledAt
  · rw [hget _ (by decide)]
    exact ht.rejectionReason

/-- A dictionary that agrees with a validated record on its keys is that record. -/
theorem validateTransactionShape_of_agrees {networkName : String} {payload d : Dict}
    {t : NativeTransaction} (ht : t.Valid h networkName) (hl : ReadsLifecycle h payload t)
    (hd : ∀ k ∈ nativeTransactionKeys, d.get? k = t.toDict.get? k) :
    validateTransactionShape h networkName d = .ok t := by
  refine validateTransactionShape_stable ht ?_ ?_ ?_
  · intro e he
    have hmem : e.1 ∈ nativeTransactionKeys := by
      rw [← NativeTransaction.keys_toDict ht.fields]
      by_contra hnot
      have := NativeTransaction.carriesSigned_toDict ht.fields e he
      rw [Dict.get?_eq_none.mpr hnot] at this
      cases this
    rw [hd _ hmem]
    exact NativeTransaction.carriesSigned_toDict ht.fields e he
  · rw [Dict.get_eq, hd _ (by decide)]
    rfl
  · exact (NativeTransaction.readsLifecycle_toDict hl).congr hd

end ZoidbergChain
