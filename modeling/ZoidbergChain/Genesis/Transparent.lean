import ZoidbergChain.Genesis.Structure
import ZoidbergChain.Bft.Encoding

/-!
# The scan of a genesis is transparent

What `_prescan` and `_outer_tree` bound is bounded by the rest of `_structure` too, but for the
digests that only `_commitments` looks at.

- `Fits`: every container and every text of a value is small, no text needs an escape, and
  nothing is null. The scan and the tree walk accept such values (`preScan_of_fits`,
  `outerTree_of_fits`).
- `fits_of_structure`: a genesis of the right structure fits, if its digests are digests.
-/

namespace ZoidbergChain

open Python CanonicalV3 Bft

namespace Genesis

/-! ## Small values -/

/-- A text that is written without escapes in a token that is short enough. -/
def FitsText (s : String) : Prop :=
  s.length ≤ maxToken ∧ s.toList.all Json.isPlain = true

/-- For a literal, the characters are looked at as a list. -/
theorem fitsText_lit (cs : List Char)
    (h : cs.length ≤ maxToken ∧ cs.all Json.isPlain = true) :
    FitsText (String.ofList cs) := by
  rwa [FitsText, String.length_ofList, String.toList_ofList]

/-- The order of two literals, looked at as lists. -/
theorem lt_lit (cs ds : List Char) (h : cs < ds) :
    String.ofList cs < String.ofList ds := by
  show (String.ofList cs).toList < (String.ofList ds).toList
  rwa [String.toList_ofList, String.toList_ofList]

/-- Keys are in order when neighbours are. -/
theorem ascending_of_chain {keys : List String} (h : keys.IsChain (· < ·)) :
    keys.Pairwise (· < ·) := by
  have : Trans (α := String) (· < ·) (· < ·) (· < ·) := ⟨lt_trans⟩
  exact List.isChain_iff_pairwise.mp h

mutual

/-- Small containers, texts that fit, and no null. -/
def Fits : Value → Prop
  | .null => False
  | .str s => FitsText s
  | .list xs => xs.length ≤ maxElements ∧ FitsItems xs
  | .dict es => es.length ≤ maxMembers ∧ FitsEntries es
  | _ => True

def FitsItems : List Value → Prop
  | [] => True
  | x :: xs => Fits x ∧ FitsItems xs

def FitsEntries : List (String × Value) → Prop
  | [] => True
  | (k, v) :: es => FitsText k ∧ Fits v ∧ FitsEntries es

end

theorem fitsItems_iff {xs : List Value} : FitsItems xs ↔ ∀ x ∈ xs, Fits x := by
  induction xs with
  | nil => simp [FitsItems]
  | cons x xs ih => simp [FitsItems, ih]

theorem fitsEntries_iff {es : List (String × Value)} :
    FitsEntries es ↔ ∀ e ∈ es, FitsText e.1 ∧ Fits e.2 := by
  induction es with
  | nil => simp [FitsEntries]
  | cons e es ih =>
    obtain ⟨k, v⟩ := e
    simp [FitsEntries, ih, and_assoc]

/-- An entry with a literal for its key. -/
theorem fits_field {v : Value} (cs : List Char)
    (h : cs.length ≤ maxToken ∧ cs.all Json.isPlain = true) (hv : Fits v) :
    FitsText (String.ofList cs) ∧ Fits v :=
  ⟨fitsText_lit cs h, hv⟩

mutual

/-- The walk over the tree accepts what fits. -/
theorem outerTree_of_fits : ∀ {v : Value}, Fits v → outerTree v = .ok ()
  | .null, h => h.elim
  | .bool _, _ | .int _, _ | .float _, _ | .bytes _, _ => rfl
  | .str _, h => require_pos h.1
  | .list xs, h => by rw [outerTree, require_pos h.1, ok_bind, outerItems_of_fits h.2]
  | .dict es, h => by rw [outerTree, require_pos h.1, ok_bind, outerEntries_of_fits h.2]

theorem outerItems_of_fits : ∀ {xs : List Value}, FitsItems xs → outerItems xs = .ok ()
  | [], _ => rfl
  | x :: xs, h => by rw [outerItems, outerTree_of_fits h.1, ok_bind, outerItems_of_fits h.2]

theorem outerEntries_of_fits : ∀ {es : List (String × Value)}, FitsEntries es →
    outerEntries es = .ok ()
  | [], _ => rfl
  | (k, v) :: es, h => by
    rw [outerEntries, outerTree_of_fits h.2.1, ok_bind, outerEntries_of_fits h.2.2]

end

mutual

theorem within_of_fits : ∀ {v : Value}, Fits v → Within v
  | .null, h => h.elim
  | .bool _, _ | .int _, _ | .float _, _ | .bytes _, _ | .str _, _ => trivial
  | .list _, h => ⟨h.1, withinItems_of_fits h.2⟩
  | .dict _, h => ⟨h.1, withinEntries_of_fits h.2⟩

theorem withinItems_of_fits : ∀ {xs : List Value}, FitsItems xs → WithinItems xs
  | [], _ => trivial
  | _ :: _, h => ⟨within_of_fits h.1, withinItems_of_fits h.2⟩

theorem withinEntries_of_fits : ∀ {es : List (String × Value)}, FitsEntries es →
    WithinEntries es
  | [], _ => trivial
  | (_, _) :: _, h => ⟨within_of_fits h.2.1, withinEntries_of_fits h.2.2⟩

end

/-- A text that fits is its own token. -/
theorem bytes_token {s : String} (h : FitsText s) :
    Json.bytes (s.toList.flatMap (Json.escapeChar false)) ≤ maxToken := by
  have hplain : ∀ c ∈ s.toList, Json.isPlain c = true := List.all_eq_true.mp h.2
  have hsame := Json.renderChars_of_plain hplain
  rw [Json.renderChars] at hsame
  have hascii : ∀ c ∈ s.toList, c.toNat < 128 := by
    intro c hc
    have hc := hplain c hc
    simp only [Json.isPlain, Bool.and_eq_true, decide_eq_true_eq] at hc
    omega
  rw [List.append_cancel_right hsame, Json.bytes_of_ascii hascii, String.length_toList]
  exact h.1

mutual

theorem short_of_fits : ∀ {v : Value}, Fits v → Short (Json.tokens v)
  | .null, h => h.elim
  | .bool _, _ | .int _, _ | .float _, _ | .bytes _, _ => short_nil
  | .str _, h => List.forall_mem_singleton.mpr (bytes_token h)
  | .list _, h => shortItems_of_fits h.2
  | .dict _, h => shortEntries_of_fits h.2

theorem shortItems_of_fits : ∀ {xs : List Value}, FitsItems xs → Short (Json.tokensItems xs)
  | [], _ => short_nil
  | _ :: _, h => short_append.mpr ⟨short_of_fits h.1, shortItems_of_fits h.2⟩

theorem shortEntries_of_fits : ∀ {es : List (String × Value)}, FitsEntries es →
    Short (Json.tokensEntries es)
  | [], _ => short_nil
  | (_, _) :: _, h => List.forall_mem_cons.mpr
      ⟨bytes_token h.1, short_append.mpr ⟨short_of_fits h.2.1, shortEntries_of_fits h.2.2⟩⟩

end

mutual

/-- A value that has passed `_json_value` nests as deep as there is room. -/
theorem nesting_of_jsonValue : ∀ {depth : Nat} {v : Value}, jsonValue depth v = .ok () →
    nesting v = 0 ∨ depth + nesting v ≤ maxDepth
  | _, .null, _ | _, .bool _, _ | _, .int _, _ | _, .float _, _ | _, .bytes _, _
  | _, .str _, _ => Or.inl rfl
  | depth, .list xs, h => by
    obtain ⟨⟨⟩, hdepth, h⟩ := bind_eq_ok.mp h
    have hroom := nesting_of_jsonItems (require_eq_ok.mp hdepth) h
    rw [nesting]
    omega
  | depth, .dict es, h => by
    obtain ⟨⟨⟩, hdepth, h⟩ := bind_eq_ok.mp h
    have hroom := nesting_of_jsonEntries (require_eq_ok.mp hdepth) h
    rw [nesting]
    omega

theorem nesting_of_jsonItems : ∀ {depth : Nat} {xs : List Value}, depth < maxDepth →
    jsonItems (depth + 1) xs = .ok () → depth + 1 + nestingItems xs ≤ maxDepth
  | _, [], hdepth, _ => hdepth
  | depth, x :: xs, hdepth, h => by
    obtain ⟨⟨⟩, hx, hxs⟩ := bind_eq_ok.mp h
    have hhead := nesting_of_jsonValue hx
    have htail := nesting_of_jsonItems hdepth hxs
    rw [nestingItems]
    omega

theorem nesting_of_jsonEntries : ∀ {depth : Nat} {es : List (String × Value)},
    depth < maxDepth → jsonEntries (depth + 1) es = .ok () →
    depth + 1 + nestingEntries es ≤ maxDepth
  | _, [], hdepth, _ => hdepth
  | depth, (k, v) :: es, hdepth, h => by
    obtain ⟨⟨⟩, -, h⟩ := bind_eq_ok.mp h
    obtain ⟨⟨⟩, hv, hes⟩ := bind_eq_ok.mp h
    have hhead := nesting_of_jsonValue hv
    have htail := nesting_of_jsonEntries hdepth hes
    rw [nestingEntries]
    omega

end

/-- The scan accepts the canonical text of what fits. -/
theorem preScan_of_fits {raw : ByteArray} {limit : Nat} {v : Value}
    (hlimit : limit ≤ genesisLimit) (h : CanonicalV3.parse raw limit = .ok v) (hfits : Fits v) :
    preScan raw = .ok () := by
  obtain ⟨hsize, hordered, hcanonical⟩ := CanonicalV3.parse_eq_ok.mp h
  obtain ⟨hv, rfl⟩ := canonical_eq_ok.mp hcanonical
  have htext : (canonicalText v).toList = Json.render false v := by
    rw [canonicalText, String.toList_ofList, sortKeys_of_ordered hordered]
  have hdocument := Json.document_render (Json.plain_of_reads (reads_of_jsonValue hv hordered))
  rw [← htext] at hdocument
  refine (preScan_document (fromUTF8_encodeUtf8 _) hdocument).mpr
    ⟨hsize.trans hlimit, ⟨within_of_fits hfits, ?_⟩, short_of_fits hfits⟩
  obtain hzero | hroom := nesting_of_jsonValue hv
  · exact hzero ▸ Nat.zero_le _
  · rwa [Nat.zero_add] at hroom

/-! ## Fields that fit -/

theorem fitsText_of_plain {s : String} (hplain : ∀ c ∈ s.toList, Json.isPlain c = true)
    (hlength : s.length ≤ maxToken) : FitsText s := ⟨hlength, List.all_eq_true.mpr hplain⟩

theorem fits_of_exactly {v : Value} {n : Int} {code : String} (h : exactly v n code = .ok ()) :
    Fits v := by
  obtain ⟨k, hk, -⟩ := bind_eq_ok.mp h
  rw [(uint_eq_ok.mp hk).1]
  trivial

theorem fits_of_isText {v : Value} {s : String} (h : isText v s) (hs : FitsText s) : Fits v := by
  rw [isText_iff.mp h]
  exact hs

theorem fits_of_pattern {v : Value} {regex : String → Bool} {s : String}
    (h : pattern v regex = .ok s) (hregex : regex s = true → FitsText s) : Fits v := by
  obtain ⟨rfl, hs⟩ := pattern_eq_ok.mp h
  exact hregex hs

theorem fitsText_of_hex {pre : String} {n : Nat} {s : String}
    (hpre : ∀ c ∈ pre.toList, Json.isPlain c = true) (hlength : pre.length + n ≤ maxToken)
    (h : isHexAfter pre n s = true) : FitsText s := by
  obtain ⟨hplain, hsize⟩ := plain_of_hex hpre h
  exact fitsText_of_plain hplain (hsize ▸ hlength)

theorem fits_of_h64 {v : Value} {s : String} (h : h64 v = .ok s) : Fits v :=
  fits_of_pattern h (fitsText_of_hex (by decide) (by decide))

theorem fits_of_wallet {v : Value} {s : String} (h : wallet v = .ok s) : Fits v :=
  fits_of_pattern h (fitsText_of_hex (by decide) (by decide))

/-- Letters and digits need no escape. -/
theorem isPlain_of_alphanum {c : Char} (hc : c.isAlphanum = true) : Json.isPlain c = true := by
  have hval : (65 ≤ c.toNat ∧ c.toNat ≤ 90) ∨ (97 ≤ c.toNat ∧ c.toNat ≤ 122) ∨
      (48 ≤ c.toNat ∧ c.toNat ≤ 57) := by
    simp only [Char.isAlphanum, Char.isAlpha, Char.isUpper, Char.isLower, Char.isDigit,
      Bool.or_eq_true, Bool.and_eq_true, decide_eq_true_eq, ge_iff_le, UInt32.le_iff_toNat_le,
      or_assoc] at hc
    exact hc
  have hne : c ≠ '"' ∧ c ≠ '\\' := by
    constructor <;> (rintro rfl; revert hval; decide)
  simp only [Json.isPlain, Bool.and_eq_true, decide_eq_true_eq, ne_eq]
  exact ⟨⟨⟨by omega, by omega⟩, hne.1⟩, hne.2⟩

theorem fitsText_of_networkId {s : String} (h : isNetworkId s = true) : FitsText s := by
  simp only [isNetworkId, Bool.and_eq_true, decide_eq_true_eq] at h
  obtain ⟨⟨⟨-, hlength⟩, -⟩, hchars⟩ := h
  refine fitsText_of_plain (fun c hc => ?_) (hlength.trans (by decide))
  have hchar := List.all_eq_true.mp hchars c hc
  simp only [Bool.or_eq_true, beq_iff_eq] at hchar
  obtain (hlower | hdigit) | rfl := hchar
  · exact isPlain_of_alphanum (by simp [Char.isAlphanum, Char.isAlpha, hlower])
  · exact isPlain_of_alphanum (by simp [Char.isAlphanum, hdigit])
  · decide

theorem fitsText_of_application {s : String} (h : isApplication s = true) : FitsText s := by
  simp only [isApplication, isOpaqueChar, Bool.and_eq_true, decide_eq_true_eq] at h
  obtain ⟨⟨⟨-, hlength⟩, -⟩, hchars⟩ := h
  refine fitsText_of_plain (fun c hc => ?_) (hlength.trans (by decide))
  have hchar := List.all_eq_true.mp hchars c hc
  simp only [Bool.or_eq_true, beq_iff_eq] at hchar
  obtain ((halnum | rfl) | rfl) | rfl := hchar
  · exact isPlain_of_alphanum halnum
  all_goals decide

theorem isPlain_of_decimal {s : String} (h : isDecimal s = true) {c : Char} (hc : c ∈ s.toList) :
    Json.isPlain c = true := by
  have hdigit : ∀ {d : Char}, d.isDigit = true → Json.isPlain d = true := fun hd =>
    isPlain_of_alphanum (by simp [Char.isAlphanum, hd])
  rw [← List.takeWhile_append_dropWhile (p := Char.isDigit) (l := s.toList)] at hc
  obtain hc | hc := List.mem_append.mp hc
  · exact hdigit (List.mem_takeWhile_imp hc)
  · -- the fraction is a dot with digits behind it
    simp only [isDecimal, Bool.and_eq_true] at h
    have hfraction := h.2
    generalize s.toList.dropWhile Char.isDigit = cs at hc hfraction
    unfold CanonicalV3.isFraction at hfraction
    split at hfraction
    · cases hc
    · simp only [areDigits, Bool.and_eq_true] at hfraction
      obtain rfl | hc := List.mem_cons.mp hc
      · decide
      · exact hdigit (List.all_eq_true.mp hfraction.1.2 c hc)
    · cases hfraction

theorem fits_of_decimalUnits {v : Value} {positive : Bool} {maximum : Option Nat} {n : Nat}
    (h : decimalUnits v positive maximum = .ok n) : Fits v := by
  obtain ⟨s, hs, h⟩ := bind_eq_ok.mp h
  obtain ⟨t, ht, -⟩ := bind_eq_ok.mp h
  obtain ⟨rfl, hdecimal⟩ := pattern_eq_ok.mp ht
  obtain ⟨⟨⟩, -, hs⟩ := bind_eq_ok.mp hs
  obtain ⟨⟨⟩, htext, -⟩ := bind_eq_ok.mp hs
  obtain ⟨⟨⟩, hlength, -⟩ := bind_eq_ok.mp htext
  exact fitsText_of_plain (fun c hc => isPlain_of_decimal hdecimal hc)
    ((require_eq_ok.mp hlength).trans (by decide))

/-- The list of a list check. -/
theorem listOf_eq_ok {v : Value} {low high : Nat} {code : String} {xs : List Value}
    (h : listOf v low high code = .ok xs) :
    v = .list xs ∧ low ≤ xs.length ∧ xs.length ≤ high := by
  cases v with
  | list ys =>
    obtain ⟨⟨⟩, hlength, hout⟩ := bind_eq_ok.mp h
    cases hout
    exact ⟨rfl, require_eq_ok.mp hlength⟩
  | _ => cases h

/-- A closed object fits if its fields do. -/
theorem fits_of_closed {v : Value} {fields : List String} {d : Dict} (hv : Ordered v)
    (h : closed v fields [] = .ok d) (hcount : fields.length ≤ maxMembers)
    (hfields : ∀ f ∈ fields, FitsText f ∧ Fits (d.get f)) : Fits v := by
  obtain rfl := closed_eq_ok h
  obtain ⟨⟨⟩, hkeys, -⟩ := bind_eq_ok.mp h
  have honly : ∀ k ∈ d.map Prod.fst, k ∈ fields := by
    intro k hk
    have hmem := List.all_eq_true.mp (require_eq_ok.mp hkeys).2 k hk
    rwa [List.append_nil, List.contains_iff_mem] at hmem
  have hnodup : (d.map Prod.fst).Nodup := hv.1.imp ne_of_lt
  refine ⟨?_, fitsEntries_iff.mpr fun e he => ?_⟩
  · have hle := (hnodup.subperm honly).length_le
    rw [List.length_map] at hle
    exact hle.trans hcount
  · have hkey := honly e.1 (List.mem_map_of_mem he)
    obtain ⟨htext, hget⟩ := hfields e.1 hkey
    rw [Dict.get_eq, Dict.get?_of_mem hnodup he] at hget
    exact ⟨htext, hget⟩

theorem ordered_item {xs : List Value} (h : Ordered (.list xs)) {x : Value} (hx : x ∈ xs) :
    Ordered x := by
  have hall : ∀ {ys : List Value},
      Json.ObjectsItems (fun d => (d.map Prod.fst).Pairwise (· < ·)) ys → x ∈ ys → Ordered x := by
    intro ys
    induction ys with
    | nil => exact fun _ => nofun
    | cons y ys ih =>
      rintro ⟨hy, hys⟩ hx
      obtain rfl | hx := List.mem_cons.mp hx
      · exact hy
      · exact ih hys hx
  exact hall h hx

theorem ordered_of_closed {v : Value} {fields : List String} {d : Dict} (hv : Ordered v)
    (h : closed v fields [] = .ok d) (key : String) : Ordered (d.get key) := by
  obtain rfl := closed_eq_ok h
  exact ordered_get hv

/-! ## The components -/

variable {network application : String}

theorem fits_policy {entry : Value} {policy : String × Int} {r : String × String}
    (hordered : Ordered entry) (hpolicy : FitsText policy.1)
    (h : checkPolicy network application entry policy = .ok r) : Fits entry := by
  obtain ⟨d, hclosed, h⟩ := bind_eq_ok.mp h
  obtain ⟨⟨⟩, hkind, h⟩ := bind_eq_ok.mp h
  obtain ⟨⟨⟩, hversion, h⟩ := bind_eq_ok.mp h
  obtain ⟨encoded, hencoded, h⟩ := bind_eq_ok.mp h
  obtain ⟨⟨⟩, hlength, h⟩ := bind_eq_ok.mp h
  obtain ⟨hex, hhex, -⟩ := bind_eq_ok.mp h
  have hbytes : Fits (d.get "canonical_bytes") := by
    obtain ⟨hstr, hhex⟩ := pattern_eq_ok.mp hhex
    rw [hstr] at hencoded ⊢
    obtain rfl := Except.ok.inj hencoded
    simp only [isHexText, Bool.and_eq_true] at hhex
    exact fitsText_of_plain (fun c hc => isPlain_of_hex (List.all_eq_true.mp hhex.2 c hc))
      (require_eq_ok.mp hlength).2.1
  refine fits_of_closed hordered hclosed (by decide) ?_
  simp only [List.forall_mem_cons]
  exact ⟨fits_field _ (by decide) (fits_of_isText (require_eq_ok.mp hkind) hpolicy),
    fits_field _ (by decide) (fits_of_exactly hversion), fits_field _ (by decide) hbytes, nofun⟩

theorem fits_registry {v : Value} {sources : List (String × String)} (hordered : Ordered v)
    (hnetwork : FitsText network) (h : checkRegistry network application v = .ok sources) :
    Fits v := by
  obtain ⟨d, hclosed, h⟩ := bind_eq_ok.mp h
  obtain ⟨⟨⟩, hversion, h⟩ := bind_eq_ok.mp h
  obtain ⟨⟨⟩, htexts, h⟩ := bind_eq_ok.mp h
  obtain ⟨entries, hentries, h⟩ := bind_eq_ok.mp h
  obtain ⟨hid, hdomain⟩ := require_eq_ok.mp htexts
  obtain ⟨hlist, hlow, hhigh⟩ := listOf_eq_ok hentries
  have hpolicies : ∀ p ∈ policies, FitsText p.1 := by
    simp only [policies, List.forall_mem_cons]
    exact ⟨fitsText_lit _ (by decide), fitsText_lit _ (by decide), fitsText_lit _ (by decide),
      fitsText_lit _ (by decide), fitsText_lit _ (by decide), fitsText_lit _ (by decide),
      fitsText_lit _ (by decide), fitsText_lit _ (by decide), fitsText_lit _ (by decide),
      fitsText_lit _ (by decide), nofun⟩
  have hchecked : ∀ entry ∈ entries, Fits entry := by
    intro entry hentry
    have hlength : entries.length = policies.length := le_antisymm hhigh hlow
    -- every entry has its policy beside it
    rw [← List.map_fst_zip hlength.le] at hentry
    obtain ⟨⟨x, policy⟩, hmem, rfl⟩ := List.mem_map.mp hentry
    obtain ⟨hx, hpolicy⟩ := List.of_mem_zip hmem
    obtain ⟨r, hr⟩ := exists_right_of_forall₂ (forall₂_of_mapM h) hmem
    have hitem := ordered_item (hlist ▸ ordered_of_closed hordered hclosed "policies") hx
    exact fits_policy hitem (hpolicies policy hpolicy) hr.2
  have hentriesFit : Fits (d.get "policies") := by
    rw [hlist]
    exact ⟨hhigh.trans (by decide), fitsItems_iff.mpr hchecked⟩
  refine fits_of_closed hordered hclosed (by decide) ?_
  simp only [List.forall_mem_cons]
  exact ⟨fits_field _ (by decide) (fits_of_isText hdomain (fitsText_lit _ (by decide))),
    fits_field _ (by decide) (fits_of_exactly hversion),
    fits_field _ (by decide) (fits_of_isText hid hnetwork), fits_field _ (by decide) hentriesFit,
    nofun⟩

theorem fits_reviewers {v : Value} {wallets : List String} (hordered : Ordered v)
    (hnetwork : FitsText network) (h : checkReviewers network v = .ok wallets)
    (hdigests : Fits (v.field "reviewer_policy_digest") ∧
      Fits (v.field "reputation_rule_digest")) : Fits v := by
  obtain ⟨d, hclosed, h⟩ := bind_eq_ok.mp h
  obtain ⟨⟨⟩, hversion, h⟩ := bind_eq_ok.mp h
  obtain ⟨⟨⟩, hid, h⟩ := bind_eq_ok.mp h
  obtain ⟨reviewers, hreviewers, h⟩ := bind_eq_ok.mp h
  obtain ⟨ws, hws, -⟩ := bind_eq_ok.mp h
  obtain ⟨hlist, -, hlength⟩ := listOf_eq_ok hreviewers
  have hreviewersFit : Fits (d.get "reviewers") := by
    rw [hlist]
    refine ⟨hlength.trans (by decide), fitsItems_iff.mpr fun x hx => ?_⟩
    obtain ⟨w, -, hw⟩ := exists_right_of_forall₂ (forall₂_of_mapM hws) hx
    exact fits_of_wallet hw
  obtain rfl := closed_eq_ok hclosed
  refine fits_of_closed hordered hclosed (by decide) ?_
  simp only [List.forall_mem_cons]
  exact ⟨fits_field _ (by decide) (fits_of_exactly hversion),
    fits_field _ (by decide) (fits_of_isText (require_eq_ok.mp hid) hnetwork),
    fits_field _ (by decide) hdigests.1, fits_field _ (by decide) hdigests.2,
    fits_field _ (by decide) hreviewersFit, nofun⟩

theorem fits_allocation {s s' : String × Nat} {account : Value} (hordered : Ordered account)
    (h : checkAllocation s account = .ok s') : Fits account := by
  obtain ⟨d, hclosed, h⟩ := bind_eq_ok.mp h
  obtain ⟨w, hw, h⟩ := bind_eq_ok.mp h
  obtain ⟨⟨⟩, -, h⟩ := bind_eq_ok.mp h
  obtain ⟨⟨⟩, hnonce, h⟩ := bind_eq_ok.mp h
  obtain ⟨units, hunits, -⟩ := bind_eq_ok.mp h
  have hnonceFit : Fits (d.get "next_nonce") := by
    rw [require_eq_ok.mp hnonce]
    exact (fitsText_lit _ (by decide) : FitsText "1")
  refine fits_of_closed hordered hclosed (by decide) ?_
  simp only [List.forall_mem_cons]
  exact ⟨fits_field _ (by decide) (fits_of_wallet hw),
    fits_field _ (by decide) (fits_of_decimalUnits hunits), fits_field _ (by decide) hnonceFit,
    nofun⟩

theorem fits_native {v : Value} {u : Unit} (hordered : Ordered v) (hnetwork : FitsText network)
    (h : checkNative network v = .ok u) : Fits v := by
  obtain ⟨d, hclosed, h⟩ := bind_eq_ok.mp h
  obtain ⟨⟨⟩, hversion, h⟩ := bind_eq_ok.mp h
  obtain ⟨⟨⟩, hid, h⟩ := bind_eq_ok.mp h
  obtain ⟨total, htotal, h⟩ := bind_eq_ok.mp h
  obtain ⟨pool, hpool, h⟩ := bind_eq_ok.mp h
  obtain ⟨allocations, hallocations, h⟩ := bind_eq_ok.mp h
  obtain ⟨last, hlast, -⟩ := bind_eq_ok.mp h
  obtain ⟨hlist, -, hlength⟩ := listOf_eq_ok hallocations
  have hitems : ∀ x ∈ allocations, Ordered x := fun x hx =>
    ordered_item (hlist ▸ ordered_of_closed hordered hclosed "allocations") hx
  have hallFit : ∀ {accounts : List Value} {s s' : String × Nat},
      (∀ x ∈ accounts, Ordered x) → accounts.foldlM checkAllocation s = .ok s' →
      ∀ x ∈ accounts, Fits x := by
    intro accounts
    induction accounts with
    | nil => exact fun _ _ => nofun
    | cons account accounts ih =>
      intro s s' hordered h x hx
      obtain ⟨hhead, htail⟩ := List.forall_mem_cons.mp hordered
      obtain ⟨t, ht, h⟩ := foldlM_cons_eq_ok.mp h
      obtain rfl | hx := List.mem_cons.mp hx
      · exact fits_allocation hhead ht
      · exact ih htail h x hx
  have hallocationsFit : Fits (d.get "allocations") := by
    rw [hlist]
    exact ⟨hlength.trans (by decide), fitsItems_iff.mpr (hallFit hitems hlast)⟩
  refine fits_of_closed hordered hclosed (by decide) ?_
  simp only [List.forall_mem_cons]
  exact ⟨fits_field _ (by decide) (fits_of_exactly hversion),
    fits_field _ (by decide) (fits_of_isText (require_eq_ok.mp hid) hnetwork),
    fits_field _ (by decide) (fits_of_decimalUnits htotal),
    fits_field _ (by decide) (fits_of_decimalUnits hpool), fits_field _ (by decide) hallocationsFit,
    nofun⟩

theorem fits_history {v : Value} {u : Unit} (hordered : Ordered v) (h : checkHistory v = .ok u)
    (hdigests : Fits (v.field "bootstrap_history_commitment") ∧
      Fits (v.field "initial_state_commitment") ∧
      ∀ name ∈ ["policy_registry_digest", "reviewer_bootstrap_digest", "native_bootstrap_digest",
        "bootstrap_history_commitment"], Fits ((v.field "initial_state").field name)) :
    Fits v := by
  obtain ⟨d, hclosed, h⟩ := bind_eq_ok.mp h
  obtain ⟨⟨⟩, hversion, h⟩ := bind_eq_ok.mp h
  obtain ⟨⟨⟩, hevents, h⟩ := bind_eq_ok.mp h
  obtain ⟨s, hstate, hstateVersion⟩ := bind_eq_ok.mp h
  have hstateOrdered := ordered_of_closed hordered hclosed "initial_state"
  obtain rfl := closed_eq_ok hclosed
  obtain ⟨hhistory, hcommitment, hnames⟩ := hdigests
  have hstateFit : Fits (d.get "initial_state") := by
    have hfield : (Value.dict d).field "initial_state" = .dict s := closed_eq_ok hstate
    rw [hfield] at hnames
    refine fits_of_closed hstateOrdered hstate (by decide) ?_
    simp only [List.forall_mem_cons] at hnames ⊢
    obtain ⟨hregistry, hreviewer, hnative, hevents, -⟩ := hnames
    exact ⟨fits_field _ (by decide) (fits_of_exactly hstateVersion),
      fits_field _ (by decide) hregistry, fits_field _ (by decide) hreviewer,
      fits_field _ (by decide) hnative, fits_field _ (by decide) hevents, nofun⟩
  have heventsFit : Fits (d.get "bootstrap_events") := by
    rw [require_eq_ok.mp hevents]
    exact ⟨Nat.zero_le _, trivial⟩
  refine fits_of_closed hordered hclosed (by decide) ?_
  simp only [List.forall_mem_cons]
  exact ⟨fits_field _ (by decide) (fits_of_exactly hversion), fits_field _ (by decide) heventsFit,
    fits_field _ (by decide) hhistory, fits_field _ (by decide) hstateFit,
    fits_field _ (by decide) hcommitment, nofun⟩

/-- The agreed descriptor is small, and its keys are in order. -/
theorem fits_descriptor {digest : String} (h : FitsText digest) :
    Fits (.dict (descriptorFields digest)) := by
  have hlimits : Fits (.dict limits) := by
    refine ⟨by decide, fitsEntries_iff.mpr ?_⟩
    simp only [limits, List.forall_mem_cons]
    exact ⟨fits_field _ (by decide) trivial, fits_field _ (by decide) trivial,
      fits_field _ (by decide) trivial, fits_field _ (by decide) trivial,
      fits_field _ (by decide) trivial, fits_field _ (by decide) trivial,
      fits_field _ (by decide) trivial, fits_field _ (by decide) trivial,
      fits_field _ (by decide) trivial, fits_field _ (by decide) trivial,
      fits_field _ (by decide) trivial, fits_field _ (by decide) trivial, nofun⟩
  refine ⟨Nat.le_of_ble_eq_true rfl, fitsEntries_iff.mpr ?_⟩
  simp only [descriptorFields, List.forall_mem_cons]
  exact ⟨fits_field _ (by decide) trivial, fits_field _ (by decide) h,
    fits_field _ (by decide) (fitsText_lit _ (by decide)),
    fits_field _ (by decide) (fitsText_lit _ (by decide)), fits_field _ (by decide) hlimits,
    fits_field _ (by decide) (fitsText_lit _ (by decide)),
    fits_field _ (by decide) (fitsText_lit _ (by decide)),
    fits_field _ (by decide) (fitsText_lit _ (by decide)), fits_field _ (by decide) trivial,
    fits_field _ (by decide) (fitsText_lit _ (by decide)),
    fits_field _ (by decide) (fitsText_lit _ (by decide)),
    fits_field _ (by decide) (fitsText_lit _ (by decide)),
    fits_field _ (by decide) (fitsText_lit _ (by decide)),
    fits_field _ (by decide) (fitsText_lit _ (by decide)), nofun⟩

theorem ordered_descriptor (digest : String) : Ordered (.dict (descriptorFields digest)) := by
  refine ⟨ascending_of_chain ?_, objectsEntries_iff.mpr ?_⟩
  · simp only [descriptorFields, List.map_cons, List.map_nil, List.isChain_cons_cons]
    exact ⟨lt_lit _ _ (by decide), lt_lit _ _ (by decide), lt_lit _ _ (by decide),
      lt_lit _ _ (by decide), lt_lit _ _ (by decide), lt_lit _ _ (by decide),
      lt_lit _ _ (by decide), lt_lit _ _ (by decide), lt_lit _ _ (by decide),
      lt_lit _ _ (by decide), lt_lit _ _ (by decide), lt_lit _ _ (by decide),
      lt_lit _ _ (by decide), .singleton _⟩
  · have hlimits : Ordered (.dict limits) := by
      refine ⟨ascending_of_chain ?_, objectsEntries_iff.mpr ?_⟩
      · simp only [limits, List.map_cons, List.map_nil, List.isChain_cons_cons]
        exact ⟨lt_lit _ _ (by decide), lt_lit _ _ (by decide), lt_lit _ _ (by decide),
          lt_lit _ _ (by decide), lt_lit _ _ (by decide), lt_lit _ _ (by decide),
          lt_lit _ _ (by decide), lt_lit _ _ (by decide), lt_lit _ _ (by decide),
          lt_lit _ _ (by decide), lt_lit _ _ (by decide), .singleton _⟩
      · simp only [limits, List.forall_mem_cons]
        exact ⟨trivial, trivial, trivial, trivial, trivial, trivial, trivial, trivial, trivial,
          trivial, trivial, trivial, nofun⟩
    simp only [descriptorFields, List.forall_mem_cons]
    exact ⟨trivial, trivial, trivial, trivial, hlimits, trivial, trivial, trivial, trivial, trivial,
      trivial, trivial, trivial, trivial, nofun⟩

theorem fits_publicKey {v : Value} {s : String} (h : publicKey v = .ok s) : Fits v := by
  obtain ⟨t, ht, -⟩ := bind_eq_ok.mp h
  refine fits_of_pattern ht fun hkey => ?_
  obtain hkey | hkey := (Bool.or_eq_true _ _).mp hkey
  · exact fitsText_of_hex (by decide) (by decide) hkey
  · exact fitsText_of_hex (by decide) (by decide) hkey

theorem manifest_eq_ok {address : String → String} {raw : ByteArray} {m : Dict} :
    manifest address raw = .ok m ↔ validateManifest address raw = .ok m := by
  unfold manifest
  cases validateManifest address raw with
  | ok d => exact Iff.rfl
  | error e => exact ⟨nofun, nofun⟩

theorem fits_manifest {address : String → String} {raw : ByteArray} {m : Dict} {v : Value}
    (hordered : Ordered v) (hraw : J v = .ok raw) (h : manifest address raw = .ok m) :
    Fits v := by
  obtain ⟨w, hw, h⟩ := bind_eq_ok.mp (manifest_eq_ok.mp h)
  obtain ⟨-, hwOrdered, hwRaw⟩ := Bft.parse_eq_ok.mp hw
  obtain rfl := J_inj hordered hwOrdered hraw hwRaw
  obtain ⟨d, hclosed, h⟩ := bind_eq_ok.mp h
  obtain ⟨n, hn, h⟩ := bind_eq_ok.mp h
  obtain ⟨⟨⟩, hmembership, h⟩ := bind_eq_ok.mp h
  obtain ⟨⟨⟩, hprotocol, h⟩ := bind_eq_ok.mp h
  obtain ⟨⟨⟩, hepoch, h⟩ := bind_eq_ok.mp h
  obtain ⟨⟨⟩, hbudget, h⟩ := bind_eq_ok.mp h
  obtain ⟨⟨⟩, hquorum, h⟩ := bind_eq_ok.mp h
  obtain ⟨⟨⟩, htexts, h⟩ := bind_eq_ok.mp h
  obtain ⟨keys, hkeys, h⟩ := bind_eq_ok.mp h
  obtain ⟨pubs, hpubs, -⟩ := bind_eq_ok.mp h
  obtain ⟨hdomain, hname, hauthority⟩ := require_eq_ok.mp htexts
  obtain ⟨hlist, -, hlength⟩ := listOf_eq_ok hkeys
  have hkeysFit : Fits (d.get "validator_public_keys") := by
    rw [hlist]
    refine ⟨hlength.trans (by decide), fitsItems_iff.mpr fun x hx => ?_⟩
    obtain ⟨s, -, hs⟩ := exists_right_of_forall₂ (forall₂_of_mapM hpubs) hx
    exact fits_publicKey hs
  refine fits_of_closed hordered hclosed (by decide) ?_
  simp only [manifestFields, List.forall_mem_cons]
  exact ⟨fits_field _ (by decide) (fits_of_isText hdomain (fitsText_lit _ (by decide))),
    fits_field _ (by decide) (fits_of_exactly hmembership),
    fits_field _ (by decide) (fits_of_isText hname (fitsText_lit _ (by decide))),
    fits_field _ (by decide) (fits_of_exactly hprotocol),
    fits_field _ (by decide) (fits_of_pattern hn fitsText_of_networkId),
    fits_field _ (by decide) (fits_of_isText hauthority (fitsText_lit _ (by decide))),
    fits_field _ (by decide) (fits_of_exactly hepoch),
    fits_field _ (by decide) (fits_of_exactly hbudget),
    fits_field _ (by decide) (fits_of_exactly hquorum), fits_field _ (by decide) hkeysFit, nofun⟩

/-! ## The whole genesis -/

/-- The digests of a genesis that `_structure` leaves to `_commitments`. -/
def openDigests (e : Value) : List Value :=
  let p := e.field "payload"
  let s := (p.field "history_bootstrap").field "initial_state"
  ["validator_set_commitment", "agreement_profile_digest", "policy_registry_digest",
    "reviewer_bootstrap_digest", "native_bootstrap_digest"].map p.field ++
  ["reviewer_policy_digest", "reputation_rule_digest"].map (p.field "reviewer_bootstrap").field ++
  ["bootstrap_history_commitment", "initial_state_commitment"].map
    (p.field "history_bootstrap").field ++
  ["policy_registry_digest", "reviewer_bootstrap_digest", "native_bootstrap_digest",
    "bootstrap_history_commitment"].map s.field

/-- They are digests. -/
def Digests (e : Value) : Prop := ∀ v ∈ openDigests e, ∃ s, h64 v = .ok s

/-- The components of a genesis of the right structure fit. -/
theorem fits_components {address : String → String} {p : Dict} {c : Components}
    {r : List (String × String) × Dict} (hordered : Ordered (.dict p))
    (hnetwork : FitsText network) (hc : componentsOf p = .ok c)
    (h : checkComponents address network application p c = .ok r)
    (hdigests : (Fits ((p.get "reviewer_bootstrap").field "reviewer_policy_digest") ∧
      Fits ((p.get "reviewer_bootstrap").field "reputation_rule_digest")) ∧
      Fits ((p.get "history_bootstrap").field "bootstrap_history_commitment") ∧
      Fits ((p.get "history_bootstrap").field "initial_state_commitment") ∧
      ∀ name ∈ ["policy_registry_digest", "reviewer_bootstrap_digest", "native_bootstrap_digest",
        "bootstrap_history_commitment"],
        Fits (((p.get "history_bootstrap").field "initial_state").field name)) :
    ∀ name ∈ ["validator_manifest", "agreement_descriptor", "policy_registry",
      "reviewer_bootstrap", "native_bootstrap", "history_bootstrap"], Fits (p.get name) := by
  have hfield : ∀ name, Ordered (p.get name) := fun name => ordered_get hordered
  obtain ⟨vm, hvm, hc⟩ := bind_eq_ok.mp hc
  obtain ⟨ad, had, hc⟩ := bind_eq_ok.mp hc
  obtain ⟨_, -, hc⟩ := bind_eq_ok.mp hc
  obtain ⟨_, -, hc⟩ := bind_eq_ok.mp hc
  obtain ⟨_, -, hc⟩ := bind_eq_ok.mp hc
  obtain rfl := Except.ok.inj hc
  obtain ⟨sources, hregistry, h⟩ := bind_eq_ok.mp h
  obtain ⟨ws, hreviewers, h⟩ := bind_eq_ok.mp h
  obtain ⟨⟨⟩, hnative, h⟩ := bind_eq_ok.mp h
  obtain ⟨⟨⟩, hhistory, h⟩ := bind_eq_ok.mp h
  obtain ⟨d, hd, h⟩ := bind_eq_ok.mp h
  obtain ⟨⟨⟩, -, h⟩ := bind_eq_ok.mp h
  obtain ⟨agreed, hagreed, h⟩ := bind_eq_ok.mp h
  obtain ⟨written, hwritten, h⟩ := bind_eq_ok.mp h
  obtain ⟨⟨⟩, hsame, h⟩ := bind_eq_ok.mp h
  obtain ⟨m, hm, h⟩ := bind_eq_ok.mp h
  obtain ⟨⟨⟩, -, h⟩ := bind_eq_ok.mp h
  obtain ⟨m', hmanifest, -⟩ := bind_eq_ok.mp h
  have hdescriptor : Fits (p.get "agreement_descriptor") := by
    obtain ⟨digest, hdigest, hout⟩ := bind_eq_ok.mp hagreed
    obtain rfl := Except.ok.inj hout
    have hsame := require_eq_ok.mp hsame
    dsimp only at hsame
    rw [hsame] at had
    rw [J_inj (hfield _) (ordered_descriptor digest) had hwritten]
    exact fits_descriptor (fitsText_of_hex (by decide) (by decide) (pattern_eq_ok.mp hdigest).2)
  simp only [List.forall_mem_cons]
  exact ⟨fits_manifest (hfield _) hvm hmanifest, hdescriptor,
    fits_registry (hfield _) hnetwork hregistry,
    fits_reviewers (hfield _) hnetwork hreviewers hdigests.1,
    fits_native (hfield _) hnetwork hnative, fits_history (hfield _) hhistory hdigests.2, nofun⟩

/-- A genesis of the right structure fits, if its digests are digests. -/
theorem fits_of_structure {address : String → String} {size : Nat} {e : Value} {s : Structure}
    (hordered : Ordered e) (h : structureOf address size e = .ok s)
    (hdigests : Digests s.envelope) : Fits e ∧ s.envelope = e := by
  obtain ⟨d, hclosed, h⟩ := bind_eq_ok.mp h
  obtain ⟨n, hn, h⟩ := bind_eq_ok.mp h
  obtain ⟨⟨⟩, hversion, h⟩ := bind_eq_ok.mp h
  obtain ⟨⟨⟩, htexts, h⟩ := bind_eq_ok.mp h
  obtain ⟨p, hpayload, h⟩ := bind_eq_ok.mp h
  obtain ⟨⟨⟩, hgenesis, h⟩ := bind_eq_ok.mp h
  obtain ⟨⟨⟩, hindex, h⟩ := bind_eq_ok.mp h
  obtain ⟨⟨⟩, hblock, h⟩ := bind_eq_ok.mp h
  obtain ⟨⟨⟩, hmessage, h⟩ := bind_eq_ok.mp h
  obtain ⟨previous, hprevious, h⟩ := bind_eq_ok.mp h
  obtain ⟨⟨⟩, -, h⟩ := bind_eq_ok.mp h
  obtain ⟨application, happlication, h⟩ := bind_eq_ok.mp h
  obtain ⟨c, hc, h⟩ := bind_eq_ok.mp h
  obtain ⟨⟨⟩, -, h⟩ := bind_eq_ok.mp h
  obtain ⟨⟨⟩, -, h⟩ := bind_eq_ok.mp h
  obtain ⟨r, hcomponents, h⟩ := bind_eq_ok.mp h
  obtain rfl := Except.ok.inj h
  refine ⟨?_, rfl⟩
  obtain ⟨hprotocol, hdomain, htype⟩ := require_eq_ok.mp htexts
  have hpayloadOrdered := ordered_of_closed hordered hclosed "payload"
  have hpayloadDict := closed_eq_ok hpayload
  obtain rfl := closed_eq_ok hclosed
  have hp : (Value.dict d).field "payload" = .dict p := hpayloadDict
  have hfit : ∀ v ∈ openDigests (.dict d), Fits v := by
    intro v hv
    obtain ⟨s, hs⟩ := hdigests v hv
    exact fits_of_h64 hs
  simp only [openDigests, hp, List.map_cons, List.map_nil, List.cons_append, List.nil_append,
    List.forall_mem_cons] at hfit
  obtain ⟨hset, hprofile, hregistry, hreviewer, hnative, hpolicy, hrule, hhistory, hstate,
    hstateRegistry, hstateReviewer, hstateNative, hstateHistory, -⟩ := hfit
  have hnames : ∀ name ∈ ["policy_registry_digest", "reviewer_bootstrap_digest",
      "native_bootstrap_digest", "bootstrap_history_commitment"],
      Fits (((p.get "history_bootstrap").field "initial_state").field name) := by
    simp only [List.forall_mem_cons]
    exact ⟨hstateRegistry, hstateReviewer, hstateNative, hstateHistory, nofun⟩
  have hparts := fits_components (hpayloadDict ▸ hpayloadOrdered)
    (fitsText_of_networkId (pattern_eq_ok.mp hn).2) hc hcomponents
    ⟨⟨hpolicy, hrule⟩, hhistory, hstate, hnames⟩
  simp only [List.forall_mem_cons] at hparts
  obtain ⟨hmanifestFit, hagreementFit, hregistryFit, hreviewerFit, hnativeFit, hhistoryFit, -⟩ :=
    hparts
  have hpayloadFit : Fits (d.get "payload") := by
    refine fits_of_closed hpayloadOrdered hpayload (by decide) ?_
    simp only [payloadFields, List.forall_mem_cons]
    exact ⟨fits_field _ (by decide) (fits_of_exactly hgenesis),
      fits_field _ (by decide) (fits_of_exactly hindex),
      fits_field _ (by decide) (fits_of_h64 hprevious),
      fits_field _ (by decide) (fits_of_pattern happlication fitsText_of_application),
      fits_field _ (by decide) (fits_of_exactly hblock),
      fits_field _ (by decide) (fits_of_exactly hmessage), fits_field _ (by decide) hmanifestFit,
      fits_field _ (by decide) hset, fits_field _ (by decide) hagreementFit,
      fits_field _ (by decide) hprofile, fits_field _ (by decide) hregistryFit,
      fits_field _ (by decide) hregistry, fits_field _ (by decide) hreviewerFit,
      fits_field _ (by decide) hreviewer, fits_field _ (by decide) hnativeFit,
      fits_field _ (by decide) hnative, fits_field _ (by decide) hhistoryFit, nofun⟩
  refine fits_of_closed hordered hclosed (by decide) ?_
  simp only [Bft.envelopeFields, List.forall_mem_cons]
  exact ⟨fits_field _ (by decide) (fits_of_isText hdomain (fitsText_lit _ (by decide))),
    fits_field _ (by decide) (fits_of_pattern hn fitsText_of_networkId),
    fits_field _ (by decide) (fits_of_isText htype (fitsText_lit _ (by decide))),
    fits_field _ (by decide) hpayloadFit,
    fits_field _ (by decide) (fits_of_isText hprotocol (fitsText_lit _ (by decide))),
    fits_field _ (by decide) (fits_of_exactly hversion), nofun⟩

theorem digest_of_match {v : Value} {actual label : String} {u : Unit}
    (h : matchDigest v actual label = .ok u) : ∃ s, h64 v = .ok s := by
  obtain ⟨s, hs, -⟩ := bind_eq_ok.mp h
  exact ⟨s, hs⟩

/-- `_commitments` passes only where the digests are digests. -/
theorem digests_of_commitments {s : Structure} (h : commitments s = .ok ()) :
    Digests s.envelope := by
  unfold commitments at h
  dsimp only at h
  obtain ⟨_, hset, h⟩ := bind_eq_ok.mp h
  obtain ⟨_, hprofile, h⟩ := bind_eq_ok.mp h
  obtain ⟨_, hregistry, h⟩ := bind_eq_ok.mp h
  obtain ⟨_, -, h⟩ := bind_eq_ok.mp h
  obtain ⟨_, hpolicy, h⟩ := bind_eq_ok.mp h
  obtain ⟨_, hrule, h⟩ := bind_eq_ok.mp h
  obtain ⟨_, -, h⟩ := bind_eq_ok.mp h
  obtain ⟨_, hreviewer, h⟩ := bind_eq_ok.mp h
  obtain ⟨_, -, h⟩ := bind_eq_ok.mp h
  obtain ⟨_, hnative, h⟩ := bind_eq_ok.mp h
  obtain ⟨_, -, h⟩ := bind_eq_ok.mp h
  obtain ⟨_, hhistory, h⟩ := bind_eq_ok.mp h
  obtain ⟨_, hstateRegistry, h⟩ := bind_eq_ok.mp h
  obtain ⟨_, hstateReviewer, h⟩ := bind_eq_ok.mp h
  obtain ⟨_, hstateNative, h⟩ := bind_eq_ok.mp h
  obtain ⟨_, hstateHistory, h⟩ := bind_eq_ok.mp h
  obtain ⟨_, -, hstate⟩ := bind_eq_ok.mp h
  unfold Digests
  simp only [openDigests, List.map_cons, List.map_nil, List.cons_append, List.nil_append,
    List.forall_mem_cons]
  exact ⟨digest_of_match hset, digest_of_match hprofile, digest_of_match hregistry,
    digest_of_match hreviewer, digest_of_match hnative, digest_of_match hpolicy,
    digest_of_match hrule, digest_of_match hhistory, digest_of_match hstate,
    digest_of_match hstateRegistry, digest_of_match hstateReviewer, digest_of_match hstateNative,
    digest_of_match hstateHistory, nofun⟩

/-- What the strict reader reads is spelled by the text. -/
theorem document_of_strict {text : String} {v : Value}
    (h : Json.loads strictHooks text = .ok v) : ∃ ts, Json.Document v text.toList ts := by
  refine Json.document_of_loads (fun es d hd => ?_) h
  unfold strictHooks uniquePairs at hd
  dsimp only at hd
  split at hd
  · exact (Except.ok.inj hd).symm
  · cases hd

/-- The scan rejects no genesis that the rest of `_structure` accepts with its digests, and it
bounds every JSON text. -/
theorem preScan_transparent_and_bounding (address : String → String) :
    (∀ raw s, unscannedStructure address raw = .ok s → Digests s.envelope →
      preScan raw = .ok () ∧ outerTree s.envelope = .ok () ∧
        genesisStructure address raw = .ok s) ∧
    (∀ raw text v ts, String.fromUTF8? raw = some text → Json.Document v text.toList ts →
      preScan raw = .ok () →
        Within v ∧ nesting v ≤ maxStack ∧ ∀ t ∈ ts, Json.bytes t ≤ maxToken) ∧
    ∀ text v, Json.loads strictHooks text = .ok v → ∃ ts, Json.Document v text.toList ts := by
  refine ⟨fun raw s h hdigests => ?_, fun raw text v ts htext hv hscan => ?_,
    fun text v h => document_of_strict h⟩
  · obtain ⟨e, he, hs⟩ := bind_eq_ok.mp h
    obtain ⟨-, hordered, -⟩ := Bft.parse_eq_ok.mp he
    obtain ⟨w, hparse, hw⟩ := bind_eq_ok.mp he
    obtain ⟨again, -, hw⟩ := bind_eq_ok.mp hw
    obtain ⟨_, -, hw⟩ := bind_eq_ok.mp hw
    obtain rfl := Except.ok.inj hw
    obtain ⟨hfits, hsame⟩ := fits_of_structure hordered hs hdigests
    have hscan := preScan_of_fits (Nat.le_refl _) hparse hfits
    have htree := outerTree_of_fits hfits
    refine ⟨hscan, hsame ▸ htree, ?_⟩
    simp only [genesisStructure, hscan, he, htree, ok_bind, hs]
  · obtain ⟨-, ⟨hwithin, hnesting⟩, hshort⟩ := (preScan_document htext hv).mp hscan
    exact ⟨hwithin, hnesting, hshort⟩

/-! ### A genesis -/

def zeroDigest : Value := .str "0000000000000000000000000000000000000000000000000000000000000000"

/-- The keys are the points of the curve with the least coordinates. -/
def sampleManifest : Value :=
  .dict [("authority_profile", .str "static-genesis-v1"), ("byzantine_fault_budget", .int 1),
    ("domain", .str "zoidbergchain/validator-set/v1"), ("membership_version", .int 1),
    ("network_id", .str "net"), ("protocol", .str "zoidbergchain"), ("protocol_version", .int 2),
    ("required_quorum", .int 3), ("validator_epoch", .int 0),
    ("validator_public_keys", .list
      [.str "020000000000000000000000000000000000000000000000000000000000000001",
        .str "020000000000000000000000000000000000000000000000000000000000000002",
        .str "020000000000000000000000000000000000000000000000000000000000000003",
        .str "020000000000000000000000000000000000000000000000000000000000000004"])]

/-- Every policy has the empty object for its source. -/
def sampleRegistry : Value :=
  .dict [("domain", .str "zoidbergchain/application-policy-registry/v1"),
    ("network_id", .str "net"),
    ("policies", .list (policies.map fun p => .dict [("canonical_bytes", .str "7b7d"),
      ("policy_kind", .str p.1), ("policy_version", .int p.2)])),
    ("registry_version", .int 1)]

def sampleReviewers : Value :=
  .dict [("bootstrap_version", .int 1), ("network_id", .str "net"),
    ("reputation_rule_digest", zeroDigest), ("reviewer_policy_digest", zeroDigest),
    ("reviewers", .list [])]

def sampleNative : Value :=
  .dict [("allocations", .list []), ("initial_reward_pool", .str "0"),
    ("native_state_version", .int 1), ("network_id", .str "net"), ("total_supply", .str "0")]

def sampleHistory : Value :=
  .dict [("bootstrap_events", .list []), ("bootstrap_history_commitment", zeroDigest),
    ("history_version", .int 1),
    ("initial_state", .dict [("bootstrap_history_commitment", zeroDigest),
      ("native_bootstrap_digest", zeroDigest), ("policy_registry_digest", zeroDigest),
      ("reviewer_bootstrap_digest", zeroDigest), ("state_version", .int 1)]),
    ("initial_state_commitment", zeroDigest)]

/-- The addresses of the four keys. -/
def sampleAddress (key : String) : String :=
  if key = "020000000000000000000000000000000000000000000000000000000000000001" then
    "0x3344c6f6eeca588be132142db0a32c71abfaae7b"
  else if key = "020000000000000000000000000000000000000000000000000000000000000002" then
    "0xad9860d7710a981bf3a210cc5fac7cd82f13a97b"
  else if key = "020000000000000000000000000000000000000000000000000000000000000003" then
    "0x25b6dd694af805b92c66df17364ed53fbacfc837"
  else "0x5e1a0cc30b2aa24d51d396ca33570fb3363d6326"

/-- A payload, but for the commitment to its validators. -/
def samplePayload (commitment : Value) : Dict :=
  [("agreement_descriptor", .dict (descriptorFields
      "0000000000000000000000000000000000000000000000000000000000000000")),
    ("agreement_profile_digest", zeroDigest), ("application", .str "app"),
    ("consensus_message_version", .int 1), ("genesis_version", .int 2),
    ("history_bootstrap", sampleHistory), ("index", .int 0), ("initial_block_version", .int 4),
    ("native_bootstrap", sampleNative), ("native_bootstrap_digest", zeroDigest),
    ("policy_registry", sampleRegistry), ("policy_registry_digest", zeroDigest),
    ("previous_hash", zeroDigest), ("reviewer_bootstrap", sampleReviewers),
    ("reviewer_bootstrap_digest", zeroDigest), ("validator_manifest", sampleManifest),
    ("validator_set_commitment", commitment)]

theorem sample_registry : ∃ r, checkRegistry "net" "app" sampleRegistry = .ok r :=
  exists_of_isOk (by decide +kernel)

/-- The literals of the genesis are written as they are. -/
theorem written_text {depth : Nat} (cs : List Char)
    (h : cs.length ≤ maxToken ∧ cs.all Json.isPlain = true) :
    Bft.Fits depth (cs.length + 2) (.str (String.ofList cs)) :=
  fits_text (List.all_eq_true.mp (fitsText_lit cs h).2) (le_of_eq String.length_ofList)
    (h.1.trans (by decide))

theorem written_entry {depth m : Nat} {v : Value} (cs : List Char)
    (h : cs.length ≤ maxToken ∧ cs.all Json.isPlain = true) (hv : Bft.Fits depth m v) :
    EntryFits depth (String.ofList cs, v) (cs.length + m + 4) :=
  entryFits (List.all_eq_true.mp (fitsText_lit cs h).2) hv
    (by rw [String.length_ofList])

theorem written_int {depth : Nat} {n : Int} (h : 0 ≤ n ∧ n ≤ 10000000) :
    Bft.Fits depth 8 (.int n) :=
  fits_number (by decide) h (by decide) (by decide)

theorem written_nil {depth : Nat} (h : depth < maxDepth) : Bft.Fits depth 2 (.list []) :=
  ⟨rfl, by rw [jsonValue, require_pos h]; rfl, le_of_eq (by decide)⟩

theorem entry_text {depth : Nat} (cs ds : List Char)
    (h : (cs.length ≤ maxToken ∧ cs.all Json.isPlain = true) ∧
      ds.length ≤ maxToken ∧ ds.all Json.isPlain = true) :
    EntryFits depth (String.ofList cs, .str (String.ofList ds)) (cs.length + (ds.length + 2) + 4) :=
  written_entry cs h.1 (written_text ds h.2)

theorem entry_int {depth : Nat} {n : Int} (cs : List Char)
    (h : (cs.length ≤ maxToken ∧ cs.all Json.isPlain = true) ∧ 0 ≤ n ∧ n ≤ 10000000) :
    EntryFits depth (String.ofList cs, .int n) (cs.length + 8 + 4) :=
  written_entry cs h.1 (written_int h.2)

theorem written_within {depth m n : Nat} {v : Value} (hv : Bft.Fits depth m v)
    (h : m ≤ n) : Bft.Fits depth n v :=
  ⟨hv.ascii, hv.json, hv.width.trans h⟩

theorem written_zeroDigest {depth : Nat} : Bft.Fits depth 66 zeroDigest :=
  written_within (written_text _ (by decide)) (by decide)

theorem written_manifest {depth : Nat} (h : depth < 8) :
    Bft.Fits depth 1024 sampleManifest := by
  have hkeys : Bft.Fits (depth + 1) 277 (.list
      [.str "020000000000000000000000000000000000000000000000000000000000000001",
        .str "020000000000000000000000000000000000000000000000000000000000000002",
        .str "020000000000000000000000000000000000000000000000000000000000000003",
        .str "020000000000000000000000000000000000000000000000000000000000000004"]) := by
    refine fits_list (m := 68) (List.cons_ne_nil _ _) (by unfold maxDepth; omega) ?_ (by decide)
    simp only [List.forall_mem_cons]
    exact ⟨written_within (written_text _ (by decide)) (by decide),
      written_within (written_text _ (by decide)) (by decide),
      written_within (written_text _ (by decide)) (by decide),
      written_within (written_text _ (by decide)) (by decide), nofun⟩
  refine fits_dict (List.cons_ne_nil _ _) (by unfold maxDepth; omega)
    (.cons (entry_text _ _ (by decide)) <| .cons (entry_int _ (by decide)) <|
      .cons (entry_text _ _ (by decide)) <| .cons (entry_int _ (by decide)) <|
      .cons (entry_text _ _ (by decide)) <| .cons (entry_text _ _ (by decide)) <|
      .cons (entry_int _ (by decide)) <| .cons (entry_int _ (by decide)) <|
      .cons (entry_int _ (by decide)) <| .cons (written_entry _ (by decide) hkeys) .nil)
    (by decide) (by decide)

theorem written_descriptor {depth : Nat} (h : depth < 8) :
    Bft.Fits depth 2048 (.dict (descriptorFields
      "0000000000000000000000000000000000000000000000000000000000000000")) := by
  have hmax : Bft.Fits (depth + 2) 16 (.int maxUint) :=
    fits_number (by decide) ⟨by decide, le_refl maxUint⟩ (by decide) (le_refl maxUint)
  have hround : Bft.Fits (depth + 2) 10 (.int maxRound) :=
    fits_number (by decide) ⟨by decide, le_refl maxRound⟩ (by decide) (by decide)
  have hlimits : Bft.Fits (depth + 1) 512 (.dict limits) :=
    fits_dict (List.cons_ne_nil _ _) (by unfold maxDepth; omega)
      (.cons (entry_int _ (by decide)) <| .cons (entry_int _ (by decide)) <|
        .cons (entry_int _ (by decide)) <| .cons (entry_int _ (by decide)) <|
        .cons (entry_int _ (by decide)) <| .cons (entry_int _ (by decide)) <|
        .cons (written_entry _ (by decide) hround) <| .cons (written_entry _ (by decide) hmax) <|
        .cons (entry_int _ (by decide)) <| .cons (entry_int _ (by decide)) <|
        .cons (entry_int _ (by decide)) <| .cons (entry_int _ (by decide)) .nil)
      (by decide) (by decide)
  exact fits_dict (List.cons_ne_nil _ _) (by unfold maxDepth; omega)
    (.cons (entry_int _ (by decide)) <| .cons (entry_text _ _ (by decide)) <|
      .cons (entry_text _ _ (by decide)) <| .cons (entry_text _ _ (by decide)) <|
      .cons (written_entry _ (by decide) hlimits) <| .cons (entry_text _ _ (by decide)) <|
      .cons (entry_text _ _ (by decide)) <| .cons (entry_text _ _ (by decide)) <|
      .cons (entry_int _ (by decide)) <| .cons (entry_text _ _ (by decide)) <|
      .cons (entry_text _ _ (by decide)) <| .cons (entry_text _ _ (by decide)) <|
      .cons (entry_text _ _ (by decide)) <| .cons (entry_text _ _ (by decide)) .nil)
    (by decide) (by decide)

theorem written_registry {depth : Nat} (h : depth < 8) :
    Bft.Fits depth 4096 sampleRegistry := by
  have hentry : ∀ {v : Value} (n : Int), Bft.Fits (depth + 3) 14 v → 0 ≤ n ∧ n ≤ 3 →
      Bft.Fits (depth + 2) 100 (.dict [("canonical_bytes", .str "7b7d"), ("policy_kind", v),
        ("policy_version", .int n)]) := fun n hv hn =>
    fits_dict (List.cons_ne_nil _ _) (by unfold maxDepth; omega)
      (.cons (entry_text _ _ (by decide)) <| .cons (written_entry _ (by decide) hv) <|
        .cons (written_entry _ (by decide) (written_int ⟨hn.1, hn.2.trans (by decide)⟩)) .nil)
      (by decide) (by decide)
  have hpolicies : Bft.Fits (depth + 1) 1200 (.list (policies.map fun p =>
      .dict [("canonical_bytes", .str "7b7d"), ("policy_kind", .str p.1),
        ("policy_version", .int p.2)])) := by
    refine fits_list (m := 100) (List.cons_ne_nil _ _) (by unfold maxDepth; omega) ?_ (by decide)
    simp only [policies, List.map_cons, List.map_nil, List.forall_mem_cons]
    refine ⟨?_, ?_, ?_, ?_, ?_, ?_, ?_, ?_, ?_, ?_, nofun⟩ <;>
      exact hentry _ (written_within (written_text _ (by decide)) (by decide)) (by decide)
  exact fits_dict (List.cons_ne_nil _ _) (by unfold maxDepth; omega)
    (.cons (entry_text _ _ (by decide)) <| .cons (entry_text _ _ (by decide)) <|
      .cons (written_entry _ (by decide) hpolicies) <| .cons (entry_int _ (by decide)) .nil)
    (by decide) (by decide)

theorem written_reviewers {depth : Nat} (h : depth < 8) :
    Bft.Fits depth 512 sampleReviewers :=
  fits_dict (List.cons_ne_nil _ _) (by unfold maxDepth; omega)
    (.cons (entry_int _ (by decide)) <| .cons (entry_text _ _ (by decide)) <|
      .cons (written_entry _ (by decide) written_zeroDigest) <|
      .cons (written_entry _ (by decide) written_zeroDigest) <|
      .cons (written_entry _ (by decide) (written_nil (by unfold maxDepth; omega))) .nil)
    (by decide) (by decide)

theorem written_native {depth : Nat} (h : depth < 8) :
    Bft.Fits depth 512 sampleNative :=
  fits_dict (List.cons_ne_nil _ _) (by unfold maxDepth; omega)
    (.cons (written_entry _ (by decide) (written_nil (by unfold maxDepth; omega))) <|
      .cons (entry_text _ _ (by decide)) <| .cons (entry_int _ (by decide)) <|
      .cons (entry_text _ _ (by decide)) <| .cons (entry_text _ _ (by decide)) .nil)
    (by decide) (by decide)

theorem written_history {depth : Nat} (h : depth < 8) :
    Bft.Fits depth 1024 sampleHistory := by
  have hstate : Bft.Fits (depth + 1) 512
      (.dict [("bootstrap_history_commitment", zeroDigest),
        ("native_bootstrap_digest", zeroDigest), ("policy_registry_digest", zeroDigest),
        ("reviewer_bootstrap_digest", zeroDigest), ("state_version", .int 1)]) :=
    fits_dict (List.cons_ne_nil _ _) (by unfold maxDepth; omega)
      (.cons (written_entry _ (by decide) written_zeroDigest) <|
        .cons (written_entry _ (by decide) written_zeroDigest) <|
        .cons (written_entry _ (by decide) written_zeroDigest) <|
        .cons (written_entry _ (by decide) written_zeroDigest) <|
        .cons (entry_int _ (by decide)) .nil)
      (by decide) (by decide)
  exact fits_dict (List.cons_ne_nil _ _) (by unfold maxDepth; omega)
    (.cons (written_entry _ (by decide) (written_nil (by unfold maxDepth; omega))) <|
      .cons (written_entry _ (by decide) written_zeroDigest) <| .cons (entry_int _ (by decide)) <|
      .cons (written_entry _ (by decide) hstate) <|
      .cons (written_entry _ (by decide) written_zeroDigest) .nil)
    (by decide) (by decide)

/-- What `J` writes for a value that fits. -/
theorem J_of_fits {n : Nat} {v : Value} (h : Bft.Fits 0 n v) :
    J v = .ok (encodeUtf8 (canonicalText v)) ∧ (encodeUtf8 (canonicalText v)).size ≤ n := by
  have hcanonical := canonical_eq_ok.mpr ⟨h.json, rfl⟩
  refine ⟨?_, (size_canonical hcanonical).trans_le h.width⟩
  rw [J, h.ascii, ok_bind, hcanonical]

theorem exists_J {n : Nat} {v : Value} (h : Bft.Fits 0 n v) :
    ∃ raw, J v = .ok raw ∧ raw.size ≤ n :=
  ⟨_, J_of_fits h⟩

theorem ordered_manifest : Ordered sampleManifest := by
  refine ⟨ascending_of_chain ?_, objectsEntries_iff.mpr ?_⟩
  · simp only [List.map_cons, List.map_nil, List.isChain_cons_cons]
    exact ⟨lt_lit _ _ (by decide), lt_lit _ _ (by decide), lt_lit _ _ (by decide),
      lt_lit _ _ (by decide), lt_lit _ _ (by decide), lt_lit _ _ (by decide),
      lt_lit _ _ (by decide), lt_lit _ _ (by decide), lt_lit _ _ (by decide), .singleton _⟩
  · simp only [List.forall_mem_cons]
    exact ⟨trivial, trivial, trivial, trivial, trivial, trivial, trivial, trivial, trivial,
      ⟨trivial, trivial, trivial, trivial, trivial⟩, nofun⟩

theorem sample_manifest {raw : ByteArray} (hraw : J sampleManifest = .ok raw)
    (hsize : raw.size ≤ 8192) : ∃ m, manifest sampleAddress raw = .ok m := by
  have hparse := Bft.parse_eq_ok.mpr ⟨hsize, ordered_manifest, hraw⟩
  have hchecked : ∃ m, validateManifest sampleAddress raw = .ok m := by
    unfold validateManifest
    rw [hparse, ok_bind]
    exact exists_of_isOk (by decide +kernel)
  obtain ⟨m, hm⟩ := hchecked
  exact ⟨m, manifest_eq_ok.mpr hm⟩

theorem get_samplePayload (commitment : Value) :
    (samplePayload commitment).get "validator_manifest" = sampleManifest ∧
      (samplePayload commitment).get "agreement_descriptor" = .dict (descriptorFields
        "0000000000000000000000000000000000000000000000000000000000000000") ∧
      (samplePayload commitment).get "policy_registry" = sampleRegistry ∧
      (samplePayload commitment).get "reviewer_bootstrap" = sampleReviewers ∧
      (samplePayload commitment).get "native_bootstrap" = sampleNative ∧
      (samplePayload commitment).get "history_bootstrap" = sampleHistory := by
  simp [samplePayload, Dict.get, Dict.get?_cons]

def sampleEnvelope (commitment : Value) : Dict :=
  [("domain", .str "zoidbergchain/genesis/v2"), ("network_id", .str "net"),
    ("object_type", .str "genesis"), ("payload", .dict (samplePayload commitment)),
    ("protocol", .str "zoidbergchain"), ("protocol_version", .int 2)]

def sampleGenesis (commitment : Value) : Value := .dict (sampleEnvelope commitment)

theorem sample_components (commitment : Value) : ∃ c r,
    componentsOf (samplePayload commitment) = .ok c ∧
      (c.sizes.forM fun s => require (s.2.1 ≤ s.2.2) (v3Error (s.1 ++ "_size"))) = .ok () ∧
      checkComponents sampleAddress "net" "app" (samplePayload commitment) c = .ok r := by
  obtain ⟨vm, hvm, hvmSize⟩ := exists_J
    (written_within (n := 8192) (written_manifest (by decide)) (by decide))
  obtain ⟨ad, had, hadSize⟩ := exists_J
    (written_within (n := 4096) (written_descriptor (by decide)) (by decide))
  obtain ⟨pr, hpr, hprSize⟩ := exists_J
    (written_within (n := 65536) (written_registry (by decide)) (by decide))
  obtain ⟨rb, hrb, hrbSize⟩ := exists_J
    (written_within (n := 8192) (written_reviewers (by decide)) (by decide))
  obtain ⟨nb, hnb, hnbSize⟩ := exists_J
    (written_within (n := 786432) (written_native (by decide)) (by decide))
  obtain ⟨sources, hsources⟩ := sample_registry
  obtain ⟨m, hm⟩ := sample_manifest hvm hvmSize
  have hreviewers : checkReviewers "net" sampleReviewers = .ok [] := by decide +kernel
  have hnative : checkNative "net" sampleNative = .ok () := by decide +kernel
  have hhistory : checkHistory sampleHistory = .ok () := by decide +kernel
  have hagreed : descriptor zeroDigest = .ok (.dict (descriptorFields
      "0000000000000000000000000000000000000000000000000000000000000000")) := by decide +kernel
  obtain ⟨hgetVm, hgetAd, hgetPr, hgetRb, hgetNb, hgetHb⟩ := get_samplePayload commitment
  refine ⟨⟨vm, ad, pr, rb, nb⟩, (sources, m), ?_, ?_, ?_⟩
  · simp only [componentsOf, hgetVm, hgetAd, hgetPr, hgetRb, hgetNb, hvm, had, hpr, hrb, hnb,
      ok_bind]
  · refine forM_eq_ok.mpr ?_
    simp only [Components.sizes, List.forall_mem_cons]
    exact ⟨require_pos hvmSize, require_pos hadSize, require_pos hprSize, require_pos hrbSize,
      require_pos hnbSize, nofun⟩
  · have hdigest : (descriptorFields
        "0000000000000000000000000000000000000000000000000000000000000000").get
        "application_policy_digest" = zeroDigest := by
      simp [descriptorFields, Dict.get, Dict.get?_cons, zeroDigest]
    have hhas : (Dict.get? (descriptorFields
        "0000000000000000000000000000000000000000000000000000000000000000")
        "application_policy_digest").isSome = true := by
      simp [descriptorFields, Dict.get?_cons]
    have hnetwork : ∃ d, sampleManifest = .dict d ∧ isText (Dict.get d "network_id") "net" :=
      ⟨_, rfl, by decide +kernel⟩
    obtain ⟨d, hd, hnetwork⟩ := hnetwork
    simp only [checkComponents, hgetVm, hgetAd, hgetPr, hgetRb, hgetNb, hgetHb, hsources,
      hreviewers, hnative, hhistory, asObject, hhas, hdigest, hagreed, had, hd, hm, ok_bind,
      require_pos hnetwork, require_pos trivial]

def sampleRaw (commitment : Value) : ByteArray :=
  encodeUtf8 (canonicalText (sampleGenesis commitment))

theorem written_genesis {commitment : Value} (h : Bft.Fits 2 66 commitment) :
    Bft.Fits 0 16384 (sampleGenesis commitment) := by
  have hpayload : Bft.Fits 1 15000 (.dict (samplePayload commitment)) :=
    fits_dict (List.cons_ne_nil _ _) (by decide)
      (.cons (written_entry _ (by decide) (written_descriptor (by decide))) <|
        .cons (written_entry _ (by decide) written_zeroDigest) <|
        .cons (entry_text _ _ (by decide)) <| .cons (entry_int _ (by decide)) <|
        .cons (entry_int _ (by decide)) <|
        .cons (written_entry _ (by decide) (written_history (by decide))) <|
        .cons (entry_int _ (by decide)) <| .cons (entry_int _ (by decide)) <|
        .cons (written_entry _ (by decide) (written_native (by decide))) <|
        .cons (written_entry _ (by decide) written_zeroDigest) <|
        .cons (written_entry _ (by decide) (written_registry (by decide))) <|
        .cons (written_entry _ (by decide) written_zeroDigest) <|
        .cons (written_entry _ (by decide) written_zeroDigest) <|
        .cons (written_entry _ (by decide) (written_reviewers (by decide))) <|
        .cons (written_entry _ (by decide) written_zeroDigest) <|
        .cons (written_entry _ (by decide) (written_manifest (by decide))) <|
        .cons (written_entry _ (by decide) h) .nil)
      (by decide) (by decide)
  exact fits_dict (List.cons_ne_nil _ _) (by decide)
    (.cons (entry_text _ _ (by decide)) <| .cons (entry_text _ _ (by decide)) <|
      .cons (entry_text _ _ (by decide)) <| .cons (written_entry _ (by decide) hpayload) <|
      .cons (entry_text _ _ (by decide)) <| .cons (entry_int _ (by decide)) .nil)
    (by decide) (by decide)

theorem ordered_registry : Ordered sampleRegistry := by
  have hentry : ∀ (k : String) (n : Int), Ordered (.dict [("canonical_bytes", .str "7b7d"),
      ("policy_kind", .str k), ("policy_version", .int n)]) := by
    refine fun k n => ⟨ascending_of_chain ?_, trivial, trivial, trivial, trivial⟩
    simp only [List.map_cons, List.map_nil, List.isChain_cons_cons]
    exact ⟨lt_lit _ _ (by decide), lt_lit _ _ (by decide), .singleton _⟩
  refine ⟨ascending_of_chain ?_, trivial, trivial, ⟨hentry _ _, hentry _ _,
    hentry _ _, hentry _ _, hentry _ _, hentry _ _, hentry _ _, hentry _ _, hentry _ _,
    hentry _ _, trivial⟩, trivial, trivial⟩
  simp only [List.map_cons, List.map_nil, List.isChain_cons_cons]
  exact ⟨lt_lit _ _ (by decide), lt_lit _ _ (by decide), lt_lit _ _ (by decide), .singleton _⟩

theorem ordered_bootstraps :
    Ordered sampleReviewers ∧ Ordered sampleNative ∧ Ordered sampleHistory := by
  refine ⟨⟨ascending_of_chain ?_, trivial, trivial, trivial, trivial, trivial, trivial⟩,
    ⟨ascending_of_chain ?_, trivial, trivial, trivial, trivial, trivial, trivial⟩,
    ⟨ascending_of_chain ?_, trivial, trivial, trivial, ⟨ascending_of_chain ?_, trivial, trivial,
      trivial, trivial, trivial, trivial⟩, trivial, trivial⟩⟩
  all_goals
    simp only [List.map_cons, List.map_nil, List.isChain_cons_cons]
    exact ⟨lt_lit _ _ (by decide), lt_lit _ _ (by decide), lt_lit _ _ (by decide),
      lt_lit _ _ (by decide), .singleton _⟩

theorem ordered_genesis (commitment : Value) (h : Ordered commitment) :
    Ordered (sampleGenesis commitment) := by
  obtain ⟨hreviewers, hnative, hhistory⟩ := ordered_bootstraps
  have hpayload : Ordered (.dict (samplePayload commitment)) := by
    refine ⟨ascending_of_chain ?_, objectsEntries_iff.mpr ?_⟩
    · simp only [samplePayload, List.map_cons, List.map_nil, List.isChain_cons_cons]
      exact ⟨lt_lit _ _ (by decide), lt_lit _ _ (by decide), lt_lit _ _ (by decide),
        lt_lit _ _ (by decide), lt_lit _ _ (by decide), lt_lit _ _ (by decide),
        lt_lit _ _ (by decide), lt_lit _ _ (by decide), lt_lit _ _ (by decide),
        lt_lit _ _ (by decide), lt_lit _ _ (by decide), lt_lit _ _ (by decide),
        lt_lit _ _ (by decide), lt_lit _ _ (by decide), lt_lit _ _ (by decide),
        lt_lit _ _ (by decide), .singleton _⟩
    · simp only [samplePayload, List.forall_mem_cons]
      exact ⟨ordered_descriptor _, trivial, trivial, trivial, trivial, hhistory, trivial, trivial,
        hnative, trivial, ordered_registry, trivial, trivial, hreviewers, trivial,
        ordered_manifest, h, nofun⟩
  refine ⟨ascending_of_chain ?_, objectsEntries_iff.mpr ?_⟩
  · simp only [sampleEnvelope, List.map_cons, List.map_nil, List.isChain_cons_cons]
    exact ⟨lt_lit _ _ (by decide), lt_lit _ _ (by decide), lt_lit _ _ (by decide),
      lt_lit _ _ (by decide), lt_lit _ _ (by decide), .singleton _⟩
  · simp only [sampleEnvelope, List.forall_mem_cons]
    exact ⟨trivial, trivial, trivial, hpayload, trivial, trivial, nofun⟩

/-- The strict reader reads the genesis, whatever commitment to the validators it has. -/
theorem sample_structure (commitment : Value) (hordered : Ordered commitment)
    (hfits : Bft.Fits 2 66 commitment) :
    ∃ s, unscannedStructure sampleAddress (sampleRaw commitment) = .ok s ∧
      s.envelope = sampleGenesis commitment := by
  obtain ⟨hraw, hsize⟩ : J (sampleGenesis commitment) = .ok (sampleRaw commitment) ∧
      (sampleRaw commitment).size ≤ 16384 := J_of_fits (written_genesis hfits)
  obtain ⟨c, r, hc, hsizes, hr⟩ := sample_components commitment
  have hparse := Bft.parse_eq_ok.mpr
    ⟨hsize.trans (by decide : 16384 ≤ genesisLimit), ordered_genesis commitment hordered, hraw⟩
  refine ⟨⟨sampleGenesis commitment, c, r.1, r.2⟩, ?_, rfl⟩
  have henvelope : closed (sampleGenesis commitment) Bft.envelopeFields [] =
      .ok (sampleEnvelope commitment) := closed_of_keys fun _ => Iff.rfl
  have hpayload : closed (.dict (samplePayload commitment)) payloadFields [] =
      .ok (samplePayload commitment) := by
    refine closed_of_keys fun k => ?_
    have hkeys : (samplePayload commitment).map Prod.fst = (samplePayload .null).map Prod.fst := rfl
    rw [hkeys]
    exact List.Perm.mem_iff (by decide +kernel)
  have hget : (sampleEnvelope commitment).get "network_id" = .str "net" ∧
      (sampleEnvelope commitment).get "protocol_version" = .int 2 ∧
      (sampleEnvelope commitment).get "protocol" = .str "zoidbergchain" ∧
      (sampleEnvelope commitment).get "domain" = .str "zoidbergchain/genesis/v2" ∧
      (sampleEnvelope commitment).get "object_type" = .str "genesis" ∧
      (sampleEnvelope commitment).get "payload" = .dict (samplePayload commitment) := by
    simp [sampleEnvelope, Dict.get, Dict.get?_cons]
  have hgetPayload : (samplePayload commitment).get "genesis_version" = .int 2 ∧
      (samplePayload commitment).get "index" = .int 0 ∧
      (samplePayload commitment).get "initial_block_version" = .int 4 ∧
      (samplePayload commitment).get "consensus_message_version" = .int 1 ∧
      (samplePayload commitment).get "previous_hash" = zeroDigest ∧
      (samplePayload commitment).get "application" = .str "app" := by
    simp [samplePayload, Dict.get, Dict.get?_cons]
  obtain ⟨hnetwork, hversion, hprotocol, hdomain, htype, hgetPayloadDict⟩ := hget
  obtain ⟨hgenesis, hindex, hblock, hmessage, hprevious, happlication⟩ := hgetPayload
  have hexactly : ∀ n : Int, 0 ≤ n → n ≤ maxUint → ∀ code, exactly (.int n) n code = .ok () := by
    intro n hlow hhigh code
    rw [exactly, uint_eq_ok.mpr ⟨rfl, hlow, hhigh⟩, ok_bind, require_pos rfl]
  have hid : pattern (.str "net") isNetworkId = .ok "net" := by decide +kernel
  have happ : pattern (.str "app") isApplication = .ok "app" := by decide +kernel
  have hzero : h64 zeroDigest = .ok (String.ofList (List.replicate 64 '0')) := by decide +kernel
  have htexts : isText (.str "zoidbergchain") "zoidbergchain" ∧
      isText (.str "zoidbergchain/genesis/v2") "zoidbergchain/genesis/v2" ∧
      isText (.str "genesis") "genesis" := ⟨isText_str _, isText_str _, isText_str _⟩
  have hresidual : (sampleRaw commitment).size ≤ (c.sizes.map fun s => s.2.1).sum + 16384 :=
    hsize.trans (Nat.le_add_left _ _)
  rw [unscannedStructure, hparse, ok_bind, structureOf, henvelope, ok_bind, hnetwork, hid, ok_bind,
    hversion, hexactly 2 (by decide) (by decide), ok_bind, hprotocol, hdomain, htype,
    require_pos htexts, ok_bind, hgetPayloadDict, hpayload, ok_bind, hgenesis,
    hexactly 2 (by decide) (by decide), ok_bind, hindex, hexactly 0 (by decide) (by decide),
    ok_bind, hblock, hexactly 4 (by decide) (by decide), ok_bind, hmessage,
    hexactly 1 (by decide) (by decide), ok_bind, hprevious, hzero, ok_bind, require_pos rfl,
    ok_bind, happlication, happ, ok_bind, hc, ok_bind, hsizes, ok_bind, require_pos hresidual,
    ok_bind, hr, ok_bind]

theorem outerEntries_concat (es : Dict) (k : String) (v : Value) :
    outerEntries (es ++ [(k, v)]) = (do outerEntries es; outerTree v) := by
  induction es with
  | nil =>
    show (do outerTree v; .ok ()) = outerTree v
    cases outerTree v <;> rfl
  | cons e es ih =>
    obtain ⟨_, w⟩ := e
    rw [List.cons_append, outerEntries, outerEntries, ih]
    cases outerTree w <;> rfl

theorem digests_sample : Digests (sampleGenesis zeroDigest) := by
  have hall : ∀ v ∈ openDigests (sampleGenesis zeroDigest), v = zeroDigest := by decide +kernel
  have hzero : h64 zeroDigest = .ok (String.ofList (List.replicate 64 '0')) := by decide +kernel
  intro v hv
  rw [hall v hv]
  exact ⟨_, hzero⟩

theorem outerTree_null : outerTree (sampleGenesis .null) = .error (v3Error "null_outer_field") := by
  -- everything before the commitment fits, as it does in the genesis with all its digests
  obtain ⟨s, hs, henvelope⟩ := sample_structure zeroDigest trivial
    written_zeroDigest
  obtain ⟨e, he, hs⟩ := bind_eq_ok.mp hs
  obtain ⟨-, hordered, -⟩ := Bft.parse_eq_ok.mp he
  obtain ⟨hfits, hsame⟩ := fits_of_structure hordered hs (henvelope ▸ digests_sample)
  obtain rfl := hsame.symm.trans henvelope
  obtain ⟨-, hpayload⟩ := fitsEntries_iff.mp hfits.2 ("payload", .dict (samplePayload zeroDigest))
    (.tail _ (.tail _ (.tail _ (.head _))))
  have hbefore : FitsEntries (samplePayload .null).dropLast :=
    fitsEntries_iff.mpr fun e he => fitsEntries_iff.mp hpayload.2 e
      (List.mem_append_left [("validator_set_commitment", zeroDigest)] he)
  have hlast : outerTree (.dict (samplePayload .null)) = .error (v3Error "null_outer_field") := by
    rw [outerTree, require_pos (by decide), ok_bind]
    show outerEntries ((samplePayload .null).dropLast ++ [("validator_set_commitment", .null)]) = _
    rw [outerEntries_concat, outerEntries_of_fits hbefore]
    rfl
  have htext : ∀ t : String, FitsText t → outerTree (.str t) = .ok () := fun t ht =>
    outerTree_of_fits (v := .str t) ht
  have hdomain := htext "zoidbergchain/genesis/v2" (fitsText_lit _ (by decide))
  have hnetwork := htext "net" (fitsText_lit _ (by decide))
  have htype := htext "genesis" (fitsText_lit _ (by decide))
  rw [sampleGenesis, outerTree, require_pos (by decide), ok_bind, sampleEnvelope]
  simp only [outerEntries, hdomain, hnetwork, htype, hlast, ok_bind]
  rfl

/-- The null that nothing else of `_structure` looks at is what `_outer_tree` rejects. -/
theorem not_transparent : ∃ s, unscannedStructure sampleAddress (sampleRaw .null) = .ok s ∧
    outerTree s.envelope = .error (v3Error "null_outer_field") := by
  obtain ⟨s, hs, henvelope⟩ := sample_structure .null trivial
    (written_within (fits_null 2) (by decide))
  exact ⟨s, hs, henvelope ▸ outerTree_null⟩

/-- The scan passes the genesis with all its digests, whose text then bounds its value. -/
theorem preScan_transparent_and_bounding_sample :
    preScan (sampleRaw zeroDigest) = .ok () ∧ outerTree (sampleGenesis zeroDigest) = .ok () ∧
      Within (sampleGenesis zeroDigest) ∧ nesting (sampleGenesis zeroDigest) ≤ maxStack := by
  obtain ⟨htransparent, hbounding, hspelled⟩ := preScan_transparent_and_bounding sampleAddress
  obtain ⟨s, hs, henvelope⟩ := sample_structure zeroDigest trivial
    written_zeroDigest
  obtain ⟨hscan, htree, -⟩ := htransparent _ s hs (henvelope ▸ digests_sample)
  have hordered := ordered_genesis zeroDigest trivial
  have hjson := (written_genesis written_zeroDigest).json
  have hloads := loads_canonicalText hjson (unique_of_ordered hordered)
  rw [sortKeys_of_ordered hordered] at hloads
  obtain ⟨ts, hdocument⟩ := hspelled _ _ hloads
  obtain ⟨hwithin, hnesting, -⟩ := hbounding _ _ _ ts (fromUTF8_encodeUtf8 _) hdocument hscan
  exact ⟨hscan, henvelope ▸ htree, hwithin, hnesting⟩

end Genesis

end ZoidbergChain
