import ZoidbergChain.CanonicalV3.KeyOrder
import ZoidbergChain.CanonicalV3.Widths

/-!
# The size of a valid block

The checks of a block payload bound the width and the nesting of every field, so that a valid
payload has a record within the analytic bound.

- `Fits`: a value nests so deep and takes so many bytes. One lemma for every scalar check, and
  one for every object of the record.
- `width_payload_le`: the payload by the widths of its three large parts.
-/

namespace ZoidbergChain

open Python

namespace CanonicalV3

/-! ## Scalars -/

/-- The value nests at most so deep, in at most so many bytes. -/
structure Fits (depth n : Nat) (v : Value) : Prop where
  nesting : nesting v ≤ depth
  width : Json.width v ≤ n

theorem Fits.mono {depth depth' n n' : Nat} {v : Value} (h : Fits depth n v)
    (hdepth : depth ≤ depth') (hn : n ≤ n') : Fits depth' n' v :=
  ⟨h.nesting.trans hdepth, h.width.trans hn⟩

theorem fits_str {s : String} {n : Nat} (hs : ∀ c ∈ s.toList, Json.isPlain c = true)
    (hn : s.length ≤ n) : Fits 0 (n + 2) (.str s) := by
  refine ⟨le_refl 0, ?_⟩
  rw [Json.width_str, Json.textWidth_of_plain hs]
  omega

theorem fits_hex {v : Value} {pre s : String} {n : Nat} (h : pattern v (isHexAfter pre n) = .ok s)
    (hpre : ∀ c ∈ pre.toList, Json.isPlain c = true) : Fits 0 (pre.length + n + 2) v := by
  obtain ⟨rfl, hhex⟩ := pattern_eq_ok.mp h
  obtain ⟨hplain, hlength⟩ := plain_of_hex hpre hhex
  exact fits_str hplain (le_of_eq hlength)

theorem fits_h64 {v : Value} {s : String} (h : h64 v = .ok s) : Fits 0 66 v :=
  fits_hex h (by decide)

theorem fits_wallet {v : Value} {s : String} (h : wallet v = .ok s) : Fits 0 44 v :=
  fits_hex h (by decide)

theorem fits_submissionId {v : Value} {s : String} (h : submissionId v = .ok s) : Fits 0 34 v :=
  fits_hex h (by decide)

theorem fits_uint {v : Value} {low high n : Int} {k : Nat} (h : uint v low high = .ok n)
    (hk : 0 < k) (hlow : 0 ≤ low) (hhigh : high < (10 : Int) ^ k) : Fits 0 k v := by
  obtain ⟨rfl, hn⟩ := uint_eq_ok.mp h
  have hpow : (0 : Int) < (10 : Int) ^ (k - 1) := by positivity
  exact ⟨le_refl 0, Json.width_int_le hk (by omega) (by omega)⟩

/-- A fixed field has the nesting and the width of the expected value. -/
theorem fits_fixed {v expected : Value} {u : Unit} (h : fixed v expected = .ok u) :
    Fits (nesting expected) (Json.width expected) v := by
  obtain ⟨-, hsame⟩ := fixed_eq_ok.mp h
  exact ⟨le_of_eq (nesting_congr hsame), le_of_eq (width_congr hsame)⟩

theorem fits_oneOf {v : Value} {choices : List String} {code s : String} {n : Nat}
    (h : oneOf v choices code = .ok s) (hn : ∀ c ∈ choices, Json.textWidth c ≤ n) :
    Fits 0 n v := by
  cases v with
  | str t =>
    rw [oneOf] at h
    split at h
    · next hmem => exact ⟨le_refl 0, hn t hmem⟩
    · cases h
  | _ => cases h

theorem nonemptyText_eq_ok {v : Value} {scalars octets : Nat} {s : String} :
    nonemptyText v scalars octets = .ok s ↔
      v = .str s ∧ s ≠ "" ∧ s.length ≤ scalars ∧ s.utf8ByteSize ≤ octets := by
  cases v with
  | str t =>
    simp only [nonemptyText, text, bind_eq_ok, require_eq_ok, Value.str.injEq]
    constructor
    · rintro ⟨⟨⟩, hne, ⟨⟩, ⟨⟨⟩, hlength, hbytes⟩, hout⟩
      obtain rfl := Except.ok.inj hout
      exact ⟨rfl, hne, hlength, hbytes⟩
    · rintro ⟨rfl, hne, hlength, hbytes⟩
      exact ⟨(), hne, (), ⟨(), hlength, hbytes⟩, rfl⟩
  | _ => simp [nonemptyText]

theorem fits_nonemptyText {v : Value} {scalars octets : Nat} {s : String}
    (h : nonemptyText v scalars octets = .ok s) : Fits 0 (6 * scalars + 2) v := by
  obtain ⟨rfl, -, hlength, -⟩ := nonemptyText_eq_ok.mp h
  have hwidth := Json.textWidth_le s
  exact ⟨le_refl 0, le_trans hwidth (by omega)⟩

theorem isPlain_of_isDigit {c : Char} (hc : c.isDigit = true) : Json.isPlain c = true := by
  refine isPlain_of_hex ?_
  rw [isLowerHex, hc, Bool.true_or]

/-- A decimal text has digits and a point. -/
theorem plain_of_isDecimal {s : String} (h : isDecimal s = true) :
    ∀ c ∈ s.toList, Json.isPlain c = true := by
  simp only [isDecimal, Bool.and_eq_true] at h
  obtain ⟨-, hfraction⟩ := h
  intro c hc
  rw [← List.takeWhile_append_dropWhile (p := Char.isDigit) (l := s.toList)] at hc
  obtain hc | hc := List.mem_append.mp hc
  · exact isPlain_of_isDigit (List.mem_takeWhile_imp hc)
  · unfold isFraction at hfraction
    split at hfraction
    · next hnil =>
      rw [hnil] at hc
      nomatch hc
    · next cs hcs =>
      rw [hcs] at hc
      obtain rfl | hc := List.mem_cons.mp hc
      · decide
      · simp only [areDigits, Bool.and_eq_true] at hfraction
        exact isPlain_of_isDigit (List.all_eq_true.mp hfraction.1.2 c hc)
    · cases hfraction

theorem fits_seconds {v : Value} {units : Nat} (h : seconds v = .ok units) : Fits 0 34 v := by
  obtain ⟨s, hs, h⟩ := bind_eq_ok.mp h
  obtain ⟨t, ht, -⟩ := bind_eq_ok.mp h
  obtain ⟨rfl, -, hlength, -⟩ := nonemptyText_eq_ok.mp hs
  obtain ⟨heq, hdecimal⟩ := pattern_eq_ok.mp ht
  obtain rfl := Value.str.inj heq
  exact fits_str (plain_of_isDecimal hdecimal) hlength

theorem nesting_pattern {v : Value} {regex : String → Bool} {s : String}
    (h : pattern v regex = .ok s) : nesting v = 0 := by
  obtain ⟨rfl, -⟩ := pattern_eq_ok.mp h
  rfl

theorem nesting_nonemptyText {v : Value} {scalars octets : Nat} {s : String}
    (h : nonemptyText v scalars octets = .ok s) : nesting v = 0 := by
  obtain ⟨rfl, -⟩ := nonemptyText_eq_ok.mp h
  rfl

theorem nesting_timeUtc {v : Value} {parts : List Nat} (h : timeUtc v = .ok parts) :
    nesting v = 0 := by
  obtain ⟨s, hs, -⟩ := bind_eq_ok.mp h
  exact nesting_nonemptyText hs

theorem nesting_expiry {issued expires : Value} {u : Unit} (h : expiry issued expires = .ok u) :
    nesting issued = 0 ∧ nesting expires = 0 := by
  obtain ⟨_, hexpires, h⟩ := bind_eq_ok.mp h
  obtain ⟨_, hissued, -⟩ := bind_eq_ok.mp h
  exact ⟨nesting_timeUtc hissued, nesting_timeUtc hexpires⟩

theorem nesting_signature {v : Value} {s : String} (h : signature v = .ok s) :
    nesting v = 0 := by
  obtain ⟨_, hpattern, -⟩ := bind_eq_ok.mp h
  exact nesting_pattern hpattern

theorem nesting_verifySignature {crypto : Crypto} {message : ByteArray} {sig expected : Value}
    {u : Unit} (h : verifySignature crypto message sig expected = .ok u) : nesting sig = 0 := by
  obtain ⟨_, hsig, -⟩ := bind_eq_ok.mp h
  exact nesting_signature hsig

/-! ## Objects -/

/-- The fields that `fields_equal` has compared, and others that are bounded by themselves. -/
theorem nesting_fields (others : List String) {v : Value} {expected : Dict}
    {fields : List String} {n : Nat} {u : Unit} (hfixed : fieldsEqual v expected = .ok u)
    (hexpected : ∀ e ∈ expected, nesting e.2 ≤ n)
    (hothers : ∀ key ∈ others, nesting (v.field key) ≤ n)
    (hcover : ∀ key ∈ fields, key ∈ expected.map Prod.fst ∨ key ∈ others) :
    ∀ key ∈ fields, nesting (v.field key) ≤ n := by
  intro key hkey
  obtain hmem | hmem := hcover key hkey
  · obtain ⟨e, he, rfl⟩ := List.mem_map.mp hmem
    exact (fits_fixed (fieldsEqual_eq_ok.mp hfixed e he)).nesting.trans (hexpected e he)
  · exact hothers key hmem

/-- What `closed` says about an object with distinct keys. -/
theorem closed_keys {v : Value} {fields optional : List String} {d : Dict}
    (hclosed : closed v fields optional = .ok d) (hunique : Unique v) :
    v = .dict d ∧ (d.map Prod.fst).Nodup ∧ (∀ key ∈ fields, key ∈ d.map Prod.fst) ∧
      ∀ key ∈ d.map Prod.fst, key ∈ fields ++ optional := by
  obtain rfl := closed_eq_ok hclosed
  obtain ⟨⟨⟩, hkeys, -⟩ := bind_eq_ok.mp hclosed
  obtain ⟨hall, honly⟩ := require_eq_ok.mp hkeys
  refine ⟨rfl, hunique.1, fun key hkey => ?_, fun key hkey => ?_⟩
  · exact List.contains_iff_mem.mp (List.all_eq_true.mp hall key hkey)
  · exact List.contains_iff_mem.mp (List.all_eq_true.mp honly key hkey)

theorem nesting_closed {v : Value} {fields optional : List String} {d : Dict} {n : Nat}
    (hclosed : closed v fields optional = .ok d) (hunique : Unique v)
    (hfields : ∀ key ∈ fields ++ optional, nesting (v.field key) ≤ n) : nesting v ≤ n + 1 := by
  obtain ⟨rfl, hnodup, -, honly⟩ := closed_keys hclosed hunique
  exact nesting_dict_le hnodup fun key hkey => hfields key (honly key hkey)

theorem width_closed_le (widths : List (String × Nat)) {v : Value}
    {fields optional : List String} {d : Dict} (hclosed : closed v fields optional = .ok d)
    (hunique : Unique v) (hwidths : (widths.map Prod.fst).Nodup)
    (hplain : ∀ e ∈ widths, ∀ c ∈ e.1.toList, Json.isPlain c = true)
    (hkeys : ∀ key ∈ fields ++ optional, key ∈ widths.map Prod.fst)
    (hfields : ∀ e ∈ widths, v.has e.1 = true → Json.width (v.field e.1) ≤ e.2) :
    Json.width v ≤ objectWidth widths := by
  obtain ⟨rfl, hnodup, -, honly⟩ := closed_keys hclosed hunique
  refine width_dict_le hnodup hwidths hplain (fun key hkey => hkeys key (honly key hkey)) ?_
  intro e he hmem
  refine hfields e he ?_
  show (Dict.get? d e.1).isSome = true
  rw [Option.isSome_iff_ne_none, ne_eq, Dict.get?_eq_none, not_not]
  exact hmem

theorem unique_field {v : Value} {key : String} (hunique : Unique v) :
    Unique (v.field key) := by
  cases v with
  | dict d =>
    show Unique (Dict.get d key)
    cases hget : Dict.get? d key with
    | none =>
      rw [Dict.get, hget]
      trivial
    | some w =>
      rw [Dict.get, hget]
      exact objectsEntries_iff.mp hunique.2 _ (Dict.mem_of_get? hget)
  | _ => trivial

theorem objectsItems_iff {P : Dict → Prop} {xs : List Value} :
    Json.ObjectsItems P xs ↔ ∀ x ∈ xs, Json.Objects P x := by
  induction xs with
  | nil => exact ⟨fun _ => nofun, fun _ => trivial⟩
  | cons x xs ih => simp [Json.ObjectsItems, ih]

theorem unique_items {xs : List Value} (hunique : Unique (.list xs)) : ∀ x ∈ xs, Unique x :=
  objectsItems_iff.mp hunique

theorem fits_rational {v : Value} {u : Unit} (h : validateRational v = .ok u)
    (hunique : Unique v) : Fits 1 33 v := by
  obtain ⟨d, hclosed, h⟩ := bind_eq_ok.mp h
  obtain ⟨n, hn, h⟩ := bind_eq_ok.mp h
  obtain ⟨m, hm, -⟩ := bind_eq_ok.mp h
  have hnumerator : Fits 0 2 (v.field "numerator") :=
    fits_uint hn (by decide) (by decide) (by decide)
  have hdenominator : Fits 0 2 (v.field "denominator") :=
    fits_uint hm (by decide) (by decide) (by decide)
  constructor
  · refine nesting_closed hclosed hunique ?_
    simp only [List.append_nil, List.forall_mem_cons]
    exact ⟨hnumerator.nesting, hdenominator.nesting, nofun⟩
  · refine le_trans (width_closed_le [("numerator", 2), ("denominator", 2)] hclosed
      hunique (by decide) (by decide) (by decide) ?_) (by decide)
    simp only [List.forall_mem_cons]
    exact ⟨fun _ => hnumerator.width, fun _ => hdenominator.width, nofun⟩

/-! ## Evidence -/

theorem nesting_oneOf {v : Value} {choices : List String} {code s : String}
    (h : oneOf v choices code = .ok s) : nesting v = 0 := by
  cases v <;> first | rfl | cases h

theorem nesting_uint {v : Value} {low high n : Int} (h : uint v low high = .ok n) :
    nesting v = 0 := by
  obtain ⟨rfl, -⟩ := uint_eq_ok.mp h
  rfl

theorem nesting_technical {crypto : Crypto} {ctx : Context} {v : Value} {u : Unit}
    (h : validateTechnical crypto ctx v = .ok u) (hunique : Unique v) : nesting v ≤ 2 := by
  obtain ⟨d, hclosed, h⟩ := bind_eq_ok.mp h
  obtain ⟨⟨⟩, -, h⟩ := bind_eq_ok.mp h
  obtain ⟨⟨⟩, hfixed, h⟩ := bind_eq_ok.mp h
  obtain ⟨mime, hmime, h⟩ := bind_eq_ok.mp h
  obtain ⟨⟨⟩, htype, h⟩ := bind_eq_ok.mp h
  obtain ⟨_, hsha, h⟩ := bind_eq_ok.mp h
  obtain ⟨_, hlength, h⟩ := bind_eq_ok.mp h
  obtain ⟨⟨⟩, himage, hdigest⟩ := bind_eq_ok.mp h
  obtain ⟨_, hdigest, -⟩ := bind_eq_ok.mp hdigest
  have hsemantics : nesting (v.field "raw_media_semantics") ≤ 0 ∧
      ∀ e ∈ imageFields, nesting (v.field e.1) ≤ 0 := by
    split at himage
    · obtain ⟨⟨⟩, hsemantics, hfields⟩ := bind_eq_ok.mp himage
      exact ⟨(fits_fixed hsemantics).nesting, fun e he =>
        (fits_fixed (forM_eq_ok.mp hfields e he)).nesting⟩
    · obtain ⟨⟨⟩, hsemantics, hfields⟩ := bind_eq_ok.mp himage
      refine ⟨(fits_fixed hsemantics).nesting, fun e he => ?_⟩
      obtain ⟨_, hfield, -⟩ := bind_eq_ok.mp (forM_eq_ok.mp hfields e he)
      exact le_of_eq (nesting_uint hfield)
  obtain ⟨hsemantics, himage⟩ := hsemantics
  refine nesting_closed hclosed hunique ?_
  refine nesting_fields ["detected_mime_type", "detected_media_type",
    "raw_media_sha256", "raw_media_byte_length", "raw_media_semantics", "width_pixels",
    "height_pixels", "frame_count", "aggregate_decoded_pixels", "evidence_digest"] hfixed ?_ ?_ ?_
  · simp [policyFields, nesting, nestingItems]
  · simp only [imageFields, List.forall_mem_cons] at himage
    obtain ⟨hwidth, hheight, hframes, hpixels, -⟩ := himage
    have htype := (fits_fixed htype).nesting
    simp only [nesting] at htype
    simp only [List.forall_mem_cons]
    refine ⟨?_, ?_, ?_, ?_, ?_, ?_, ?_, ?_, ?_, ?_, nofun⟩
    · rw [nesting_oneOf hmime]
      exact Nat.zero_le _
    · omega
    · rw [nesting_pattern hsha]
      exact Nat.zero_le _
    · rw [nesting_uint hlength]
      exact Nat.zero_le _
    · omega
    · omega
    · omega
    · omega
    · omega
    · rw [nesting_pattern hdigest]
      exact Nat.zero_le _
  · simp [technicalFields, policyFields]

theorem nesting_attestationPayload {ctx : Context} {v : Value} {raw : ByteArray}
    (h : attestationBytes ctx v = .ok raw) (hunique : Unique v) : nesting v ≤ 1 := by
  obtain ⟨d, hclosed, h⟩ := bind_eq_ok.mp h
  obtain ⟨⟨⟩, hfixed, h⟩ := bind_eq_ok.mp h
  obtain ⟨_, hwallet, h⟩ := bind_eq_ok.mp h
  obtain ⟨_, hsubmission, h⟩ := bind_eq_ok.mp h
  obtain ⟨_, hsha, h⟩ := bind_eq_ok.mp h
  obtain ⟨_, htechnical, h⟩ := bind_eq_ok.mp h
  obtain ⟨_, hnonce, h⟩ := bind_eq_ok.mp h
  obtain ⟨⟨⟩, hexpiry, -⟩ := bind_eq_ok.mp h
  obtain ⟨hissued, hexpires⟩ := nesting_expiry hexpiry
  refine nesting_closed hclosed hunique ?_
  refine nesting_fields ["wallet_address", "submission_id", "raw_media_sha256",
    "technical_evidence_digest", "nonce", "issued_at", "expires_at"] hfixed ?_ ?_ ?_
  · simp [policyFields, nesting]
  · simp only [List.forall_mem_cons]
    exact ⟨le_of_eq (nesting_pattern hwallet), le_of_eq (nesting_pattern hsubmission),
      le_of_eq (nesting_pattern hsha), le_of_eq (nesting_pattern htechnical),
      le_of_eq (nesting_pattern hnonce), le_of_eq hissued, le_of_eq hexpires, nofun⟩
  · simp [attestationPayloadFields, policyFields]

theorem nesting_attestation {crypto : Crypto} {ctx : Context} {v : Value} {u : Unit}
    (h : validateAttestation crypto ctx v = .ok u) (hunique : Unique v) : nesting v ≤ 2 := by
  obtain ⟨d, hclosed, h⟩ := bind_eq_ok.mp h
  obtain ⟨⟨⟩, -, h⟩ := bind_eq_ok.mp h
  obtain ⟨message, hpayload, h⟩ := bind_eq_ok.mp h
  obtain ⟨_, -, h⟩ := bind_eq_ok.mp h
  obtain ⟨⟨⟩, hfixed, hsignature⟩ := bind_eq_ok.mp h
  refine nesting_closed hclosed hunique ?_
  refine nesting_fields ["signature", "canonical_payload"] hfixed ?_ ?_ ?_
  · simp [decodedText, nesting]
  · simp only [List.forall_mem_cons]
    refine ⟨?_, nesting_attestationPayload hpayload (unique_field hunique), nofun⟩
    rw [nesting_verifySignature hsignature]
    exact Nat.zero_le _
  · simp [attestationFields]

theorem nesting_vote {crypto : Crypto} {ctx : Context} {v : Value} {u : Unit}
    (h : validateVote crypto ctx v = .ok u) (hunique : Unique v) : nesting v ≤ 1 := by
  obtain ⟨d, hclosed, h⟩ := bind_eq_ok.mp h
  obtain ⟨⟨⟩, -, h⟩ := bind_eq_ok.mp h
  obtain ⟨_, hsubmission, h⟩ := bind_eq_ok.mp h
  obtain ⟨_, hcontent, h⟩ := bind_eq_ok.mp h
  obtain ⟨_, hvoter, h⟩ := bind_eq_ok.mp h
  obtain ⟨⟨⟩, hfixed, h⟩ := bind_eq_ok.mp h
  obtain ⟨_, hdimension, h⟩ := bind_eq_ok.mp h
  obtain ⟨_, hchoice, h⟩ := bind_eq_ok.mp h
  obtain ⟨_, hstatus, h⟩ := bind_eq_ok.mp h
  obtain ⟨_, hheight, h⟩ := bind_eq_ok.mp h
  obtain ⟨_, hblock, h⟩ := bind_eq_ok.mp h
  obtain ⟨_, hnonce, h⟩ := bind_eq_ok.mp h
  obtain ⟨⟨⟩, hexpiry, h⟩ := bind_eq_ok.mp h
  obtain ⟨message, -, h⟩ := bind_eq_ok.mp h
  obtain ⟨⟨⟩, -, h⟩ := bind_eq_ok.mp h
  obtain ⟨identity, -, h⟩ := bind_eq_ok.mp h
  obtain ⟨⟨⟩, hderived, hsignature⟩ := bind_eq_ok.mp h
  obtain ⟨hissued, hexpires⟩ := nesting_expiry hexpiry
  simp only [fieldsEqual_eq_ok, List.forall_mem_cons] at hderived
  obtain ⟨hmessage, hhash, hidentity, -⟩ := hderived
  refine nesting_closed hclosed hunique ?_
  refine nesting_fields ["submission_id", "content_hash", "voter_wallet_address",
    "dimension", "vote_type", "reviewer_status", "reviewer_status_effective_height",
    "reviewer_status_reference_block_hash", "vote_nonce", "vote_issued_at", "vote_expires_at",
    "vote_message", "signed_message_hash", "vote_identity", "vote_signature"] hfixed ?_ ?_ ?_
  · simp [nesting]
  · simp only [List.forall_mem_cons]
    exact ⟨le_of_eq (nesting_pattern hsubmission), le_of_eq (nesting_pattern hcontent),
      le_of_eq (nesting_pattern hvoter), le_of_eq (nesting_oneOf hdimension),
      le_of_eq (nesting_oneOf hchoice), le_of_eq (nesting_oneOf hstatus),
      le_of_eq (nesting_uint hheight), le_of_eq (nesting_pattern hblock),
      le_of_eq (nesting_pattern hnonce), le_of_eq hissued, le_of_eq hexpires,
      (fits_fixed hmessage).nesting, (fits_fixed hhash).nesting, (fits_fixed hidentity).nesting,
      le_of_eq (nesting_verifySignature hsignature), nofun⟩
  · simp [voteFields]

theorem nesting_tally {crypto : Crypto} {ctx : Context} {v : Value} {votes : List Value}
    {dimension : String} {u : Unit}
    (h : validateDerivedTally crypto ctx v votes dimension = .ok u) : nesting v ≤ 1 := by
  obtain ⟨d, -, h⟩ := bind_eq_ok.mp h
  obtain ⟨⟨⟩, -, h⟩ := bind_eq_ok.mp h
  obtain ⟨derived, hderived, hfixed⟩ := bind_eq_ok.mp h
  refine (fits_fixed hfixed).nesting.trans ?_
  obtain ⟨voteSet, -, hout⟩ := bind_eq_ok.mp hderived
  obtain rfl := Except.ok.inj hout
  simp [nesting, nestingEntries]

/-! ## Lists -/

theorem fits_list (count : Nat) {xs : List Value} {depth n : Nat} (hcount : 0 < count)
    (hlength : xs.length ≤ count) (h : ∀ x ∈ xs, Fits depth n x) :
    Fits (depth + 1) (count * (n + 1) + 1) (.list xs) := by
  constructor
  · rw [nesting, Nat.succ_le_succ_iff, nestingItems_le]
    exact fun x hx => (h x hx).nesting
  · cases xs with
    | nil =>
      show 2 ≤ _
      have hpos : 0 < count * (n + 1) := Nat.mul_pos hcount (Nat.succ_pos n)
      omega
    | cons x xs =>
      have hsum : ((x :: xs).map fun x => Json.width x + 1).sum ≤ (x :: xs).length * (n + 1) := by
        rw [← List.length_map (f := fun x => Json.width x + 1)]
        refine List.sum_le_card_nsmul _ _ fun w hw => ?_
        obtain ⟨y, hy, rfl⟩ := List.mem_map.mp hw
        exact Nat.succ_le_succ (h y hy).width
      have hmul := Nat.mul_le_mul_right (n + 1) hlength
      rw [Json.width_list (by simp)]
      omega

theorem fits_votes {crypto : Crypto} {ctx : Context} {v : Value} {u : Unit}
    (h : validateVotes crypto ctx v = .ok u) (hunique : Unique v) :
    Fits 2 (32 * 4096 + 33) v := by
  obtain ⟨votes, hvotes, h⟩ := bind_eq_ok.mp h
  obtain ⟨⟨⟩, heach, -⟩ := bind_eq_ok.mp h
  obtain ⟨rfl, hlength⟩ := listUpTo_eq_ok.mp hvotes
  refine fits_list 32 (n := 4096) (by decide) hlength fun vote hvote => ?_
  have hvalid := forM_eq_ok.mp heach vote hvote
  refine ⟨nesting_vote hvalid (unique_items hunique vote hvote), ?_⟩
  obtain ⟨_, -, hvalid⟩ := bind_eq_ok.mp hvalid
  obtain ⟨⟨⟩, hbounded, -⟩ := bind_eq_ok.mp hvalid
  exact (bounded_eq_ok.mp hbounded).2

/-! ## Transactions -/

theorem get_map_keys {keys : List String} {f : String → Value} {key : String}
    (h : key ∈ keys) : Dict.get (keys.map fun k => (k, f k)) key = f key := by
  rw [Dict.get_eq]
  induction keys with
  | nil => nomatch h
  | cons k keys ih =>
    rw [List.map_cons, Dict.get?_cons]
    by_cases hk : k = key
    · subst hk
      rw [if_pos rfl]
      rfl
    · rw [if_neg hk]
      exact ih ((List.mem_cons.mp h).resolve_left fun heq => hk heq.symm)

theorem field_transferPayload {record : Value} {key : String} (h : key ∈ transferFields) :
    (transferPayload record).field key = record.field key := get_map_keys h

theorem nesting_signingBytes {ctx : Context} {v : Value} {raw : ByteArray}
    (h : signingBytes ctx v = .ok raw) : ∀ key ∈ transferFields, nesting (v.field key) ≤ 0 := by
  obtain ⟨_, -, h⟩ := bind_eq_ok.mp h
  obtain ⟨⟨⟩, hversion, h⟩ := bind_eq_ok.mp h
  obtain ⟨⟨⟩, htype, h⟩ := bind_eq_ok.mp h
  obtain ⟨_, hgenesis, h⟩ := bind_eq_ok.mp h
  obtain ⟨⟨⟩, -, h⟩ := bind_eq_ok.mp h
  obtain ⟨_, hsender, h⟩ := bind_eq_ok.mp h
  obtain ⟨_, hrecipient, h⟩ := bind_eq_ok.mp h
  obtain ⟨⟨⟩, -, h⟩ := bind_eq_ok.mp h
  obtain ⟨_, hamount, h⟩ := bind_eq_ok.mp h
  obtain ⟨⟨⟩, hfee, h⟩ := bind_eq_ok.mp h
  obtain ⟨⟨⟩, hnonce, h⟩ := bind_eq_ok.mp h
  obtain ⟨_, htime, h⟩ := bind_eq_ok.mp h
  obtain ⟨⟨⟩, hmemo, -⟩ := bind_eq_ok.mp h
  have hversion := require_eq_ok.mp hversion
  have htype := require_eq_ok.mp htype
  have hfee := require_eq_ok.mp hfee
  obtain ⟨_, hamount, -⟩ := bind_eq_ok.mp hamount
  obtain ⟨_, hnonce, -⟩ := bind_eq_ok.mp hnonce
  have hmemo : nesting (v.field "memo") = 0 := by
    split at hmemo
    · next hnull =>
      rw [hnull]
      rfl
    · obtain ⟨_, htext, -⟩ := bind_eq_ok.mp hmemo
      exact nesting_nonemptyText htext
  simp only [transferFields, List.forall_mem_cons, hversion, htype, hfee]
  exact ⟨le_of_eq (nesting_nonemptyText hamount), le_refl 0, le_of_eq (nesting_pattern hsender),
    le_of_eq (nesting_pattern hgenesis), le_of_eq hmemo, le_of_eq (nesting_pattern hnonce),
    le_of_eq (nesting_timeUtc htime), le_of_eq (nesting_pattern hrecipient), le_refl 0,
    le_refl 0, nofun⟩

theorem fits_transaction {crypto : Crypto} {ctx : Context} {v : Value} {u : Unit}
    (h : validateTransaction crypto ctx v = .ok u) (hunique : Unique v) : Fits 1 8192 v := by
  obtain ⟨d, hclosed, h⟩ := bind_eq_ok.mp h
  obtain ⟨⟨⟩, hbounded, h⟩ := bind_eq_ok.mp h
  obtain ⟨⟨⟩, hversion, h⟩ := bind_eq_ok.mp h
  obtain ⟨⟨⟩, hnetwork, h⟩ := bind_eq_ok.mp h
  obtain ⟨⟨⟩, hscheme, h⟩ := bind_eq_ok.mp h
  obtain ⟨message, hmessage, h⟩ := bind_eq_ok.mp h
  obtain ⟨_, hsigned, h⟩ := bind_eq_ok.mp h
  obtain ⟨_, hid, h⟩ := bind_eq_ok.mp h
  obtain ⟨_, hhash, h⟩ := bind_eq_ok.mp h
  obtain ⟨⟨⟩, -, hsignature⟩ := bind_eq_ok.mp h
  obtain ⟨hnetworkId, hnetwork⟩ := require_eq_ok.mp hnetwork
  have hrest : ∀ key ∈ ["network", "network_id", "protocol_version", "signature",
      "signature_scheme", "signed_message", "signed_message_hash", "tx_id"],
      nesting (v.field key) ≤ 0 := by
    simp only [List.forall_mem_cons, hnetwork, hnetworkId, require_eq_ok.mp hversion,
      require_eq_ok.mp hscheme]
    exact ⟨le_refl 0, le_refl 0, le_refl 0, le_of_eq (nesting_verifySignature hsignature),
      le_refl 0, le_of_eq (nesting_nonemptyText hsigned), le_of_eq (nesting_pattern hhash),
      le_of_eq (nesting_pattern hid), nofun⟩
  refine ⟨nesting_closed hclosed hunique fun key hkey => ?_, (bounded_eq_ok.mp hbounded).2⟩
  rw [List.append_nil, transferRecordFields] at hkey
  obtain hpayload | hrecord := List.mem_append.mp hkey
  · have hnested := nesting_signingBytes hmessage key hpayload
    rwa [field_transferPayload hpayload] at hnested
  · exact hrest key hrecord

theorem fits_transactions {crypto : Crypto} {ctx : Context} {v : Value} {u : Unit}
    (h : validateTransactions crypto ctx v = .ok u) (hunique : Unique v) :
    Fits 2 (10 * 8192 + 11) v := by
  obtain ⟨records, hrecords, h⟩ := bind_eq_ok.mp h
  obtain ⟨⟨⟩, -, h⟩ := bind_eq_ok.mp h
  obtain ⟨⟨⟩, heach, -⟩ := bind_eq_ok.mp h
  obtain ⟨rfl, hlength⟩ := listUpTo_eq_ok.mp hrecords
  exact fits_list 10 (n := 8192) (by decide) hlength fun record hrecord =>
    fits_transaction (forM_eq_ok.mp heach record hrecord) (unique_items hunique record hrecord)

/-- The one reward of a block. -/
theorem fits_rewards {v creator : Value} {u : Unit} (h : validateRewards v creator = .ok u) :
    Fits 2 128 v := by
  unfold validateRewards at h
  split at h
  · next record =>
    obtain ⟨_, -, h⟩ := bind_eq_ok.mp h
    obtain ⟨raw, hraw, h⟩ := bind_eq_ok.mp h
    obtain ⟨expected, hexpected, h⟩ := bind_eq_ok.mp h
    obtain ⟨wanted, hwanted, hsame⟩ := bind_eq_ok.mp h
    obtain rfl := require_eq_ok.mp hsame
    obtain ⟨s, hs, hout⟩ := bind_eq_ok.mp hexpected
    obtain rfl := Except.ok.inj hout
    have hsame := canonical_inj hraw hwanted
    have hwallet : Json.textWidth s ≤ 44 := by
      have hfits := fits_wallet hs
      obtain ⟨rfl, -⟩ := pattern_eq_ok.mp hs
      exact hfits.width
    have hrecord : Fits 1 126 record := by
      constructor
      · rw [nesting_congr hsame]
        simp [nesting, nestingEntries]
      · rw [width_congr hsame, Json.width_dict (by simp)]
        have hrest : Json.textWidth "amount" = 8 ∧ Json.textWidth "payload_size_kb" = 17 ∧
            Json.textWidth "recipient" = 11 ∧ Json.textWidth "sender" = 8 ∧
            Json.textWidth "tip" = 5 ∧ Json.textWidth "5" = 3 ∧ Json.textWidth "0" = 3 ∧
            Json.textWidth "REWARD_POOL" = 13 := by decide +kernel
        simp only [List.map_cons, List.map_nil, List.sum_cons, List.sum_nil, Json.width_str, hrest]
        omega
    exact fits_list 1 (n := 126) (by decide) (by simp) (by simpa using hrecord)
  · cases h

/-! ## Media -/

/-- The widths of a descriptor with so many characters of payload. -/
def descriptorWidths (content : Nat) : List (String × Nat) :=
  [("codec_id", 10), ("codec_version", 1), ("encoding_version", 1), ("mime_type", 12),
    ("original_sha256", 66), ("original_size", 7), ("payload", content + 2), ("stored_size", 7)]

theorem objectWidth_descriptorWidths (content : Nat) :
    objectWidth (descriptorWidths content) = content + 231 := by
  simp only [objectWidth, descriptorWidths, List.map_cons, List.map_nil, List.sum_cons,
    List.sum_nil, List.length_cons, List.length_nil]
  have hkeys : "codec_id".length = 8 ∧ "codec_version".length = 13 ∧
      "encoding_version".length = 16 ∧ "mime_type".length = 9 ∧ "original_sha256".length = 15 ∧
      "original_size".length = 13 ∧ "payload".length = 7 ∧ "stored_size".length = 11 := by
    decide
  omega

theorem textOfLength_eq_ok {v : Value} {n : Nat} {code s : String} :
    textOfLength v n code = .ok s ↔ v = .str s ∧ s.length = n := by
  cases v with
  | str t =>
    rw [textOfLength]
    by_cases hlength : t.length = n
    · rw [if_pos hlength]
      constructor
      · intro hok
        obtain rfl := Except.ok.inj hok
        exact ⟨rfl, hlength⟩
      · rintro ⟨heq, -⟩
        rw [Value.str.inj heq]
    · rw [if_neg hlength]
      constructor
      · nofun
      · rintro ⟨heq, hs⟩
        exact absurd (Value.str.inj heq ▸ hs) hlength
  | _ => simp [textOfLength]

theorem maxOriginal_le (mime : String) : maxOriginal mime ≤ maxImage := by
  unfold maxOriginal
  split <;> decide

/-- What a valid descriptor says about the stored bytes. -/
theorem descriptor_payload {v : Value} {bytes : List UInt8}
    (h : validateDescriptor v = .ok bytes) :
    v.field "payload" = .str (v.textAt "payload") ∧
      Base64.encode bytes = (v.textAt "payload").toList ∧
      (v.textAt "payload").length = 4 * ((bytes.length + 2) / 3) ∧ bytes.length ≤ maxImage := by
  simp only [validateDescriptor, bind_eq_ok, require_eq_ok, orRaise_eq_ok] at h
  obtain ⟨_, -, _, -, _, -, _, -, _, -, _, -, stored, hstored, _, -, s, hs, encoded, -,
    ⟨⟩, ⟨hlength, hencode⟩, ⟨⟩, -, hout⟩ := h
  obtain rfl := Except.ok.inj hout
  obtain ⟨hvalue, hchars⟩ := textOfLength_eq_ok.mp hs
  have htext : v.textAt "payload" = s := by rw [Value.textAt, hvalue]
  have hmax := (uint_eq_ok.mp hstored).2.2
  rw [htext]
  refine ⟨hvalue, hencode, ?_, by omega⟩
  rw [← String.length_toList, ← hencode, Base64.length_encode]

theorem fits_descriptor {v : Value} {bytes : List UInt8} (h : validateDescriptor v = .ok bytes)
    (hunique : Unique v) : Fits 1 ((v.textAt "payload").length + 231) v := by
  obtain ⟨hpayload, hencode, -⟩ := descriptor_payload h
  simp only [validateDescriptor, bind_eq_ok] at h
  obtain ⟨d, hclosed, codec, hcodec, _, hversion, _, hencoding, mime, hmime, _, horiginal,
    stored, hstored, _, hsha, -⟩ := h
  have hpow : ((maxImage : Nat) : Int) < (10 : Int) ^ 7 := by decide
  have hmax : ((maxOriginal mime : Nat) : Int) < (10 : Int) ^ 7 := by
    have hle := maxOriginal_le mime
    omega
  have hplain : ∀ c ∈ (v.textAt "payload").toList, Json.isPlain c = true := by
    rw [← hencode]
    exact Base64.isPlain_encode bytes
  have hpayload : Fits 0 ((v.textAt "payload").length + 2) (v.field "payload") := by
    rw [hpayload]
    exact fits_str hplain (le_refl _)
  have hfields : ∀ e ∈ descriptorWidths (v.textAt "payload").length,
      Fits 0 e.2 (v.field e.1) := by
    simp only [descriptorWidths, List.forall_mem_cons]
    exact ⟨fits_oneOf hcodec (by decide +kernel), fits_uint hversion (by decide) (by decide)
      (by decide), fits_uint hencoding (by decide) (by decide) (by decide),
      fits_oneOf hmime (by decide +kernel), fits_h64 hsha,
      fits_uint horiginal (by decide) (by decide) hmax, hpayload,
      fits_uint hstored (by decide) (by decide) hpow, nofun⟩
  have hkeys : (descriptorWidths (v.textAt "payload").length).map Prod.fst = descriptorFields :=
    rfl
  constructor
  · refine nesting_closed hclosed hunique fun key hkey => ?_
    rw [List.append_nil, ← hkeys] at hkey
    obtain ⟨e, he, rfl⟩ := List.mem_map.mp hkey
    exact (hfields e he).nesting
  · rw [← objectWidth_descriptorWidths]
    refine width_closed_le _ hclosed hunique (by rw [hkeys]; decide) ?_ ?_
      fun e he _ => (hfields e he).width
    · intro e he
      have hkey : e.1 ∈ descriptorFields := hkeys ▸ List.mem_map_of_mem he
      revert hkey
      generalize e.1 = key
      revert key
      decide +kernel
    · rw [hkeys, List.append_nil]
      exact fun _ hkey => hkey

/-- A descriptor is wider than the text of its payload. -/
theorem content_le_width {v : Value} {bytes : List UInt8} (h : validateDescriptor v = .ok bytes)
    (hunique : Unique v) : (v.textAt "payload").length ≤ Json.width v := by
  obtain ⟨hpayload, hencode, -⟩ := descriptor_payload h
  obtain ⟨d, hclosed, -⟩ := bind_eq_ok.mp h
  obtain ⟨rfl, hnodup, hall, -⟩ := closed_keys hclosed hunique
  have hle := le_width_dict ["payload"] hnodup (by decide) fun key hkey => hall key (by
    rw [List.mem_singleton.mp hkey]
    decide)
  have hplain : ∀ c ∈ ((Value.dict d).textAt "payload").toList, Json.isPlain c = true := by
    rw [← hencode]
    exact Base64.isPlain_encode bytes
  have hwidth : Json.width (Dict.get d "payload") =
      ((Value.dict d).textAt "payload").length + 2 := by
    have hget : Dict.get d "payload" = .str ((Value.dict d).textAt "payload") := hpayload
    rw [hget, Json.width_str, Json.textWidth_of_plain hplain]
  simp only [List.map_cons, List.map_nil, List.sum_cons, List.sum_nil, hwidth] at hle
  omega

/-! ## Certificates -/

theorem plain_networkId (ctx : Context) :
    (∀ c ∈ ctx.networkId.toList, Json.isPlain c = true) ∧ ctx.networkId.length ≤ 64 := by
  have hvalid := ctx.networkId_valid
  simp only [isNetworkId, Bool.and_eq_true, decide_eq_true_eq] at hvalid
  obtain ⟨⟨⟨-, hlength⟩, -⟩, hchars⟩ := hvalid
  refine ⟨fun c hc => ?_, hlength⟩
  have hchar := List.all_eq_true.mp hchars c hc
  simp only [Bool.or_eq_true, beq_iff_eq] at hchar
  obtain (hlower | hdigit) | rfl := hchar
  · simp only [Char.isLower, Bool.and_eq_true, decide_eq_true_eq, ge_iff_le,
      UInt32.le_iff_toNat_le] at hlower
    have hval : 97 ≤ c.toNat ∧ c.toNat ≤ 122 := hlower
    have hne : c ≠ '"' ∧ c ≠ '\\' := by
      constructor <;> (rintro rfl; revert hval; decide)
    simp only [Json.isPlain, Bool.and_eq_true, decide_eq_true_eq, ne_eq]
    exact ⟨⟨⟨by omega, by omega⟩, hne.1⟩, hne.2⟩
  · exact isPlain_of_isDigit hdigit
  · decide

theorem fits_networkId (ctx : Context) : Fits 0 66 (.str ctx.networkId) := by
  obtain ⟨hplain, hlength⟩ := plain_networkId ctx
  exact fits_str hplain hlength

theorem fits_mediaPolicyId (ctx : Context) : Fits 0 84 (.str ctx.mediaPolicyId) := by
  obtain ⟨hplain, hlength⟩ := plain_networkId ctx
  refine fits_str (n := 82) (fun c hc => ?_) ?_
  · rw [Context.mediaPolicyId, String.toList_append] at hc
    obtain hc | hc := List.mem_append.mp hc
    · exact hplain c hc
    · exact (by decide : ∀ c ∈ "/media-admission/2".toList, Json.isPlain c = true) c hc
  · rw [Context.mediaPolicyId, String.length_append]
    have hsuffix : "/media-admission/2".length = 18 := by decide
    omega

theorem fits_contextHash (ctx : Context) {s : String}
    (h : s ∈ [ctx.genesisHash, ctx.mediaPolicyDigest, ctx.reviewPolicyDigest]) :
    Fits 0 66 (.str s) := by
  obtain ⟨hplain, hlength⟩ := plain_of_hex (by decide) (ctx.hashes_valid s h)
  exact fits_str hplain (le_of_eq hlength)

theorem fits_fixed_of {v expected : Value} {depth n : Nat} {u : Unit}
    (h : fixed v expected = .ok u) (hexpected : Fits depth n expected) : Fits depth n v :=
  (fits_fixed h).mono hexpected.nesting hexpected.width

theorem fits_certificate {crypto : Crypto} {ctx : Context} {v : Value} {u : Unit}
    (h : validateCertificate crypto ctx v = .ok u) (hunique : Unique v) :
    Fits 3 certificateSizeBound v := by
  obtain ⟨d, hclosed, h⟩ := bind_eq_ok.mp h
  obtain ⟨⟨⟩, -, h⟩ := bind_eq_ok.mp h
  obtain ⟨⟨⟩, hfixed, h⟩ := bind_eq_ok.mp h
  obtain ⟨_, hsubmission, h⟩ := bind_eq_ok.mp h
  obtain ⟨_, hcontent, h⟩ := bind_eq_ok.mp h
  obtain ⟨_, hcreator, h⟩ := bind_eq_ok.mp h
  obtain ⟨⟨⟩, htechnical, h⟩ := bind_eq_ok.mp h
  obtain ⟨⟨⟩, hattestation, h⟩ := bind_eq_ok.mp h
  obtain ⟨⟨⟩, -, h⟩ := bind_eq_ok.mp h
  obtain ⟨⟨⟩, -, h⟩ := bind_eq_ok.mp h
  obtain ⟨⟨⟩, hvotes, h⟩ := bind_eq_ok.mp h
  obtain ⟨⟨⟩, -, h⟩ := bind_eq_ok.mp h
  obtain ⟨⟨⟩, htallies, hdigest⟩ := bind_eq_ok.mp h
  obtain ⟨_, hdigest, -⟩ := bind_eq_ok.mp hdigest
  simp only [fieldsEqual_eq_ok, policyFields, List.cons_append, List.nil_append,
    List.forall_mem_cons] at hfixed
  obtain ⟨hversion, hnetwork, htechnicalVersion, hattestationVersion, hreviewVersion,
    hreviewDigest, hpolicy, hpolicyVersion, hpolicyDigest, -⟩ := hfixed
  have hone : ∀ n : Int, 0 ≤ n ∧ n ≤ 9 → Fits 0 1 (.int n) := fun n hn =>
    fits_uint (uint_eq_ok.mpr ⟨rfl, hn⟩) (by decide) (by decide) (by decide)
  have htechnical : Fits 2 8192 (v.field "technical_evidence") := by
    refine ⟨nesting_technical htechnical (unique_field hunique), ?_⟩
    obtain ⟨_, -, htechnical⟩ := bind_eq_ok.mp htechnical
    obtain ⟨⟨⟩, hbounded, -⟩ := bind_eq_ok.mp htechnical
    exact (bounded_eq_ok.mp hbounded).2
  have hattestation : Fits 2 16384 (v.field "attestation") := by
    refine ⟨nesting_attestation hattestation (unique_field hunique), ?_⟩
    obtain ⟨_, -, hattestation⟩ := bind_eq_ok.mp hattestation
    obtain ⟨⟨⟩, hbounded, -⟩ := bind_eq_ok.mp hattestation
    exact (bounded_eq_ok.mp hbounded).2
  have htally : ∀ dimension ∈ dimensions, Fits 1 8192 (v.field dimension) := by
    intro dimension hdimension
    obtain ⟨⟨⟩, hvalid, -⟩ := bind_eq_ok.mp (forM_eq_ok.mp htallies dimension hdimension)
    refine ⟨nesting_tally hvalid, ?_⟩
    obtain ⟨_, -, hvalid⟩ := bind_eq_ok.mp hvalid
    obtain ⟨⟨⟩, hbounded, -⟩ := bind_eq_ok.mp hvalid
    exact (bounded_eq_ok.mp hbounded).2
  have hfields : ∀ e ∈ certificateWidths, Fits 2 e.2 (v.field e.1) := by
    have hflat : ∀ {n : Nat} {w : Value}, Fits 0 n w → Fits 2 n w := fun hw =>
      hw.mono (by decide) (le_refl _)
    simp only [certificateWidths, List.forall_mem_cons]
    exact ⟨hflat (fits_fixed_of hversion (hone 2 (by decide))),
      hflat (fits_fixed_of hnetwork (fits_networkId ctx)), hflat (fits_submissionId hsubmission),
      hflat (fits_h64 hcontent), hflat (fits_wallet hcreator),
      hflat (fits_fixed_of hpolicy (fits_mediaPolicyId ctx)),
      hflat (fits_fixed_of hpolicyVersion (hone 2 (by decide))),
      hflat (fits_fixed_of hpolicyDigest (fits_contextHash ctx (by simp))),
      hflat (fits_fixed_of htechnicalVersion (hone 1 (by decide))), htechnical,
      hflat (fits_fixed_of hattestationVersion (hone 1 (by decide))), hattestation,
      hflat (fits_fixed_of hreviewVersion (hone 2 (by decide))),
      hflat (fits_fixed_of hreviewDigest (fits_contextHash ctx (by simp))),
      fits_votes hvotes (unique_field hunique),
      (htally "originality" (by decide)).mono (by decide) (le_refl _),
      (htally "admissibility" (by decide)).mono (by decide) (le_refl _),
      hflat (fits_h64 hdigest), nofun⟩
  have hkeys : ∀ key ∈ certificateFields ++ [], key ∈ certificateWidths.map Prod.fst := by
    decide +kernel
  constructor
  · refine nesting_closed hclosed hunique fun key hkey => ?_
    obtain ⟨e, he, rfl⟩ := List.mem_map.mp (hkeys key hkey)
    exact (hfields e he).nesting
  · exact width_closed_le _ hclosed hunique (by decide +kernel) (by decide +kernel) hkeys
      fun e he _ => (hfields e he).width

/-! ## Payloads -/

/-- The widths of a payload by those of its certificate, native transactions and media. -/
def partWidths (certificate native media : Nat) : List (String × Nat) :=
  [("block_version", 1), ("index", 16), ("previous_hash", 66), ("timestamp", 34),
    ("minted_at", 34), ("transactions", 128), ("native_transactions", native),
    ("transactions_hash", 66), ("miner", 68), ("submission_id", 34), ("certificate_id", 66),
    ("vote_hash", 66), ("creator_wallet", 44), ("content_type", 7), ("approval_percentage", 33),
    ("originality_score", 33), ("decisive_vote_total", 2), ("minimum_votes_required", 2),
    ("approved_at", 1), ("reward_type", 20), ("reward_source", 13), ("reward_recipient", 44),
    ("reward_amount", 3), ("voter_rewards", 2), ("admission_certificate", certificate),
    ("media", media), ("meme_text", 6002)]

/-- The fields that `validate_header` bounds. -/
def headerWidths : List (String × Nat) :=
  [("block_version", 1), ("index", 16), ("previous_hash", 66), ("timestamp", 34),
    ("minted_at", 34), ("transactions_hash", 66), ("miner", 68), ("submission_id", 34),
    ("certificate_id", 66), ("vote_hash", 66), ("creator_wallet", 44),
    ("approval_percentage", 33), ("originality_score", 33), ("decisive_vote_total", 2),
    ("minimum_votes_required", 2), ("approved_at", 1), ("reward_type", 20),
    ("reward_source", 13), ("reward_recipient", 44), ("reward_amount", 3), ("voter_rewards", 2)]

theorem fits_header {crypto : Crypto} {v : Value} {u : Unit}
    (h : validateHeader crypto v = .ok u) (hunique : Unique v) :
    ∀ e ∈ headerWidths, Fits 1 e.2 (v.field e.1) := by
  obtain ⟨⟨⟩, hversion, h⟩ := bind_eq_ok.mp h
  obtain ⟨_, hindex, h⟩ := bind_eq_ok.mp h
  obtain ⟨_, hprevious, h⟩ := bind_eq_ok.mp h
  obtain ⟨_, htimestamp, h⟩ := bind_eq_ok.mp h
  obtain ⟨_, hminted, h⟩ := bind_eq_ok.mp h
  obtain ⟨miner, hminer, h⟩ := bind_eq_ok.mp h
  obtain ⟨⟨⟩, -, h⟩ := bind_eq_ok.mp h
  obtain ⟨_, hsubmission, h⟩ := bind_eq_ok.mp h
  obtain ⟨⟨⟩, hhashes, h⟩ := bind_eq_ok.mp h
  obtain ⟨creator, hcreator, h⟩ := bind_eq_ok.mp h
  obtain ⟨_, hrecipient, h⟩ := bind_eq_ok.mp h
  obtain ⟨⟨⟩, happroval, h⟩ := bind_eq_ok.mp h
  obtain ⟨⟨⟩, horiginality, h⟩ := bind_eq_ok.mp h
  obtain ⟨_, htotal, hfixed⟩ := bind_eq_ok.mp h
  simp only [fieldsEqual_eq_ok, List.forall_mem_cons] at hfixed
  obtain ⟨hvotes, happroved, htype, hsource, -, hamount, hvoter, -⟩ := hfixed
  have hhash : ∀ name ∈ ["certificate_id", "vote_hash", "transactions_hash"],
      Fits 0 66 (v.field name) := by
    intro name hname
    obtain ⟨_, hname, -⟩ := bind_eq_ok.mp (forM_eq_ok.mp hhashes name hname)
    exact fits_h64 hname
  simp only [List.forall_mem_cons] at hhash
  obtain ⟨hcertificate, hvote, htransactions, -⟩ := hhash
  have hmaxUint : maxUint < (10 : Int) ^ 16 := by decide
  have hconst : ∀ {w e : Value} {n : Nat} {u : Unit}, fixed w e = .ok u →
      nesting e ≤ 1 ∧ Json.width e ≤ n → Fits 1 n w := fun hw he =>
    fits_fixed_of hw ⟨he.1, he.2⟩
  have hflat : ∀ {n : Nat} {w : Value}, Fits 0 n w → Fits 1 n w := fun hw =>
    hw.mono (by decide) (le_refl _)
  simp only [headerWidths, List.forall_mem_cons]
  exact ⟨hconst hversion (by decide +kernel),
    hflat (fits_uint hindex (by decide) (by decide) hmaxUint),
    hflat (fits_h64 hprevious), hflat (fits_seconds htimestamp), hflat (fits_seconds hminted),
    hflat htransactions, hflat (fits_hex hminer (by decide)), hflat (fits_submissionId hsubmission),
    hflat hcertificate, hflat hvote, hflat (fits_wallet hcreator),
    fits_rational happroval (unique_field hunique),
    fits_rational horiginality (unique_field hunique),
    hflat (fits_uint htotal (by decide) (by decide) (by decide)),
    hconst hvotes (by decide +kernel), hconst happroved (by decide +kernel),
    hconst htype (by decide +kernel), hconst hsource (by decide +kernel),
    hflat (fits_wallet hrecipient), hconst hamount (by decide +kernel),
    hconst hvoter (by decide +kernel), nofun⟩

/-- What the checks of a payload say about its width and its parts. -/
structure PayloadFits (payload : Value) : Prop where
  json : jsonValue 0 payload = .ok ()
  nesting : nesting payload ≤ 4
  certificate : Fits 3 certificateSizeBound (payload.field "admission_certificate")
  native : Fits 2 (10 * 8192 + 11) (payload.field "native_transactions")
  descriptor : ∃ bytes, validateDescriptor (payload.field "media") = .ok bytes
  media : Fits 1 (((payload.field "media").textAt "payload").length + 231)
    (payload.field "media")
  upper : Json.width payload ≤ objectWidth (partWidths
    (Json.width (payload.field "admission_certificate"))
    (Json.width (payload.field "native_transactions")) (Json.width (payload.field "media")))
  lower : Json.width (payload.field "admission_certificate") +
    Json.width (payload.field "native_transactions") + Json.width (payload.field "media") ≤
      Json.width payload

theorem payloadFits {crypto : Crypto} {ctx : Context} {payload : Value} {u : Unit}
    (h : validatePayload crypto ctx payload = .ok u) (hunique : Unique payload) :
    PayloadFits payload := by
  obtain ⟨d, hclosed, h⟩ := bind_eq_ok.mp h
  obtain ⟨⟨⟩, hbounded, h⟩ := bind_eq_ok.mp h
  obtain ⟨⟨⟩, hheader, h⟩ := bind_eq_ok.mp h
  obtain ⟨bytes, hdescriptor, h⟩ := bind_eq_ok.mp h
  obtain ⟨⟨⟩, hcontent, h⟩ := bind_eq_ok.mp h
  obtain ⟨⟨⟩, hmeme, h⟩ := bind_eq_ok.mp h
  obtain ⟨⟨⟩, hrewards, h⟩ := bind_eq_ok.mp h
  obtain ⟨aggregate, haggregate, h⟩ := bind_eq_ok.mp h
  obtain ⟨⟨⟩, -, h⟩ := bind_eq_ok.mp h
  obtain ⟨⟨⟩, hcertificate, -⟩ := bind_eq_ok.mp h
  obtain ⟨⟨⟩, hnative, -⟩ := bind_eq_ok.mp haggregate
  have hcertificate := fits_certificate hcertificate (unique_field hunique)
  have hnative := fits_transactions hnative (unique_field hunique)
  have hmedia := fits_descriptor hdescriptor (unique_field hunique)
  have hheader := fits_header hheader hunique
  simp only [headerWidths, List.forall_mem_cons] at hheader
  obtain ⟨hversion, hindex, hprevious, htimestamp, hminted, htransactions, hminer, hsubmission,
    hcertificateId, hvote, hcreator, happroval, horiginality, htotal, hvotes, happroved, htype,
    hsource, hrecipient, hamount, hvoter, -⟩ := hheader
  have hcontent : Fits 0 7 (payload.field "content_type") := by
    have hmem := require_eq_ok.mp hcontent
    have hany : payload.field "content_type" ∈ [Value.str "text", .str "image", .str "mixed"] := by
      split at hmem
      · rw [List.mem_singleton.mp hmem]
        exact List.mem_cons_self
      · exact List.mem_cons_of_mem _ hmem
    have hwidth : ∀ w ∈ [Value.str "text", .str "image", .str "mixed"],
        nesting w ≤ 0 ∧ Json.width w ≤ 7 := by decide +kernel
    obtain ⟨hnesting, hwidth⟩ := hwidth _ hany
    exact ⟨hnesting, hwidth⟩
  have hmeme : payload.has "meme_text" = true → Fits 0 6002 (payload.field "meme_text") := by
    intro hhas
    rw [if_pos hhas] at hmeme
    obtain ⟨⟨⟩, -, hmeme⟩ := bind_eq_ok.mp hmeme
    obtain ⟨_, hmeme, -⟩ := bind_eq_ok.mp hmeme
    exact fits_nonemptyText hmeme
  have habsent : payload.has "meme_text" = false → nesting (payload.field "meme_text") = 0 := by
    obtain rfl := closed_eq_ok hclosed
    intro hhas
    have hnone : Dict.get? d "meme_text" = none := Option.isSome_eq_false_iff.mp hhas |>
      Option.isNone_iff_eq_none.mp
    show nesting (Dict.get d "meme_text") = 0
    rw [Dict.get_eq, hnone]
    rfl
  have hfields : ∀ e ∈ partWidths (Json.width (payload.field "admission_certificate"))
      (Json.width (payload.field "native_transactions")) (Json.width (payload.field "media")),
      nesting (payload.field e.1) ≤ 3 ∧
        (payload.has e.1 = true → Json.width (payload.field e.1) ≤ e.2) := by
    have hfits : ∀ {depth n : Nat} {w : Value} {p : Prop}, Fits depth n w → depth ≤ 3 →
        nesting w ≤ 3 ∧ (p → Json.width w ≤ n) := fun hw hdepth =>
      ⟨hw.nesting.trans hdepth, fun _ => hw.width⟩
    have hself : ∀ {depth n : Nat} {w : Value} {p : Prop}, Fits depth n w → depth ≤ 3 →
        nesting w ≤ 3 ∧ (p → Json.width w ≤ Json.width w) := fun hw hdepth =>
      ⟨hw.nesting.trans hdepth, fun _ => le_refl _⟩
    simp only [partWidths, List.forall_mem_cons]
    refine ⟨hfits hversion (by decide), hfits hindex (by decide), hfits hprevious (by decide),
      hfits htimestamp (by decide), hfits hminted (by decide),
      hfits (fits_rewards hrewards) (by decide), hself hnative (by decide),
      hfits htransactions (by decide), hfits hminer (by decide), hfits hsubmission (by decide),
      hfits hcertificateId (by decide), hfits hvote (by decide), hfits hcreator (by decide),
      hfits hcontent (by decide), hfits happroval (by decide), hfits horiginality (by decide),
      hfits htotal (by decide), hfits hvotes (by decide), hfits happroved (by decide),
      hfits htype (by decide), hfits hsource (by decide), hfits hrecipient (by decide),
      hfits hamount (by decide), hfits hvoter (by decide), hself hcertificate (by decide),
      hself hmedia (by decide), ⟨?_, fun hhas => (hmeme hhas).width⟩, nofun⟩
    cases hhas : payload.has "meme_text" with
    | true => exact (hmeme hhas).nesting.trans (by decide)
    | false =>
      rw [habsent hhas]
      exact Nat.zero_le _
  have hkeys : (partWidths (Json.width (payload.field "admission_certificate"))
      (Json.width (payload.field "native_transactions"))
      (Json.width (payload.field "media"))).map Prod.fst = payloadFields ++ ["meme_text"] := rfl
  have hplain : ∀ key ∈ payloadFields ++ ["meme_text"], ∀ c ∈ key.toList,
      Json.isPlain c = true := by decide +kernel
  constructor
  · exact (bounded_eq_ok.mp hbounded).1
  · refine nesting_closed hclosed hunique fun key hkey => ?_
    rw [← hkeys] at hkey
    obtain ⟨e, he, rfl⟩ := List.mem_map.mp hkey
    exact (hfields e he).1
  · exact hcertificate
  · exact hnative
  · exact ⟨bytes, hdescriptor⟩
  · exact hmedia
  · refine width_closed_le _ hclosed hunique (by rw [hkeys]; decide) (fun e he => ?_) ?_
      fun e he => (hfields e he).2
    · exact hplain e.1 (hkeys ▸ List.mem_map_of_mem he)
    · rw [hkeys]
      exact fun _ hkey => hkey
  · obtain ⟨rfl, hnodup, hall, -⟩ := closed_keys hclosed hunique
    have hle := le_width_dict ["admission_certificate", "native_transactions", "media"]
      hnodup (by decide) fun key hkey => hall key (by
        revert key
        decide)
    simp only [List.map_cons, List.map_nil, List.sum_cons, List.sum_nil] at hle
    show Json.width (Dict.get d _) + Json.width (Dict.get d _) + Json.width (Dict.get d _) ≤ _
    omega

/-! ## Records -/

theorem objectWidth_split (ws vs : List (String × Nat)) (k : String) (n : Nat) :
    objectWidth (ws ++ (k, n) :: vs) = objectWidth (ws ++ (k, 0) :: vs) + n := by
  simp only [objectWidth, List.length_append, List.length_cons, List.map_append, List.map_cons,
    List.sum_append, List.sum_cons]
  omega

theorem objectWidth_partWidths (certificate transfers media : Nat) :
    objectWidth (partWidths certificate transfers media) =
      objectWidth (partWidths 0 0 0) + certificate + transfers + media := by
  have hmedia : objectWidth (partWidths certificate transfers media) =
      objectWidth (partWidths certificate transfers 0) + media :=
    objectWidth_split ((partWidths certificate transfers 0).take 25) [("meme_text", 6002)] _ _
  have htransfers : objectWidth (partWidths certificate transfers 0) =
      objectWidth (partWidths certificate 0 0) + transfers :=
    objectWidth_split ((partWidths 0 0 0).take 6) ((partWidths certificate 0 0).drop 7) _ _
  have hcertificate : objectWidth (partWidths certificate 0 0) =
      objectWidth (partWidths 0 0 0) + certificate :=
    objectWidth_split ((partWidths 0 0 0).take 24) ((partWidths 0 0 0).drop 25) _ _
  rw [hmedia, htransfers, hcertificate]

theorem objectWidth_envelopeWidths (payload : Nat) :
    objectWidth (envelopeWidths payload) = objectWidth (envelopeWidths 0) + payload := by
  simp only [objectWidth, envelopeWidths, List.map_cons, List.map_nil, List.sum_cons,
    List.sum_nil, List.length_cons, List.length_nil]
  omega

theorem h64_isHex64 {s : String} (h : IsHex64 s) : h64 (.str s) = .ok s := by
  obtain ⟨hlength, hhex⟩ := h
  refine pattern_eq_ok.mpr ⟨rfl, ?_⟩
  simp [isHexAfter, hlength, hhex]

theorem width_isHex64 {s : String} (h : IsHex64 s) : Json.width (.str s) = 66 := by
  have hplain : ∀ c ∈ s.toList, Json.isPlain c = true := fun c hc =>
    isPlain_of_hex (List.all_eq_true.mp h.2 c hc)
  rw [Json.width_str, Json.textWidth_of_plain hplain, ← String.length_toList, h.1]

/-- A record is at most this much wider than its payload. -/
theorem width_blockRecord (crypto : Crypto) (ctx : Context) (payload : Value)
    (preimage : ByteArray) :
    Json.width payload ≤
        Json.width (blockRecord crypto (envelope payload "block" ctx) preimage) ∧
      Json.width (blockRecord crypto (envelope payload "block" ctx) preimage) ≤
        objectWidth (envelopeWidths (Json.width payload)) + 87 := by
  have hhash := width_isHex64 (crypto.sha256Hex_isHex64 preimage)
  have hnetwork := (fits_networkId ctx).width
  have hkeys : Json.textWidth "envelope" = 10 ∧ Json.textWidth "hash" = 6 ∧
      Json.textWidth "domain" = 8 ∧ Json.textWidth "network_id" = 12 ∧
      Json.textWidth "object_type" = 13 ∧ Json.textWidth "payload" = 9 ∧
      Json.textWidth "protocol" = 10 ∧ Json.textWidth "protocol_version" = 18 ∧
      Json.width (.str ("zoidbergchain/" ++ "block" ++ "/v2")) = 24 ∧
      Json.width (.str "block") = 7 ∧ Json.width (.str "zoidbergchain") = 15 ∧
      Json.width (.int 2) = 1 := by decide +kernel
  have hbase : objectWidth (envelopeWidths 0) = 196 := by decide +kernel
  rw [objectWidth_envelopeWidths, hbase]
  simp only [blockRecord, envelope, Json.width_dict, ne_eq, reduceCtorEq, not_false_eq_true,
    List.map_cons, List.map_nil, List.sum_cons, List.sum_nil, hkeys, hhash]
  omega

theorem jsonValue_plain {s : String} {n : Nat}
    (hplain : ∀ c ∈ s.toList, Json.isPlain c = true) (hlength : s.length ≤ maxRecord) :
    jsonValue n (.str s) = .ok () := by
  have hbytes : s.utf8ByteSize = s.length := by
    rw [utf8ByteSize_eq, Json.bytes_of_ascii, String.length_toList]
    intro c hc
    have hchar := hplain c hc
    simp only [Json.isPlain, Bool.and_eq_true, decide_eq_true_eq] at hchar
    omega
  rw [jsonValue, text, require_pos hlength, ok_bind]
  exact require_pos (by omega)

/-- The record of a payload that nests this deep can be written. -/
theorem jsonValue_blockRecord (crypto : Crypto) (ctx : Context) {payload : Value}
    (hjson : jsonValue 0 payload = .ok ()) (hnesting : nesting payload ≤ 4)
    (preimage : ByteArray) :
    jsonValue 0 (envelope payload "block" ctx) = .ok () ∧
      jsonValue 0 (blockRecord crypto (envelope payload "block" ctx) preimage) = .ok () := by
  have hmax : maxDepth = 32 := rfl
  have hpayload : ∀ depth ≤ 2, jsonValue depth payload = .ok () := fun depth hdepth =>
    jsonValue_of_nesting hjson (by omega)
  have hnetwork : ∀ depth, jsonValue depth (.str ctx.networkId) = .ok () := by
    intro depth
    obtain ⟨hplain, hlength⟩ := plain_networkId ctx
    exact jsonValue_plain hplain (hlength.trans (by decide))
  have hhash : ∀ depth, jsonValue depth (.str (crypto.sha256Hex preimage)) = .ok () := by
    intro depth
    obtain ⟨hlength, hhex⟩ := crypto.sha256Hex_isHex64 preimage
    refine jsonValue_plain (fun c hc => isPlain_of_hex (List.all_eq_true.mp hhex c hc)) ?_
    rw [← String.length_toList, hlength]
    decide
  have hconst : ∀ depth, ∀ s ∈ ["zoidbergchain/" ++ "block" ++ "/v2", "block", "zoidbergchain"],
      jsonValue depth (.str s) = .ok () := by
    intro depth s hs
    have hplain : ∀ s ∈ ["zoidbergchain/" ++ "block" ++ "/v2", "block", "zoidbergchain"],
        (∀ c ∈ s.toList, Json.isPlain c = true) ∧ s.length ≤ maxRecord := by decide +kernel
    exact jsonValue_plain (hplain s hs).1 (hplain s hs).2
  have hkey : ∀ k ∈ envelopeFields ++ ["envelope", "hash"],
      text k maxRecord maxRecord = .ok () := by decide +kernel
  have henvelope : ∀ depth ≤ 1, jsonValue depth (envelope payload "block" ctx) = .ok () := by
    intro depth hdepth
    rw [envelope, jsonValue, require_pos (by omega), ok_bind, jsonEntries_eq_ok]
    simp only [List.forall_mem_cons]
    exact ⟨⟨hkey _ (by decide), hconst _ _ (by decide)⟩, ⟨hkey _ (by decide), hnetwork _⟩,
      ⟨hkey _ (by decide), hconst _ _ (by decide)⟩,
      ⟨hkey _ (by decide), hpayload _ (by omega)⟩,
      ⟨hkey _ (by decide), hconst _ _ (by decide)⟩, ⟨hkey _ (by decide), rfl⟩, nofun⟩
  refine ⟨henvelope 0 (by decide), ?_⟩
  rw [blockRecord, jsonValue, require_pos (by decide), ok_bind, jsonEntries_eq_ok]
  simp only [List.forall_mem_cons]
  exact ⟨⟨hkey _ (by decide), henvelope 1 (by decide)⟩, ⟨hkey _ (by decide), hhash _⟩, nofun⟩

theorem jsonValue_field {v : Value} {depth : Nat} (h : jsonValue depth v = .ok ()) (key : String) :
    jsonValue (depth + 1) (v.field key) = .ok () := by
  cases v with
  | dict d =>
    obtain ⟨⟨⟩, -, hes⟩ := bind_eq_ok.mp h
    show jsonValue _ (Dict.get d key) = _
    rw [Dict.get]
    cases hget : Dict.get? d key with
    | none => rfl
    | some w => exact (jsonEntries_eq_ok.mp hes _ (Dict.mem_of_get? hget)).2
  | _ => rfl

/-- A valid payload has a record within the budgets. -/
theorem encodeRecord_of_valid {crypto : Crypto} {ctx : Context} {payload : Value}
    (h : validatePayload crypto ctx payload = .ok ()) (hunique : Unique payload) :
    ∃ raw preimage sizes, canonical (envelope payload "block" ctx) = .ok preimage ∧
      canonical (blockRecord crypto (envelope payload "block" ctx) preimage) = .ok raw ∧
      checkBudgets (blockRecord crypto (envelope payload "block" ctx) preimage) raw = .ok sizes ∧
      encodeRecord crypto ctx payload = .ok raw ∧
      (raw.size : Int) + 4 * ((maxImage + 2) / 3 : Nat) + 231 ≤ conservativeSizeBound +
        Json.width (payload.field "media") ∧
      raw.size ≤ conservativeSizeBound ∧ sizes.complete = raw.size ∧
      sizes.certificate ≤ 196608 ∧ sizes.native ≤ 98304 ∧ 0 ≤ sizes.rest ∧ sizes.rest ≤ 32768 := by
  have hfits := payloadFits h hunique
  have hpart := objectWidth_partWidths (Json.width (payload.field "admission_certificate"))
    (Json.width (payload.field "native_transactions")) (Json.width (payload.field "media"))
  have hbase : objectWidth (partWidths 0 0 0) = 7247 ∧ certificateSizeBound = 172901 ∧
      objectWidth (envelopeWidths 0) = 196 ∧ conservativeSizeBound = 3058797 ∧
      maxImage = 2097152 ∧ maxRecord = 3145728 := by decide +kernel
  obtain ⟨hparts, hcertificate, henvelope, hbound, himage, hmax⟩ := hbase
  set preimage := encodeUtf8 (canonicalText (envelope payload "block" ctx)) with hpreimage
  set record := blockRecord crypto (envelope payload "block" ctx) preimage with hrecord
  obtain ⟨hjson, hjsonRecord⟩ := jsonValue_blockRecord crypto ctx hfits.json hfits.nesting preimage
  have hcanonical : canonical (envelope payload "block" ctx) = .ok preimage :=
    canonical_eq_ok.mpr ⟨hjson, rfl⟩
  have hraw : canonical record = .ok (encodeUtf8 (canonicalText record)) :=
    canonical_eq_ok.mpr ⟨hjsonRecord, rfl⟩
  have hsize := size_canonical hraw
  obtain ⟨hlow, hhigh⟩ := width_blockRecord crypto ctx payload preimage
  rw [← hrecord, ← hsize, objectWidth_envelopeWidths] at hhigh
  rw [← hrecord, ← hsize] at hlow
  set raw := encodeUtf8 (canonicalText record) with hrawText
  obtain ⟨bytes, hdescriptor⟩ := hfits.descriptor
  obtain ⟨-, -, hlength, hstored⟩ := descriptor_payload hdescriptor
  have hmedia := hfits.media.width
  have hlower := hfits.lower
  have hupper := hfits.upper
  have hcert := hfits.certificate.width
  have hnat := hfits.native.width
  have hcontent : ((payload.field "media").textAt "payload").length ≤
      Json.width (payload.field "media") :=
    content_le_width hdescriptor (unique_field hunique)
  have hfield : ∀ key, nesting (payload.field key) ≤ 3 →
      canonical (payload.field key) = .ok (encodeUtf8 (canonicalText (payload.field key))) := by
    intro key hnesting
    have hmaxDepth : maxDepth = 32 := rfl
    exact canonical_eq_ok.mpr
      ⟨jsonValue_of_nesting (jsonValue_field hfits.json key) (by omega), rfl⟩
  have hcertRaw := hfield "admission_certificate" hfits.certificate.nesting
  have hnatRaw := hfield "native_transactions" (hfits.native.nesting.trans (by decide))
  have hcertSize := size_canonical hcertRaw
  have hnatSize := size_canonical hnatRaw
  have hcomplete : raw.size ≤ maxRecord := by omega
  have hbudget : checkBudgets record raw = .ok ⟨raw.size,
      ((payload.field "media").textAt "payload").length,
      Json.width (payload.field "admission_certificate"),
      Json.width (payload.field "native_transactions"),
      (raw.size : Int) - Json.width (payload.field "admission_certificate") -
        Json.width (payload.field "native_transactions") -
        ((payload.field "media").textAt "payload").length⟩ := by
    have hpayload : (record.field "envelope").field "payload" = payload := rfl
    rw [checkBudgets, checkCompleteSize, require_pos hcomplete, ok_bind, hpayload]
    simp only [hcertRaw, hnatRaw, ok_bind, hcertSize, hnatSize]
    rw [require_pos (by omega), ok_bind]
  refine ⟨raw, preimage, _, hcanonical, hraw, hbudget, ?_, by omega, by omega, rfl, ?_, ?_, ?_, ?_⟩
  · simp only [encodeRecord, h, hcanonical, ok_bind, ← hrecord, hraw, hbudget]
  · show Json.width (payload.field "admission_certificate") ≤ _
    omega
  · show Json.width (payload.field "native_transactions") ≤ _
    omega
  · show (0 : Int) ≤ (raw.size : Int) - _ - _ - _
    omega
  · show (raw.size : Int) - _ - _ - _ ≤ 32768
    omega

end CanonicalV3

end ZoidbergChain
