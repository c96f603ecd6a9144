import ZoidbergChain.Bft.Wire
import ZoidbergChain.CanonicalV3.Widths

/-!
# Encodings of valid messages

- `envelope_exists`, `signed_exists`: a valid payload and a valid signed message fit the size
  limits of the wire profile, so that each has an accepted byte string.
-/

namespace ZoidbergChain

open Python CanonicalV3

namespace Bft

/-! ## Widths -/

/-- The value can be written, in so many bytes. -/
structure Fits (depth n : Nat) (v : Value) : Prop where
  ascii : asciiTree v = .ok ()
  json : jsonValue depth v = .ok ()
  width : Json.width v ≤ n

/-- A string without escapes. -/
def Plain (s : String) : Prop := ∀ c ∈ s.toList, Json.isPlain c = true

instance (s : String) : Decidable (Plain s) := inferInstanceAs (Decidable (∀ _ ∈ _, _))

theorem isPlain_ascii {c : Char} (hc : Json.isPlain c = true) : 32 ≤ c.toNat ∧ c.toNat ≤ 126 := by
  simp only [Json.isPlain, Bool.and_eq_true, decide_eq_true_eq] at hc
  exact ⟨hc.1.1.1, hc.1.1.2⟩

theorem fits_text {s : String} {k n : Nat} (hs : Plain s) (hn : s.length ≤ n)
    (hmax : n ≤ maxRecord) : Fits k (n + 2) (.str s) := by
  have hbytes : s.utf8ByteSize = s.length := by
    rw [utf8ByteSize_eq, Json.bytes_of_ascii, String.length_toList]
    intro c hc
    have hplain := isPlain_ascii (hs c hc)
    omega
  constructor
  · refine require_pos (List.all_eq_true.mpr fun c hc => ?_)
    simpa using isPlain_ascii (hs c hc)
  · rw [jsonValue, text, require_pos (by omega), ok_bind]
    exact require_pos (by omega)
  · rw [Json.width_str, Json.textWidth_of_plain hs]
    omega

theorem fits_null (depth : Nat) : Fits depth 4 .null := ⟨rfl, rfl, le_of_eq Json.width_null⟩

theorem fits_int {m : Int} {depth k : Nat} (hk : 0 < k) (hlow : -(10 : Int) ^ (k - 1) < m)
    (hhigh : m < (10 : Int) ^ k) (hm : -maxUint ≤ m ∧ m ≤ maxUint) : Fits depth k (.int m) :=
  ⟨rfl, require_pos hm, Json.width_int_le hk hlow hhigh⟩

theorem asciiEntries_eq_ok {es : List (String × Value)} : asciiEntries es = .ok () ↔
    ∀ e ∈ es, asciiText e.1 = .ok () ∧ asciiTree e.2 = .ok () := by
  induction es with
  | nil => exact ⟨fun _ => nofun, fun _ => rfl⟩
  | cons e es ih =>
    obtain ⟨k, v⟩ := e
    rw [asciiEntries, List.forall_mem_cons, ← ih, bind_eq_ok]
    constructor
    · rintro ⟨⟨⟩, hk, h⟩
      obtain ⟨⟨⟩, hv, hes⟩ := bind_eq_ok.mp h
      exact ⟨⟨hk, hv⟩, hes⟩
    · rintro ⟨⟨hk, hv⟩, hes⟩
      exact ⟨(), hk, bind_eq_ok.mpr ⟨(), hv, hes⟩⟩

/-- An entry with a plain key, in so many bytes. -/
def EntryFits (depth : Nat) (e : String × Value) (n : Nat) : Prop :=
  Plain e.1 ∧ ∃ m, Fits depth m e.2 ∧ e.1.length + m + 4 ≤ n

theorem fits_dict {es : List (String × Value)} {ns : List Nat} {depth n : Nat} (hne : es ≠ [])
    (hdepth : depth < maxDepth) (h : List.Forall₂ (EntryFits (depth + 1)) es ns)
    (hn : 1 + ns.sum ≤ n) (hmax : n ≤ maxRecord) : Fits depth n (.dict es) := by
  have hsum : (es.map fun e => Json.textWidth e.1 + Json.width e.2 + 2).sum ≤ ns.sum := by
    clear hn hne
    induction h with
    | nil => exact le_refl 0
    | cons he hes ih =>
      obtain ⟨hkey, m, hfits, hle⟩ := he
      have hwidth := hfits.width
      rw [List.map_cons, List.sum_cons, List.sum_cons, Json.textWidth_of_plain hkey]
      omega
  have hall : ∀ e ∈ es, Plain e.1 ∧ e.1.length ≤ maxRecord ∧ ∃ m, Fits (depth + 1) m e.2 := by
    have hmem : ∀ n ∈ ns, n ≤ maxRecord := fun n hn' =>
      le_trans (le_trans (List.le_sum_of_mem hn') (by omega)) hmax
    clear hsum hn hne
    induction h with
    | nil => nofun
    | cons he hes ih =>
      obtain ⟨hn, hns⟩ := List.forall_mem_cons.mp hmem
      obtain ⟨hkey, m, hfits, hle⟩ := he
      exact List.forall_mem_cons.mpr ⟨⟨hkey, by omega, m, hfits⟩, ih hns⟩
  constructor
  · refine asciiEntries_eq_ok.mpr fun e he => ?_
    obtain ⟨hkey, hlength, m, hfits⟩ := hall e he
    exact ⟨(fits_text (k := 0) hkey (le_refl _) hlength).ascii, hfits.ascii⟩
  · rw [jsonValue, require_pos hdepth, ok_bind]
    refine jsonEntries_eq_ok.mpr fun e he => ?_
    obtain ⟨hkey, hlength, m, hfits⟩ := hall e he
    exact ⟨(fits_text (k := 0) hkey (le_refl _) hlength).json, hfits.json⟩
  · rw [Json.width_dict hne]
    omega

theorem fits_list {xs : List Value} {depth m n : Nat} (hne : xs ≠ []) (hdepth : depth < maxDepth)
    (h : ∀ x ∈ xs, Fits (depth + 1) m x) (hn : 1 + xs.length * (m + 1) ≤ n) :
    Fits depth n (.list xs) := by
  have hparts : asciiItems xs = .ok () ∧ jsonItems (depth + 1) xs = .ok () ∧
      (xs.map fun x => Json.width x + 1).sum ≤ xs.length * (m + 1) := by
    clear hne hn
    induction xs with
    | nil => exact ⟨rfl, rfl, by simp⟩
    | cons x xs ih =>
      obtain ⟨hx, hxs⟩ := List.forall_mem_cons.mp h
      obtain ⟨hascii, hjson, hwidth⟩ := ih hxs
      refine ⟨?_, ?_, ?_⟩
      · rw [asciiItems, hx.ascii, ok_bind, hascii]
      · rw [jsonItems, hx.json, ok_bind, hjson]
      · have hhead := hx.width
        rw [List.map_cons, List.sum_cons, List.length_cons, Nat.succ_mul]
        omega
  obtain ⟨hascii, hjson, hwidth⟩ := hparts
  constructor
  · exact hascii
  · rw [jsonValue, require_pos hdepth, ok_bind, hjson]
  · rw [Json.width_list hne]
    omega

/-! ## Payloads -/

theorem fits_hash {s : String} {depth : Nat} (h : isHash s) : Fits depth 66 (.str s) := by
  obtain ⟨hplain, hlength⟩ := plain_of_hex (by decide) h
  exact fits_text hplain (le_of_eq (by simpa using hlength)) (by decide)

theorem fits_optionText {s : Option String} {depth : Nat} (h : ∀ b ∈ s, isHash b) :
    Fits depth 66 (optionText s) := by
  cases s with
  | none =>
    have hnull := fits_null depth
    exact ⟨hnull.ascii, hnull.json, le_trans hnull.width (by decide)⟩
  | some b => exact fits_hash (h b rfl)

theorem fits_number {m high : Int} {depth k : Nat} (hk : 0 < k) (hm : 0 ≤ m ∧ m ≤ high)
    (hhigh : high < (10 : Int) ^ k) (hmax : high ≤ maxUint) : Fits depth k (.int m) := by
  have hpow : (0 : Int) < (10 : Int) ^ (k - 1) := by positivity
  refine fits_int hk ?_ ?_ ⟨?_, ?_⟩
  · omega
  · omega
  · unfold maxUint
    omega
  · omega

theorem entryFits {k : String} {v : Value} {depth m n : Nat} (hk : Plain k)
    (hv : Fits depth m v) (hn : k.length + m + 4 ≤ n) : EntryFits depth (k, v) n :=
  ⟨hk, m, hv, hn⟩

theorem fits_payload {ctx : Context} {p : Payload} (hp : p.Valid ctx) {depth : Nat}
    (hdepth : depth < maxDepth) : Fits depth 700 (.dict (p.toDict ctx)) := by
  obtain ⟨hg, ha, hc⟩ := hp.context
  obtain ⟨hid, hidlength⟩ := plain_of_hex (by decide) hp.validatorId
  have hheight : Fits (depth + 1) 16 (.int p.height) :=
    fits_number (by decide) ⟨le_trans (by decide) hp.height.1, hp.height.2⟩ (by decide)
      (le_refl maxUint)
  have hround : Fits (depth + 1) 10 (.int p.round) :=
    fits_number (by decide) hp.round (by decide) (by decide)
  have hzero : ∀ m : Int, 0 ≤ m ∧ m ≤ 1 → Fits (depth + 1) 1 (.int m) := fun m hm =>
    fits_number (by decide) hm (by decide) (by decide)
  have hstep : Fits (depth + 1) 11 (.str p.step.name) := by
    have hplain : Plain p.step.name ∧ p.step.name.length ≤ 9 := by
      cases p.step with
      | propose vr => exact (by decide : Plain "propose" ∧ "propose".length ≤ 9)
      | prevote => decide
      | precommit => decide
    exact fits_text hplain.1 hplain.2 (by decide)
  have hhead : List.Forall₂ (EntryFits (depth + 1)) (p.head ctx)
      [94, 80, 32, 82, 20, 81, 19, 19] :=
    .cons (entryFits (by decide) (fits_hash ha) (by decide)) <|
    .cons (entryFits (by decide) (fits_optionText hp.blockHash) (by decide)) <|
    .cons (entryFits (by decide) hheight (by decide)) <|
    .cons (entryFits (by decide) (fits_hash hg) (by decide)) <|
    .cons (entryFits (by decide) (hzero 1 (by decide)) (by decide)) <|
    .cons (entryFits (by decide) (fits_hash hp.parentHash) (by decide)) <|
    .cons (entryFits (by decide) hround (by decide)) <|
    .cons (entryFits (by decide) hstep (by decide)) .nil
  have hround : ∃ ns : List Nat, List.Forall₂ (EntryFits (depth + 1)) p.step.validRound ns ∧
      ns.sum ≤ 26 := by
    cases hs : p.step with
    | propose vr =>
      obtain ⟨-, hlow, hhigh, -⟩ := hp.proposal vr hs
      have hvr : Fits (depth + 1) 11 (.int vr) := by
        have := hp.round
        unfold maxRound at this
        refine fits_int (by decide) (by omega) (by omega) ?_
        unfold maxUint
        omega
      exact ⟨[26], .cons (entryFits (by decide) hvr (by decide)) .nil, by decide⟩
    | _ => exact ⟨[], .nil, by decide⟩
  obtain ⟨ns, hns, hsum⟩ := hround
  have htail : List.Forall₂ (EntryFits (depth + 1)) [("validator_epoch", Value.int 0),
      ("validator_id", .str p.validatorId), ("validator_set_commitment", .str ctx.setCommitment)]
      [20, 60, 94] :=
    .cons (entryFits (by decide) (hzero 0 (by decide)) (by decide)) <|
    .cons (entryFits (by decide) (fits_text (n := 42) hid (le_of_eq hidlength) (by decide))
      (by decide)) <|
    .cons (entryFits (by decide) (fits_hash hc) (by decide)) .nil
  refine fits_dict (by simp [Payload.toDict, Payload.head]) hdepth
    (List.rel_append (List.rel_append hhead hns) htail) ?_ (by decide)
  simp only [List.sum_append, List.sum_cons, List.sum_nil]
  omega

/-- The network identity has up to 64 plain characters. -/
def Context.PlainNetwork (ctx : Context) : Prop := Plain ctx.network ∧ ctx.network.length ≤ 64

theorem fits_envelope {ctx : Context} {p : Payload} (hctx : ctx.PlainNetwork) (hp : p.Valid ctx)
    {depth : Nat} (hdepth : depth + 1 < maxDepth) :
    Fits depth 950 (.dict (p.envelope ctx)) := by
  have htype : (Plain ("zoidbergchain/" ++ p.step.objectType ++ "/v1") ∧
      ("zoidbergchain/" ++ p.step.objectType ++ "/v1").length ≤ 29) ∧
      Plain p.step.objectType ∧ p.step.objectType.length ≤ 12 := by
    cases p.step with
    | propose vr => exact (by decide : (Plain "zoidbergchain/bft-proposal/v1" ∧
        "zoidbergchain/bft-proposal/v1".length ≤ 29) ∧
        Plain "bft-proposal" ∧ "bft-proposal".length ≤ 12)
    | prevote => decide
    | precommit => decide
  obtain ⟨⟨hdomain, hlength⟩, hobject, hobjectLength⟩ := htype
  have hall : List.Forall₂ (EntryFits (depth + 1)) (p.envelope ctx) [41, 80, 29, 711, 27, 21] :=
    .cons (entryFits (by decide) (fits_text hdomain hlength (by decide)) (by decide)) <|
    .cons (entryFits (by decide) (fits_text hctx.1 hctx.2 (by decide)) (by decide)) <|
    .cons (entryFits (by decide) (fits_text hobject hobjectLength (by decide)) (by decide)) <|
    .cons (entryFits (by decide) (fits_payload hp hdepth) (by decide)) <|
    .cons (entryFits (by decide) (fits_text (n := 13) (by decide) (by decide) (by decide))
      (by decide)) <|
    .cons (entryFits (by decide) (fits_number (k := 1) (m := 2) (by decide)
      (by decide : (0 : Int) ≤ 2 ∧ (2 : Int) ≤ 2) (by decide) (by decide)) (by decide)) .nil
  exact fits_dict (by simp [Payload.envelope]) (by omega) hall (by decide) (by decide)

theorem fits_signed {crypto : Crypto} {ctx : Context} {m : SignedMessage} (hctx : ctx.PlainNetwork)
    (hm : m.Valid crypto ctx) {depth : Nat} (hdepth : depth + 2 < maxDepth) :
    Fits depth 1200 (.dict (m.toDict ctx)) := by
  obtain ⟨s, hs, -⟩ := bind_eq_ok.mp hm.grammar
  obtain ⟨hvalue, hhex⟩ := pattern_eq_ok.mp hs
  obtain rfl := Value.str.inj hvalue
  obtain ⟨hplain, hlength⟩ := plain_of_hex (by decide) hhex
  have hall : List.Forall₂ (EntryFits (depth + 1)) (m.toDict ctx) [962, 147, 35] :=
    .cons (entryFits (by decide) (fits_envelope hctx hm.payload (by omega)) (by decide)) <|
    .cons (entryFits (by decide) (fits_text hplain (le_of_eq hlength) (by decide)) (by decide)) <|
    .cons (entryFits (by decide) (fits_text (n := 13) (by decide) (by decide) (by decide))
      (by decide)) .nil
  exact fits_dict (by simp [SignedMessage.toDict]) (by omega) hall (by decide) (by decide)

/-! ## Byte strings -/

theorem J_of_fits {v : Value} {n : Nat} (hv : Ordered v) (h : Fits 0 n v) :
    ∃ raw, J v = .ok raw ∧ raw.size ≤ n := by
  refine ⟨encodeUtf8 (canonicalText v), ?_, ?_⟩
  · rw [J, h.ascii, ok_bind, canonical, h.json, ok_bind]
  · have hbytes := congrArg List.length (bytes_ofList (Json.render false (Json.sortKeys v)))
    rw [Json.length_utf8, sortKeys_of_ordered hv] at hbytes
    have hsize : (encodeUtf8 (canonicalText v)).size = Json.width v := by
      rw [canonicalText, sortKeys_of_ordered hv]
      exact hbytes
    rw [hsize]
    exact h.width

/-- A valid payload has an accepted envelope. -/
theorem envelope_exists {ctx : Context} {p : Payload} (hctx : ctx.PlainNetwork)
    (hp : p.Valid ctx) : ∃ raw, envelope raw ctx = .ok (p.envelope ctx) := by
  obtain ⟨raw, hJ, hsize⟩ := J_of_fits (ordered_envelope ctx p)
    (fits_envelope hctx hp (by decide : 0 + 1 < maxDepth))
  exact ⟨raw, envelope_eq_ok.mpr ⟨p, hp, rfl, hJ, le_trans hsize (by decide)⟩⟩

/-- A valid signed message is one that `signed` reads. -/
theorem signed_of_valid {crypto : Crypto} {ctx : Context} {m : SignedMessage}
    (hctx : ctx.PlainNetwork) (hm : m.Valid crypto ctx) : m.Signed crypto ctx := by
  obtain ⟨raw, hJ, hsize⟩ := J_of_fits (ordered_signed ctx m)
    (fits_signed hctx hm (by decide : 0 + 2 < maxDepth))
  exact ⟨hm, raw, hJ, le_trans hsize (by decide)⟩

end Bft

end ZoidbergChain
