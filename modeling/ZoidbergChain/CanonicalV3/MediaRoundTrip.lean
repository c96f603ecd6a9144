import ZoidbergChain.CanonicalV3.Worker
import ZoidbergChain.CanonicalV3.Writing
import ZoidbergChain.CanonicalV3.RoundTrip

/-!
# Media descriptors across the worker

The validator of a descriptor and the worker that decodes it are written independently. What
the one accepts the other reads, and what is produced is reconstructed.

- `payload_parseDescriptor`: the worker reads an accepted descriptor and its stored bytes.
- `reconstruct_described`: a worker without local failures restores the original of a
  descriptor or refuses the compressed form.
- `noLocalFailure_of_orderly`: a machine that keeps to the protocol has no local failure.
- `mediaRoundTrip`: both boundaries.
-/

namespace ZoidbergChain

open Python

namespace CanonicalV3

open Worker

/-! ## The sorted descriptor -/

/-- A descriptor with its keys in order. -/
def descriptorRecord (codec mime digest : String) (original : Int) (content : String)
    (stored : Int) : Value :=
  .dict [("codec_id", .str codec), ("codec_version", .int 1), ("encoding_version", .int 1),
    ("mime_type", .str mime), ("original_sha256", .str digest), ("original_size", .int original),
    ("payload", .str content), ("stored_size", .int stored)]

/-- What a descriptor states about the stored bytes. -/
structure Described (encoded : List UInt8) (codec mime digest : String) (original : Int)
    (content : String) (stored : Int) : Prop where
  codec_mem : codec ∈ ["identity", "zstd"]
  mime_mem : mime ∈ mimes
  digest_hex : isHexAfter "" 64 digest = true
  original_range : 1 ≤ original ∧ original ≤ maxOriginal mime
  stored_range : 1 ≤ stored ∧ stored ≤ maxImage
  length_eq : encoded.length = stored.toNat
  content_eq : Base64.encode encoded = content.toList
  identity_size : codec = "identity" → stored = original

/-- An accepted descriptor is, in order, one with eight valid entries. -/
theorem sortKeys_descriptor {v : Value} {encoded : List UInt8}
    (hvalid : validateDescriptor v = .ok encoded) (hunique : Unique v) :
    ∃ codec mime digest original content stored,
      Json.sortKeys v = descriptorRecord codec mime digest original content stored ∧
      Described encoded codec mime digest original content stored := by
  have hordered := ordered_sortKeys hunique
  rw [← validateDescriptor_sortKeys] at hvalid
  generalize Json.sortKeys v = w at hvalid hordered ⊢
  simp only [validateDescriptor, bind_eq_ok, require_eq_ok, orRaise_eq_ok] at hvalid
  obtain ⟨d, hclosed, codec, hcodec, version, hversion, encoding, hencoding, mime, hmime, original,
    horiginal, stored, hstored, digest, hdigest, content, hcontent, bytes, hdecode, ⟨⟩,
    ⟨hlength, hencode⟩, ⟨⟩, hidentity, hout⟩ := hvalid
  obtain rfl := Except.ok.inj hout
  obtain rfl := closed_eq_ok hclosed
  obtain ⟨-, hentries⟩ := eq_of_closed (l := descriptorFields) hordered.1 hclosed
    (by decide +kernel) fun _ => Iff.rfl
  obtain ⟨hcodecValue, hcodecMem⟩ := oneOf_eq_ok.mp hcodec
  obtain ⟨hmimeValue, hmimeMem⟩ := oneOf_eq_ok.mp hmime
  obtain ⟨hversionValue, hversionRange⟩ := uint_eq_ok.mp hversion
  obtain ⟨hencodingValue, hencodingRange⟩ := uint_eq_ok.mp hencoding
  obtain ⟨horiginalValue, horiginalRange⟩ := uint_eq_ok.mp horiginal
  obtain ⟨hstoredValue, hstoredRange⟩ := uint_eq_ok.mp hstored
  obtain ⟨hdigestValue, hdigestHex⟩ := pattern_eq_ok.mp hdigest
  obtain ⟨hcontentValue, -⟩ := textOfLength_eq_ok.mp hcontent
  obtain rfl : version = 1 := by omega
  obtain rfl : encoding = 1 := by omega
  refine ⟨codec, mime, digest, original, content, stored, ?_, hcodecMem, hmimeMem, hdigestHex,
    horiginalRange, hstoredRange, hlength, hencode, hidentity⟩
  have hget : ∀ {key : String} {w : Value}, (Value.dict d).field key = w → d.get key = w :=
    fun h => h
  rw [hentries]
  simp only [descriptorFields, List.map_cons, List.map_nil, hget hcodecValue, hget hversionValue,
    hget hencodingValue, hget hmimeValue, hget hdigestValue, hget horiginalValue,
    hget hcontentValue, hget hstoredValue]
  rfl

variable {encoded : List UInt8} {codec mime digest content : String} {original stored : Int}

/-- Such a descriptor can be written within the bound of the worker. -/
theorem Described.writes (h : Described encoded codec mime digest original content stored) :
    Writes 1 2797000 (descriptorRecord codec mime digest original content stored) := by
  have himage : maxImage = 2097152 := rfl
  have hmime := maxOriginal_le mime
  have hlength := h.length_eq
  have hstored := h.stored_range
  have horiginal := h.original_range
  have hcontent : Writes 0 2796206 (.str content) := by
    refine writes_plain (n := 2796204) ?_ ?_ (by decide)
    · rw [← h.content_eq]
      exact Base64.isPlain_encode encoded
    · rw [← String.length_toList, ← h.content_eq, Base64.length_encode]
      omega
  have hdigest : h64 (.str digest) = .ok digest := pattern_eq_ok.mpr ⟨rfl, h.digest_hex⟩
  have hfields : FieldsWrite 0 [("codec_id", .str codec), ("codec_version", .int 1),
      ("encoding_version", .int 1), ("mime_type", .str mime), ("original_sha256", .str digest),
      ("original_size", .int original), ("payload", .str content), ("stored_size", .int stored)]
      [("codec_id", 10), ("codec_version", 1), ("encoding_version", 1), ("mime_type", 12),
        ("original_sha256", 66), ("original_size", 7), ("payload", 2796206),
        ("stored_size", 7)] := by
    simp only [FieldsWrite, List.forall₂_cons, List.forall₂_nil_left_iff, true_and, and_true]
    exact ⟨writes_member h.codec_mem (n := 8) (by decide) (by decide),
      writes_small (by decide) (by decide) (by decide),
      writes_small (by decide) (by decide) (by decide),
      writes_member h.mime_mem (n := 10) (by decide) (by decide), writes_h64 hdigest,
      writes_small (by omega) (by decide) (by unfold maxUint; omega), hcontent,
      writes_small (by omega) (by decide) (by unfold maxUint; omega)⟩
  exact (writes_dict hfields (by decide +kernel) (by decide)).mono (le_refl _)
    (by decide +kernel)

/-! ## The flat text -/

/-- A character that opens no container. -/
def opensNothing (c : Char) : Bool := c != '[' && c != '\x7b'

theorem flatStep_eq {s : Scan} {b : UInt8} (h : b ≠ 91 ∧ b ≠ 123) : flatStep s b = s.step b := by
  unfold flatStep Scan.step
  have hopen : ¬(b = 123 ∨ b = 91) := fun hb => hb.elim h.2 h.1
  have hopen' : ¬(b = 91 ∨ b = 123) := fun hb => hb.elim h.1 h.2
  have hclose : (b = 125 ∨ b = 93) = (b = 93 ∨ b = 125) := propext or_comm
  simp only [if_neg hopen, if_neg hopen', hclose]

/-- Behind the opening brace both loops run alike. -/
theorem foldlM_flatStep {cs : List Char} (h : ∀ c ∈ cs, opensNothing c = true) (s : Scan) :
    (cs.flatMap String.utf8EncodeChar).foldlM flatStep s = s.run cs := by
  have hbytes : ∀ b ∈ cs.flatMap String.utf8EncodeChar, b ≠ 91 ∧ b ≠ 123 := by
    intro b hb
    obtain ⟨c, hc, hb⟩ := List.mem_flatMap.mp hb
    have hopens := h c hc
    simp only [opensNothing, Bool.and_eq_true, bne_iff_ne, ne_eq] at hopens
    have hne : ∀ d : Char, d.toNat < 128 → c ≠ d → b ≠ UInt8.ofNat d.toNat := by
      intro d hd hcd
      have hchar : c.toNat ≠ d.toNat := fun heq => hcd (Char.toNat_inj.mp heq)
      refine ne_of_toNat_ne (by omega) ?_
      obtain hb | hb := mem_utf8EncodeChar hb <;> omega
    exact ⟨hne '[' (by decide) hopens.1, hne '\x7b' (by decide) hopens.2⟩
  rw [Scan.run]
  revert hbytes
  generalize cs.flatMap String.utf8EncodeChar = bytes
  intro hbytes
  induction bytes generalizing s with
  | nil => rfl
  | cons b bytes ih =>
    obtain ⟨hb, hrest⟩ := List.forall_mem_cons.mp hbytes
    rw [List.foldlM_cons, List.foldlM_cons, flatStep_eq hb]
    exact congrArg (s.step b >>= ·) (funext fun t => ih t hrest)

theorem opensNothing_of_isDigit {c : Char} (hc : c.isDigit = true) : opensNothing c = true := by
  rw [opensNothing, Bool.and_eq_true, bne_iff_ne, bne_iff_ne]
  constructor <;> rintro rfl <;> exact absurd hc (by decide)

theorem opensNothing_of_isLowerHex {c : Char} (hc : isLowerHex c = true) :
    opensNothing c = true := by
  rw [opensNothing, Bool.and_eq_true, bne_iff_ne, bne_iff_ne]
  constructor <;> rintro rfl <;> exact absurd hc (by decide)

/-- The characters of a text field. -/
theorem opensNothing_str {s : String} (hplain : ∀ c ∈ s.toList, Json.isPlain c = true)
    (h : ∀ c ∈ s.toList, opensNothing c = true) :
    ∀ c ∈ Json.render false (.str s), opensNothing c = true := by
  rw [Json.render, Json.renderChars_of_plain hplain]
  simp only [List.forall_mem_cons, List.forall_mem_append]
  exact ⟨by decide, h, by decide, nofun⟩

theorem opensNothing_int {n : Int} (hn : 0 ≤ n) :
    ∀ c ∈ Json.render false (.int n), opensNothing c = true := by
  rw [Json.render, Json.renderInt, if_neg (not_lt.mpr hn)]
  exact fun c hc => opensNothing_of_isDigit
    (Nat.isDigit_of_mem_toDigits (b := 10) (by decide) (by decide) hc)

theorem opensNothing_entries {es : Dict}
    (hkeys : ∀ e ∈ es, ∀ c ∈ Json.render false (.str e.1), opensNothing c = true)
    (hvalues : ∀ e ∈ es, ∀ c ∈ Json.render false e.2, opensNothing c = true) :
    ∀ c ∈ Json.renderEntries false es, opensNothing c = true := by
  induction es with
  | nil => decide
  | cons e es ih =>
    obtain ⟨hkey, hkeys⟩ := List.forall_mem_cons.mp hkeys
    obtain ⟨hvalue, hvalues⟩ := List.forall_mem_cons.mp hvalues
    rw [Json.render, List.forall_mem_cons] at hkey
    simp only [Json.renderEntries, List.cons_append, List.forall_mem_cons,
      List.forall_mem_append]
    exact ⟨by decide, by decide, hkey.2, by decide, hvalue, ih hkeys hvalues⟩

/-- A text of the source, as the text of a value. -/
theorem opensNothing_member {s : String} {l : List String} (hs : s ∈ l)
    (hl : (l.all fun s => s.toList.all fun c => Json.isPlain c && opensNothing c) = true) :
    ∀ c ∈ Json.render false (.str s), opensNothing c = true := by
  have hchars := List.all_eq_true.mp (List.all_eq_true.mp hl s hs)
  simp only [Bool.and_eq_true] at hchars
  exact opensNothing_str (fun c hc => (hchars c hc).1) fun c hc => (hchars c hc).2

/-- Behind its brace the text of a descriptor opens no container. -/
theorem opensNothing_record (h : Described encoded codec mime digest original content stored) :
    ∃ cs, Json.render false (descriptorRecord codec mime digest original content stored) =
      '\x7b' :: cs ∧ ∀ c ∈ cs, opensNothing c = true := by
  have hcontent := @opensNothing_str content
    (by rw [← h.content_eq]; exact Base64.isPlain_encode encoded)
    (by rw [← h.content_eq]; exact Base64.forall_encode (by decide) (by decide) encoded)
  have hhex : ∀ c ∈ digest.toList, isLowerHex c = true := by
    have hall := h.digest_hex
    rw [isHexAfter, Bool.and_eq_true] at hall
    exact List.all_eq_true.mp hall.2
  have hdigest := @opensNothing_str digest (fun c hc => isPlain_of_hex (hhex c hc))
    fun c hc => opensNothing_of_isLowerHex (hhex c hc)
  have hone : (0 : Int) ≤ 1 := by decide
  have horiginal : 0 ≤ original := by have := h.original_range; omega
  have hstored : 0 ≤ stored := by have := h.stored_range; omega
  have hkeys := fun key (hkey : key ∈ descriptorFields) =>
    opensNothing_member hkey (by decide +kernel)
  have hentries := @opensNothing_entries [("codec_version", .int 1), ("encoding_version", .int 1),
      ("mime_type", .str mime), ("original_sha256", .str digest), ("original_size", .int original),
      ("payload", .str content), ("stored_size", .int stored)]
    (by
      simp only [List.forall_mem_cons]
      exact ⟨hkeys _ (by decide), hkeys _ (by decide), hkeys _ (by decide), hkeys _ (by decide),
        hkeys _ (by decide), hkeys _ (by decide), hkeys _ (by decide), List.forall_mem_nil _⟩)
    (by
      simp only [List.forall_mem_cons]
      exact ⟨opensNothing_int hone, opensNothing_int hone,
        opensNothing_member h.mime_mem (by decide +kernel), hdigest, opensNothing_int horiginal,
        hcontent, opensNothing_int hstored, List.forall_mem_nil _⟩)
  have hkey := hkeys "codec_id" (by decide)
  rw [Json.render, List.forall_mem_cons] at hkey
  rw [descriptorRecord, Json.render, List.cons_append]
  refine ⟨_, rfl, ?_⟩
  simp only [List.cons_append, List.forall_mem_cons, List.forall_mem_append]
  exact ⟨by decide, hkey.2, by decide, opensNothing_member h.codec_mem (by decide +kernel),
    hentries⟩

theorem ordered_record (codec mime digest : String) (original : Int) (content : String)
    (stored : Int) : Ordered (descriptorRecord codec mime digest original content stored) :=
  ⟨(by decide +kernel : descriptorFields.Pairwise (· < ·)), trivial, trivial, trivial, trivial,
    trivial, trivial, trivial, trivial, trivial⟩

theorem canonicalText_record (codec mime digest : String) (original : Int) (content : String)
    (stored : Int) :
    canonicalText (descriptorRecord codec mime digest original content stored) =
      String.ofList (Json.render false
        (descriptorRecord codec mime digest original content stored)) := by
  rw [canonicalText, sortKeys_of_ordered (ordered_record _ _ _ _ _ _)]

/-- The loop over the bytes passes. -/
theorem flatStep_record (h : Described encoded codec mime digest original content stored) :
    (encodeUtf8 (canonicalText (descriptorRecord codec mime digest original content
      stored))).data.toList.foldlM flatStep {} = .ok (between 0) := by
  obtain ⟨cs, hrender, hopens⟩ := opensNothing_record h
  have hrun : (between 0).run ('\x7b' :: cs) = .ok (between 0) :=
    hrender ▸ run_render h.writes.json
  rw [canonicalText_record, hrender, bytes_ofList, ← hrun, Scan.run]
  have hbrace : ('\x7b' :: cs).flatMap String.utf8EncodeChar =
      123 :: cs.flatMap String.utf8EncodeChar := rfl
  rw [hbrace, List.foldlM_cons, List.foldlM_cons]
  -- both loops are one level deep behind the brace
  have hflat : flatStep {} 123 = .ok (between 1) := rfl
  have hstep : (between 0).step 123 = .ok (between 1) := rfl
  rw [hflat, hstep, ok_bind, ok_bind]
  exact foldlM_flatStep hopens _

/-! ## The worker reads what the validator accepts -/

theorem integerToken_renderInt_small {n : Int} (hn : 0 ≤ n ∧ n ≤ maxImage) :
    Worker.integerToken (Json.renderInt n) = .ok n := by
  have hlength : (Nat.toDigits 10 n.natAbs).length ≤ 16 := by
    refine (Nat.length_toDigits_le_iff (by decide) (by decide)).mpr ?_
    have himage : maxImage = 2097152 := rfl
    omega
  have hhead : (Nat.toDigits 10 n.natAbs).head? ≠ some '-' := by
    intro hminus
    have hdigit := Nat.isDigit_of_mem_toDigits (b := 10) (by decide) (by decide)
      (List.mem_of_mem_head? hminus)
    exact absurd hdigit (by decide)
  rw [Json.renderInt, if_neg (not_lt.mpr hn.1), Worker.integerToken, if_neg hhead,
    if_pos (by omega), if_neg hhead, Nat.ofDigitChars_ten_toDigits]
  exact congrArg Except.ok (Int.natAbs_of_nonneg hn.1)

theorem reads_record (h : Described encoded codec mime digest original content stored) :
    Json.Reads hooks (descriptorRecord codec mime digest original content stored) := by
  have hmime := maxOriginal_le mime
  have horiginal := h.original_range
  have hstored := h.stored_range
  have hone : (0 : Int) ≤ 1 ∧ (1 : Int) ≤ maxImage := by decide
  have hpairs : ∀ es : Dict, es.map Prod.fst = descriptorFields → hooks.pairs es = .ok es :=
    fun es hkeys => if_pos (hkeys ▸ (by decide +kernel : descriptorFields.Nodup))
  exact ⟨hpairs _ rfl, trivial, integerToken_renderInt_small hone,
    integerToken_renderInt_small hone, trivial, trivial,
    integerToken_renderInt_small ⟨by omega, by omega⟩, trivial,
    integerToken_renderInt_small ⟨by omega, by omega⟩, trivial⟩

/-- The worker reads the canonical bytes of an accepted descriptor. -/
theorem parseDescriptor_record
    (h : Described encoded codec mime digest original content stored) :
    parseDescriptor (encodeUtf8 (canonicalText (descriptorRecord codec mime digest original content
      stored))) = .ok (descriptorRecord codec mime digest original content stored) := by
  have hraw := canonical_eq_ok.mpr ⟨h.writes.json, rfl⟩
  have hsize : (encodeUtf8 (canonicalText (descriptorRecord codec mime digest original content
      stored))).size ≤ 4 * ((maxSize + 2) / 3) + 2048 := by
    rw [size_canonical hraw]
    exact h.writes.width.trans (by decide)
  have hloads : Json.loads hooks (canonicalText (descriptorRecord codec mime digest original
      content stored)) = .ok (descriptorRecord codec mime digest original content stored) := by
    rw [canonicalText_record]
    exact Json.loads_render (reads_record h)
  have hdumps : Json.dumps false (descriptorRecord codec mime digest original content stored) =
      .ok (canonicalText (descriptorRecord codec mime digest original content stored)) :=
    if_pos rfl
  rw [parseDescriptor, require_pos hsize, ok_bind, flatStep_record h, ok_bind,
    fromUTF8_encodeUtf8, orRaise, ok_bind, hloads, ok_bind, hdumps, ok_bind,
    require_pos rfl, ok_bind]

/-- It finds the same stored bytes. -/
theorem payload_record (h : Described encoded codec mime digest original content stored) :
    payload (descriptorRecord codec mime digest original content stored) = .ok encoded := by
  have hmime := maxOriginal_le mime
  have horiginal := h.original_range
  have hstored := h.stored_range
  have himage : maxSize = maxImage := rfl
  have hdecode : Base64.decode content.toList = some encoded := by
    rw [← h.content_eq, Base64.decode_encode]
  have hlength : content.length = 4 * ((stored.toNat + 2) / 3) := by
    rw [← String.length_toList, ← h.content_eq, Base64.length_encode, h.length_eq]
  have hkeys : HasKeys (descriptorRecord codec mime digest original content stored) :=
    (by decide +kernel : (∀ key ∈ descriptorFields, key ∈ keys) ∧
      ∀ key ∈ keys, key ∈ descriptorFields)
  have hcodec : choiceField (descriptorRecord codec mime digest original content stored)
      "codec_id" 8 ["identity", "zstd"] "codec_profile" = .ok codec :=
    if_pos ⟨(by decide +kernel : ∀ s ∈ ["identity", "zstd"], s.length ≤ 8) codec h.codec_mem,
      h.codec_mem⟩
  have hmimes : choiceField (descriptorRecord codec mime digest original content stored)
      "mime_type" 10 workerMimes "mime_type" = .ok mime :=
    if_pos ⟨(by decide +kernel : ∀ s ∈ mimes, s.length ≤ 10) mime h.mime_mem, h.mime_mem⟩
  have hfields : ∀ name n, (descriptorRecord codec mime digest original content stored).field
      name = .int n → intField (descriptorRecord codec mime digest original content stored) name =
        .ok n := fun name n hfield => by rw [intField, hfield]
  have hdigest : (descriptorRecord codec mime digest original content stored).field
      "original_sha256" = .str digest := rfl
  have hcontent : (descriptorRecord codec mime digest original content stored).field
      "payload" = .str content := rfl
  rw [payload, require_pos hkeys, ok_bind, hfields "encoding_version" 1 rfl, ok_bind,
    hfields "codec_version" 1 rfl, ok_bind, hfields "original_size" original rfl, ok_bind,
    hfields "stored_size" stored rfl, ok_bind, require_pos rfl, ok_bind, hcodec, ok_bind,
    require_pos rfl, ok_bind, require_pos ⟨by omega, by omega⟩, ok_bind,
    require_pos ⟨by omega, by omega⟩, ok_bind, hmimes, ok_bind, hdigest, hcontent]
  simp only [require_pos h.digest_hex, ok_bind, require_pos hlength, pure_bind, hdecode, orRaise,
    require_pos h.length_eq, require_pos h.content_eq]
  rfl

/-- The worker reads a descriptor that the validator accepts, as an equal object with the same
stored bytes. -/
theorem payload_parseDescriptor {v : Value} (hvalid : validateDescriptor v = .ok encoded)
    (hunique : Unique v) : ∃ raw w, canonical v = .ok raw ∧ parseDescriptor raw = .ok w ∧
      w.pyEq v = true ∧ w = Json.sortKeys v ∧ payload w = .ok encoded := by
  obtain ⟨codec, mime, digest, original, content, stored, hsorted, hdescribed⟩ :=
    sortKeys_descriptor hvalid hunique
  have hjson : jsonValue 0 v = .ok () := jsonValue_of_sortKeys (hsorted ▸ hdescribed.writes.json)
  have htext : canonicalText v =
      canonicalText (descriptorRecord codec mime digest original content stored) := by
    rw [canonicalText_record, canonicalText, hsorted]
  refine ⟨_, Json.sortKeys v, canonical_eq_ok.mpr ⟨hjson, rfl⟩, ?_, pyEq_sortKeys hjson hunique,
    rfl, ?_⟩
  · rw [htext, hsorted]
    exact parseDescriptor_record hdescribed
  · rw [hsorted]
    exact payload_record hdescribed

/-! ## What is produced is reconstructed -/

theorem validateDescriptor_record
    (h : Described encoded codec mime digest original content stored) :
    validateDescriptor (descriptorRecord codec mime digest original content stored) =
      .ok encoded := by
  have hdecode : Base64.decode content.toList = some encoded := by
    rw [← h.content_eq, Base64.decode_encode]
  have hlength : content.length = 4 * ((stored.toNat + 2) / 3) := by
    rw [← String.length_toList, ← h.content_eq, Base64.length_encode, h.length_eq]
  have hclosed : closed (descriptorRecord codec mime digest original content stored)
      descriptorFields [] = .ok _ := closed_of_keys (l := descriptorFields) rfl (by decide +kernel)
  simp only [validateDescriptor, bind_eq_ok, require_eq_ok, orRaise_eq_ok]
  exact ⟨_, hclosed, codec, oneOf_eq_ok.mpr ⟨rfl, h.codec_mem⟩, 1, uint_eq_ok.mpr ⟨rfl, by decide⟩,
    1, uint_eq_ok.mpr ⟨rfl, by decide⟩, mime, oneOf_eq_ok.mpr ⟨rfl, h.mime_mem⟩, original,
    uint_eq_ok.mpr ⟨rfl, h.original_range⟩, stored, uint_eq_ok.mpr ⟨rfl, h.stored_range⟩, digest,
    pattern_eq_ok.mpr ⟨rfl, h.digest_hex⟩, content, textOfLength_eq_ok.mpr ⟨rfl, hlength⟩, encoded,
    hdecode, (), ⟨h.length_eq, h.content_eq⟩, (), h.identity_size, rfl⟩

variable {crypto : Crypto} {machine : Machine} {compress : List UInt8 → Option (List UInt8)}
  {source : List UInt8}

/-- The descriptor of an original and its encoding. -/
def sourceRecord (crypto : Crypto) (source encoded : List UInt8) (mime codec : String) : Value :=
  descriptorRecord codec mime (crypto.sha256Hex source.toByteArray) source.length
    (String.ofList (Base64.encode encoded)) encoded.length

/-- The descriptor of an original and its encoding states what it should. -/
structure Describes (crypto : Crypto) (source encoded : List UInt8) (mime codec : String) :
    Prop where
  described : Described encoded codec mime (crypto.sha256Hex source.toByteArray) source.length
    (String.ofList (Base64.encode encoded)) encoded.length
  identity : codec = "identity" → encoded = source

theorem describes_of_sizes (hmime : mime ∈ mimes)
    (hsource : 1 ≤ source.length ∧ source.length ≤ maxOriginal mime)
    (hencoded : 1 ≤ encoded.length ∧ encoded.length ≤ maxImage)
    (hcodec : codec ∈ ["identity", "zstd"]) (hidentity : codec = "identity" → encoded = source) :
    Describes crypto source encoded mime codec := by
  obtain ⟨hlength, hhex⟩ := crypto.sha256Hex_isHex64 source.toByteArray
  refine ⟨⟨hcodec, hmime, ?_, by omega, by omega, by omega, by rw [String.toList_ofList],
    fun h => by rw [hidentity h]⟩, hidentity⟩
  obtain ⟨s, hs⟩ : ∃ s, h64 (.str (crypto.sha256Hex source.toByteArray)) = .ok s :=
    ⟨_, h64_isHex64 (crypto.sha256Hex_isHex64 _)⟩
  obtain ⟨heq, hpattern⟩ := pattern_eq_ok.mp hs
  rw [Value.str.inj heq]
  exact hpattern

theorem descriptor_eq_ok (h : Describes crypto source encoded mime codec) :
    descriptor crypto source encoded mime codec =
      .ok (sourceRecord crypto source encoded mime codec) := by
  have hvalid := validateDescriptor_record h.described
  show (do let _ ← validateDescriptor (sourceRecord crypto source encoded mime codec); _) = _
  rw [sourceRecord, hvalid, ok_bind]
  rfl

/-- No other bytes have the digest of the original. -/
def NoCollision (crypto : Crypto) (source : List UInt8) : Prop :=
  ∀ other : List UInt8, crypto.sha256Hex other.toByteArray = crypto.sha256Hex source.toByteArray →
    other = source

/-- No call of the worker ends in a local failure. -/
def NoLocalFailure (crypto : Crypto) (machine : Machine) : Prop :=
  ∀ raw, (validate crypto machine raw).status ≠ .indeterminate

/-- What a worker decodes has the digest of the descriptor, and is the stored bytes or the output
of the native decoder. -/
theorem decode_eq_ok {v : Value} {out : List UInt8} (h : decode crypto machine v = .ok out) :
    crypto.sha256Hex out.toByteArray = v.textAt "original_sha256" ∧
      ∃ encoded, payload v = .ok encoded ∧
        ((encoded.length : Int) = v.intAt "original_size" ∧ out = encoded ∨
          ∃ info, inspectFrame encoded (v.intAt "original_size") = .ok info ∧
            machine.decodeNative encoded info = .ok out) := by
  have hchecked : ∀ original : List UInt8, (do
      require (crypto.sha256Hex original.toByteArray = v.textAt "original_sha256")
        (reject "original_hash" "integrity")
      pure original : Py (List UInt8)) = .ok out →
      original = out ∧ crypto.sha256Hex out.toByteArray = v.textAt "original_sha256" := by
    intro original h
    obtain ⟨⟨⟩, hdigest, hout⟩ := bind_eq_ok.mp h
    obtain rfl := pure_eq_ok.mp hout
    exact ⟨rfl, require_eq_ok.mp hdigest⟩
  rw [decode] at h
  obtain ⟨encoded, hencoded, h⟩ := bind_eq_ok.mp h
  dsimp only at h
  split at h
  · obtain ⟨_, hsize, h⟩ := bind_eq_ok.mp h
    obtain ⟨rfl, hdigest⟩ := hchecked encoded h
    exact ⟨hdigest, encoded, hencoded, Or.inl ⟨require_eq_ok.mp hsize, rfl⟩⟩
  · obtain ⟨info, hinfo, h⟩ := bind_eq_ok.mp h
    obtain ⟨_, -, h⟩ := bind_eq_ok.mp h
    obtain ⟨original, hnative, h⟩ := bind_eq_ok.mp h
    obtain ⟨rfl, hdigest⟩ := hchecked original h
    exact ⟨hdigest, encoded, hencoded, Or.inr ⟨info, hinfo, hnative⟩⟩

/-- The identity form decodes to its stored bytes. -/
theorem decode_identity (h : Describes crypto source encoded mime "identity") :
    decode crypto machine (sourceRecord crypto source encoded mime "identity") = .ok source := by
  obtain rfl := h.identity rfl
  have hpayload := payload_record h.described
  have hcodec : (sourceRecord crypto encoded encoded mime "identity").textAt "codec_id" =
      "identity" := rfl
  have hsize : (encoded.length : Int) =
      (sourceRecord crypto encoded encoded mime "identity").intAt "original_size" := rfl
  have hdigest : crypto.sha256Hex encoded.toByteArray =
      (sourceRecord crypto encoded encoded mime "identity").textAt "original_sha256" := rfl
  change payload (sourceRecord crypto encoded encoded mime "identity") = _ at hpayload
  rw [decode, hpayload, ok_bind]
  dsimp only
  rw [if_pos hcodec, require_pos hsize, ok_bind, pure_bind, require_pos hdigest, ok_bind]
  rfl

/-- The answer with the original itself. -/
theorem response_source (h : Describes crypto source encoded mime codec) :
    response crypto (sourceRecord crypto source encoded mime codec) (.ok source) =
      { status := .valid, original := some source } := by
  have hrange := h.described.original_range
  have hmime := maxOriginal_le mime
  have himage : maxSize = maxImage := rfl
  exact if_pos ⟨by omega, by omega, rfl, rfl⟩

/-- A refusal is never a valid outcome. -/
theorem response_error {v : Value} {e : PyError}
    (h : (response crypto v (.error e)).status ≠ .indeterminate) :
    (response crypto v (.error e)).status = .invalid := by
  unfold response at h ⊢
  dsimp only at h ⊢
  split_ifs at h ⊢ with hvalue hcode hunavailable
  · rfl
  all_goals exact absurd rfl h

/-- A worker without local failures restores the original, or refuses a compressed form. -/
theorem validate_source (h : Describes crypto source encoded mime codec)
    (hcollision : NoCollision crypto source) (hlocal : NoLocalFailure crypto machine) :
    let outcome := validate crypto machine
      (encodeUtf8 (canonicalText (sourceRecord crypto source encoded mime codec)))
    outcome = { status := .valid, original := some source } ∨
      codec = "zstd" ∧ outcome.status = .invalid := by
  have hno := hlocal (encodeUtf8 (canonicalText (sourceRecord crypto source encoded mime codec)))
  unfold validate at hno ⊢
  cases hbusy : machine.busy
      (encodeUtf8 (canonicalText (sourceRecord crypto source encoded mime codec))) with
  | some reason =>
    simp only [hbusy] at hno
    exact absurd rfl hno
  | none =>
    have hparse : parseDescriptor (encodeUtf8 (canonicalText
        (sourceRecord crypto source encoded mime codec))) =
        .ok (sourceRecord crypto source encoded mime codec) := parseDescriptor_record h.described
    cases hfailure : machine.failure
        (encodeUtf8 (canonicalText (sourceRecord crypto source encoded mime codec))) with
    | some reason =>
      simp only [hbusy, hparse, hfailure] at hno
      exact absurd rfl hno
    | none =>
      simp only [hbusy, hparse, hfailure] at hno ⊢
      cases hdecode : decode crypto machine (sourceRecord crypto source encoded mime codec) with
      | ok out =>
        -- the digest of the output is that of the original
        obtain rfl := hcollision out (decode_eq_ok hdecode).1
        exact Or.inl (response_source h)
      | error e =>
        rw [hdecode] at hno
        refine Or.inr ⟨?_, response_error hno⟩
        -- the identity form is not refused
        refine Or.resolve_left (by simpa using h.described.codec_mem) fun hidentity => ?_
        subst hidentity
        rw [decode_identity h] at hdecode
        nomatch hdecode

/-- The workers of a call: a compressor and the isolated decoder. -/
def workersOf (crypto : Crypto) (machine : Machine)
    (compress : List UInt8 → Option (List UInt8)) : Workers where
  compress := compress
  decode := validate crypto machine

/-- Reconstruction restores the original, or the compressed form is refused. -/
theorem reconstruct_described (h : Describes crypto source encoded mime codec)
    (hcollision : NoCollision crypto source) (hlocal : NoLocalFailure crypto machine)
    (htext : mime = "text/plain" → canonicalOriginal source = .ok ()) :
    let outcome := reconstruct crypto (workersOf crypto machine compress)
      (sourceRecord crypto source encoded mime codec)
    outcome = { status := .valid, original := some source } ∨
      codec = "zstd" ∧ outcome.status = .invalid := by
  have hraw : (do
      let _ ← validateDescriptor (sourceRecord crypto source encoded mime codec)
      canonical (sourceRecord crypto source encoded mime codec)) =
      (.ok (encodeUtf8 (canonicalText (sourceRecord crypto source encoded mime codec))) :
        Py ByteArray) := by
    have hvalid := validateDescriptor_record h.described
    have hcanonical := canonical_eq_ok.mpr ⟨h.described.writes.json, rfl⟩
    rw [sourceRecord, hvalid, ok_bind]
    exact hcanonical
  dsimp only
  unfold reconstruct
  rw [hraw]
  have hdecode : (workersOf crypto machine compress).decode = validate crypto machine := rfl
  dsimp only
  rw [hdecode]
  obtain houtcome | ⟨hcodec, hinvalid⟩ := validate_source h hcollision hlocal
  · refine Or.inl ?_
    rw [houtcome]
    have hlength : (source.length : Int) =
        (sourceRecord crypto source encoded mime codec).intAt "original_size" := rfl
    have hdigest : crypto.sha256Hex source.toByteArray =
        (sourceRecord crypto source encoded mime codec).textAt "original_sha256" := rfl
    have hmime : (sourceRecord crypto source encoded mime codec).textAt "mime_type" = mime := rfl
    simp only [ne_eq, not_true_eq_false, if_false, hlength, hdigest, or_self, hmime]
    split
    · rename_i hplain
      rw [htext hplain]
    · rfl
  · exact Or.inr ⟨hcodec, by rw [if_pos (by rw [hinvalid]; decide)]; exact hinvalid⟩

/-- The selection picks a descriptor of the original, in the identity form or compressed. -/
theorem select_eq_ok (hmime : mime ∈ mimes)
    (hsource : 1 ≤ source.length ∧ source.length ≤ maxOriginal mime) :
    ∃ encoded codec, Describes crypto source encoded mime codec ∧
      select crypto (workersOf crypto machine compress) source mime =
        .ok (sourceRecord crypto source source mime "identity",
          sourceRecord crypto source encoded mime codec) := by
  have himage := maxOriginal_le mime
  have hidentity : Describes crypto source source mime "identity" :=
    describes_of_sizes hmime hsource ⟨hsource.1, by omega⟩ (by decide) fun _ => rfl
  have hcompress : (workersOf crypto machine compress).compress = compress := rfl
  rw [select, descriptor_eq_ok hidentity, ok_bind, hcompress]
  cases hencoded : compress source with
  | none => exact ⟨source, "identity", hidentity, rfl⟩
  | some encoded =>
    dsimp only
    by_cases hsize : 1 ≤ encoded.length ∧ encoded.length ≤ maxImage
    · have hzstd : Describes crypto source encoded mime "zstd" :=
        describes_of_sizes hmime hsource hsize (by decide) fun h => absurd h (by decide)
      have hcanonical : ∀ {encoded codec}, Describes crypto source encoded mime codec →
          ∃ raw, canonical (sourceRecord crypto source encoded mime codec) = .ok raw := fun h =>
        ⟨_, canonical_eq_ok.mpr ⟨h.described.writes.json, rfl⟩⟩
      obtain ⟨short, hshort⟩ := hcanonical hzstd
      obtain ⟨long, hlong⟩ := hcanonical hidentity
      rw [if_pos hsize, descriptor_eq_ok hzstd, ok_bind, hshort, ok_bind, hlong, ok_bind]
      split
      · exact ⟨encoded, "zstd", hzstd, rfl⟩
      · exact ⟨source, "identity", hidentity, rfl⟩
    · rw [if_neg hsize]
      exact ⟨source, "identity", hidentity, rfl⟩

/-- What `produce` admits. -/
structure Admits (source : List UInt8) (mime : String) : Prop where
  mime_mem : mime ∈ mimes
  range : 1 ≤ source.length ∧ source.length ≤ maxOriginal mime
  text : mime = "text/plain" → canonicalOriginal source = .ok ()

/-- What `produce` returns is valid and restores the original. -/
theorem produce_source (hadmits : Admits source mime) (hcollision : NoCollision crypto source)
    (hlocal : NoLocalFailure crypto machine) :
    ∃ v encoded, produce crypto (workersOf crypto machine compress) source mime =
        .ok (some v, { status := .valid, original := some source }) ∧
      validateDescriptor v = .ok encoded ∧
      reconstruct crypto (workersOf crypto machine compress) v =
        { status := .valid, original := some source } := by
  obtain ⟨hmime, hsource, htext⟩ := hadmits
  have himage := maxOriginal_le mime
  have hidentity : Describes crypto source source mime "identity" :=
    describes_of_sizes hmime hsource ⟨hsource.1, by omega⟩ (by decide) fun _ => rfl
  obtain ⟨encoded, codec, hselected, hselect⟩ :=
    @select_eq_ok mime crypto machine compress source hmime hsource
  have hplain : (if mime = "text/plain" then canonicalOriginal source else .ok ()) =
      (.ok () : Py Unit) := by
    split
    · exact htext ‹_›
    · rfl
  have hcodec : (sourceRecord crypto source encoded mime codec).textAt "codec_id" = codec := rfl
  have hoffered : ∀ encoded codec, Describes crypto source encoded mime codec →
      let outcome := reconstruct crypto (workersOf crypto machine compress)
        (sourceRecord crypto source encoded mime codec)
      outcome = { status := .valid, original := some source } ∨
        codec = "zstd" ∧ outcome.status = .invalid := fun _ _ h =>
    reconstruct_described h hcollision hlocal htext
  rw [produce, require_pos hmime, ok_bind, require_pos hsource, ok_bind, hplain, ok_bind, hselect,
    ok_bind]
  dsimp only
  obtain hvalid | ⟨rfl, hinvalid⟩ := hoffered _ _ hselected
  · refine ⟨_, encoded, ?_, validateDescriptor_record hselected.described, hvalid⟩
    rw [hvalid]
    rfl
  · -- the compressed form is refused: the identity form is restored
    obtain hvalid | ⟨hzstd, -⟩ := hoffered _ _ hidentity
    · refine ⟨_, source, ?_, validateDescriptor_record hidentity.described, hvalid⟩
      rw [if_pos ⟨hinvalid, hcodec⟩, hvalid]
      rfl
    · exact absurd hzstd (by decide)

theorem admits_of_produce {workers : Workers} {result : Option Value × Outcome}
    (h : produce crypto workers source mime = .ok result) : Admits source mime := by
  unfold produce at h
  obtain ⟨⟨⟩, hmime, h⟩ := bind_eq_ok.mp h
  obtain ⟨⟨⟩, hrange, h⟩ := bind_eq_ok.mp h
  obtain ⟨⟨⟩, htext, -⟩ := bind_eq_ok.mp h
  exact ⟨require_eq_ok.mp hmime, require_eq_ok.mp hrange, fun hplain => by
    rwa [if_pos hplain] at htext⟩

/-! ## The refusals of the worker -/

/-- A refusal with a stage and a code of the protocol. -/
def IsRefusal (e : PyError) : Prop :=
  e.exc = .valueError ∧ stageOf e ∈ ["descriptor", "frame", "decode", "integrity"] ∧
    isCode (e.code.getD "") = true

instance : DecidablePred IsRefusal := fun e => by
  unfold IsRefusal
  infer_instance

theorem raisesOnly_intField (v : Value) (name : String) :
    RaisesOnly IsRefusal (intField v name) := by
  unfold intField
  split
  · exact raisesOnly_ok _
  · exact raisesOnly_error (by decide +kernel)

theorem raisesOnly_choiceField (v : Value) (name : String) (length : Nat) (choices : List String)
    {code : String} (hcode : IsRefusal (reject code)) :
    RaisesOnly IsRefusal (choiceField v name length choices code) := by
  unfold choiceField
  split
  · split
    · exact raisesOnly_ok _
    · exact raisesOnly_error hcode
  · exact raisesOnly_error hcode

theorem raisesOnly_payload (v : Value) : RaisesOnly IsRefusal (payload v) := by
  unfold payload
  refine (raisesOnly_require (by decide +kernel)).bind fun _ _ => ?_
  refine (raisesOnly_intField v _).bind fun _ _ => ?_
  refine (raisesOnly_intField v _).bind fun _ _ => ?_
  refine (raisesOnly_intField v _).bind fun _ _ => ?_
  refine (raisesOnly_intField v _).bind fun _ _ => ?_
  refine (raisesOnly_require (by decide +kernel)).bind fun _ _ => ?_
  refine (raisesOnly_choiceField v _ _ _ (by decide +kernel)).bind fun _ _ => ?_
  refine (raisesOnly_require (by decide +kernel)).bind fun _ _ => ?_
  refine (raisesOnly_require (by decide +kernel)).bind fun _ _ => ?_
  refine (raisesOnly_require (by decide +kernel)).bind fun _ _ => ?_
  refine (raisesOnly_choiceField v _ _ _ (by decide +kernel)).bind fun _ _ => ?_
  have hencoded : ∀ (stored : Nat) (text : String), RaisesOnly IsRefusal (do
      let encoded ← orRaise (Base64.decode text.toList) (reject "base64_syntax")
      require (encoded.length = stored) (reject "stored_size_mismatch")
      require (Base64.encode encoded = text.toList) (reject "base64_noncanonical")
      return encoded) := fun stored text => by
    refine (raisesOnly_orRaise (by decide +kernel)).bind fun _ _ => ?_
    refine (raisesOnly_require (by decide +kernel)).bind fun _ _ => ?_
    exact (raisesOnly_require (by decide +kernel)).bind fun _ _ => raisesOnly_ok _
  dsimp only
  split
  · refine (raisesOnly_require (by decide +kernel)).bind fun _ _ => ?_
    split
    · exact (raisesOnly_require (by decide +kernel)).bind fun _ _ => hencoded _ _
    · exact (raisesOnly_error (by decide +kernel)).bind fun _ _ => hencoded _ _
  · refine (raisesOnly_error (by decide +kernel)).bind fun _ _ => ?_
    split
    · exact (raisesOnly_require (by decide +kernel)).bind fun _ _ => hencoded _ _
    · exact (raisesOnly_error (by decide +kernel)).bind fun _ _ => hencoded _ _

theorem raisesOnly_take (count : Nat) (rest : List UInt8) :
    RaisesOnly IsRefusal (take count rest) := by
  unfold take
  split
  · exact raisesOnly_error (by decide +kernel)
  · exact raisesOnly_ok _

theorem raisesOnly_walkBlocks (window left : Nat) (rest : List UInt8) :
    RaisesOnly IsRefusal (walkBlocks window left rest) := by
  induction left generalizing rest with
  | zero => exact raisesOnly_error (by decide +kernel)
  | succ left ih =>
    unfold walkBlocks
    refine (raisesOnly_take _ _).bind fun _ _ => ?_
    refine (raisesOnly_require (by decide +kernel)).bind fun _ _ => ?_
    refine (raisesOnly_require (by decide +kernel)).bind fun _ _ => ?_
    refine (raisesOnly_take _ _).bind fun _ _ => ?_
    dsimp only
    split
    · exact raisesOnly_ok _
    · exact (ih _).bind fun _ _ => raisesOnly_ok _

theorem raisesOnly_inspectFrame (encoded : List UInt8) (size : Int) :
    RaisesOnly IsRefusal (inspectFrame encoded size) := by
  unfold inspectFrame
  refine (raisesOnly_require (by decide +kernel)).bind fun _ _ => ?_
  refine (raisesOnly_require (by decide +kernel)).bind fun _ _ => ?_
  refine (raisesOnly_take _ _).bind fun _ _ => ?_
  refine (raisesOnly_require (by decide +kernel)).bind fun _ _ => ?_
  refine (raisesOnly_require (by decide +kernel)).bind fun _ _ => ?_
  refine (raisesOnly_take _ _).bind fun _ _ => ?_
  refine (raisesOnly_require (by decide +kernel)).bind fun _ _ => ?_
  refine (raisesOnly_require (by decide +kernel)).bind fun _ _ => ?_
  refine (raisesOnly_require (by decide +kernel)).bind fun _ _ => ?_
  refine (raisesOnly_take _ _).bind fun _ _ => ?_
  refine (raisesOnly_require (by decide +kernel)).bind fun _ _ => ?_
  refine (raisesOnly_take _ _).bind fun _ _ => ?_
  refine (raisesOnly_require (by decide +kernel)).bind fun _ _ => ?_
  refine (raisesOnly_require (by decide +kernel)).bind fun _ _ => ?_
  refine (raisesOnly_walkBlocks _ _ _).bind fun _ _ => ?_
  refine (raisesOnly_take _ _).bind fun _ _ => ?_
  exact (raisesOnly_require (by decide +kernel)).bind fun _ _ => raisesOnly_ok _

/-- A machine that keeps to the protocol: nothing fails around it, its verifier rejects with a
code, and its decoder rejects so or puts out as much as the frame announces. -/
structure Orderly (machine : Machine) : Prop where
  not_busy : ∀ raw, machine.busy raw = none
  not_failing : ∀ raw, machine.failure raw = none
  verifier : ∀ encoded info, RaisesOnly (fun e => e.isValueError = true ∧ isCode e.message = true)
    (machine.verifySequences encoded info)
  decoder : ∀ encoded info, RaisesOnly IsRefusal (machine.decodeNative encoded info)
  length_eq : ∀ encoded info out, machine.decodeNative encoded info = .ok out →
    out.length = info.contentSize

theorem isRefusal_reject {code : String} (hcode : isCode code = true) :
    IsRefusal (reject code "decode") := by
  refine ⟨rfl, ?_, hcode⟩
  have hstage : stageOf (reject code "decode") = "decode" := rfl
  rw [hstage]
  decide

theorem raisesOnly_asReject {x : Py Unit}
    (h : RaisesOnly (fun e => e.isValueError = true ∧ isCode e.message = true) x) :
    RaisesOnly IsRefusal (asReject x) := by
  unfold asReject exceptValueError
  cases x with
  | ok u => exact raisesOnly_ok u
  | error e =>
    obtain ⟨hvalue, hcode⟩ := h e rfl
    dsimp only
    rw [if_pos hvalue]
    exact raisesOnly_error (isRefusal_reject hcode)

theorem raisesOnly_decode (h : Orderly machine) (v : Value) :
    RaisesOnly IsRefusal (decode crypto machine v) := by
  have hchecked : ∀ original : List UInt8, RaisesOnly IsRefusal (do
      require (crypto.sha256Hex original.toByteArray = v.textAt "original_sha256")
        (reject "original_hash" "integrity")
      pure original) := fun original =>
    (raisesOnly_require (by decide +kernel)).bind fun _ _ => raisesOnly_ok _
  unfold decode
  refine (raisesOnly_payload v).bind fun encoded _ => ?_
  dsimp only
  split
  · refine (raisesOnly_require (by decide +kernel)).bind fun _ _ => ?_
    exact hchecked encoded
  · refine (raisesOnly_inspectFrame _ _).bind fun info _ => ?_
    refine (raisesOnly_asReject (h.verifier encoded info)).bind fun _ _ => ?_
    exact (h.decoder encoded info).bind fun original _ => hchecked original

/-- The frame announces the size of the descriptor. -/
theorem contentSize_of_inspectFrame {encoded : List UInt8} {size : Int} {info : FrameInfo}
    (h : inspectFrame encoded size = .ok info) : (info.contentSize : Int) = size := by
  unfold inspectFrame at h
  obtain ⟨_, -, h⟩ := bind_eq_ok.mp h
  obtain ⟨_, -, h⟩ := bind_eq_ok.mp h
  obtain ⟨_, -, h⟩ := bind_eq_ok.mp h
  obtain ⟨_, -, h⟩ := bind_eq_ok.mp h
  obtain ⟨_, -, h⟩ := bind_eq_ok.mp h
  obtain ⟨_, -, h⟩ := bind_eq_ok.mp h
  obtain ⟨_, -, h⟩ := bind_eq_ok.mp h
  obtain ⟨_, -, h⟩ := bind_eq_ok.mp h
  obtain ⟨_, -, h⟩ := bind_eq_ok.mp h
  obtain ⟨_, -, h⟩ := bind_eq_ok.mp h
  obtain ⟨_, -, h⟩ := bind_eq_ok.mp h
  obtain ⟨_, -, h⟩ := bind_eq_ok.mp h
  obtain ⟨_, hsize, h⟩ := bind_eq_ok.mp h
  obtain ⟨_, -, h⟩ := bind_eq_ok.mp h
  obtain ⟨_, -, h⟩ := bind_eq_ok.mp h
  obtain ⟨_, -, h⟩ := bind_eq_ok.mp h
  obtain ⟨_, -, h⟩ := bind_eq_ok.mp h
  obtain rfl := pure_eq_ok.mp h
  exact require_eq_ok.mp hsize

theorem originalSize_of_payload {v : Value} {encoded : List UInt8}
    (h : payload v = .ok encoded) :
    1 ≤ v.intAt "original_size" ∧ v.intAt "original_size" ≤ maxSize := by
  unfold payload at h
  obtain ⟨_, -, h⟩ := bind_eq_ok.mp h
  obtain ⟨_, -, h⟩ := bind_eq_ok.mp h
  obtain ⟨_, -, h⟩ := bind_eq_ok.mp h
  obtain ⟨size, hsize, h⟩ := bind_eq_ok.mp h
  obtain ⟨_, -, h⟩ := bind_eq_ok.mp h
  obtain ⟨_, -, h⟩ := bind_eq_ok.mp h
  obtain ⟨_, -, h⟩ := bind_eq_ok.mp h
  obtain ⟨_, -, h⟩ := bind_eq_ok.mp h
  obtain ⟨_, hrange, -⟩ := bind_eq_ok.mp h
  have hvalue : v.intAt "original_size" = size := by
    unfold intField at hsize
    unfold Value.intAt
    cases hfield : v.field "original_size" with
    | int n =>
      rw [hfield] at hsize
      exact Except.ok.inj hsize
    | _ =>
      rw [hfield] at hsize
      nomatch hsize
  rw [hvalue]
  exact require_eq_ok.mp hrange

/-- What an orderly machine puts out has the size of the descriptor. -/
theorem length_of_decode (h : Orderly machine) {v : Value} {out : List UInt8}
    (hdecode : decode crypto machine v = .ok out) :
    (out.length : Int) = v.intAt "original_size" := by
  obtain ⟨-, encoded, -, ⟨hlength, rfl⟩ | ⟨info, hinfo, hnative⟩⟩ := decode_eq_ok hdecode
  · exact hlength
  · rw [h.length_eq _ _ _ hnative]
    exact contentSize_of_inspectFrame hinfo

/-- An orderly machine has no local failure. -/
theorem noLocalFailure_of_orderly (h : Orderly machine) : NoLocalFailure crypto machine := by
  intro raw
  unfold validate
  rw [h.not_busy]
  cases parseDescriptor raw with
  | error e => nofun
  | ok v =>
    dsimp only
    rw [h.not_failing]
    dsimp only
    cases hdecode : decode crypto machine v with
    | error e =>
      obtain ⟨hvalue, hstage⟩ := raisesOnly_decode h v e hdecode
      unfold response
      dsimp only
      rw [if_pos hvalue, if_pos hstage]
      nofun
    | ok out =>
      obtain ⟨hdigest, encoded, hencoded, -⟩ := decode_eq_ok hdecode
      have hrange := originalSize_of_payload hencoded
      have hlength := length_of_decode h hdecode
      unfold response
      dsimp only
      rw [if_pos ⟨by omega, by omega, hlength, hdigest⟩]
      nofun

/-! ## Both boundaries -/

/-- An accepted descriptor is read by the worker as an equal object with the same stored bytes.
What `produce` admits, it returns with a descriptor that is accepted and that restores the
original. -/
theorem mediaRoundTrip (crypto : Crypto) :
    (∀ (v : Value) (encoded : List UInt8), Unique v → validateDescriptor v = .ok encoded →
      ∃ raw w, canonical v = .ok raw ∧ parseDescriptor raw = .ok w ∧ w.pyEq v = true ∧
        payload w = .ok encoded) ∧
    (∀ (machine : Machine) (compress : List UInt8 → Option (List UInt8)) (source : List UInt8)
      (mime : String), Admits source mime → NoCollision crypto source →
      NoLocalFailure crypto machine →
      ∃ v encoded outcome,
        produce crypto (workersOf crypto machine compress) source mime = .ok (some v, outcome) ∧
        validateDescriptor v = .ok encoded ∧
        reconstruct crypto (workersOf crypto machine compress) v = outcome ∧
        outcome.status = .valid ∧ outcome.original = some source) := by
  constructor
  · intro v encoded hunique hvalid
    obtain ⟨raw, w, hraw, hparse, heq, -, hpayload⟩ := payload_parseDescriptor hvalid hunique
    exact ⟨raw, w, hraw, hparse, heq, hpayload⟩
  · intro machine compress source mime hadmits hcollision hlocal
    obtain ⟨v, encoded, hproduce, hvalid, hreconstruct⟩ :=
      @produce_source mime crypto machine compress source hadmits hcollision hlocal
    exact ⟨v, encoded, _, hproduce, hvalid, hreconstruct, rfl, rfl⟩

/-- Two letters. -/
def sampleText : List UInt8 := [104, 105]

/-- A digest that only the sample text has. -/
def textCrypto : Crypto where
  sha256Hex raw :=
    String.ofList (List.replicate 64 (if raw = sampleText.toByteArray then '1' else '0'))
  sha256Hex_isHex64 raw := by
    split <;> exact ⟨by decide +kernel, by decide +kernel⟩
  recoverMessage _ _ := none
  isPublicKey _ := false

/-- A machine that refuses every frame. -/
def strictMachine : Machine where
  verifySequences _ _ := .error { exc := .valueError, message := "sequence_section" }
  decodeNative _ _ := .error (reject "invalid_stream" "decode")
  busy _ := none
  failure _ := none

theorem noCollision_sample : NoCollision textCrypto sampleText := by
  intro other h
  by_cases hother : other.toByteArray = sampleText.toByteArray
  · have hlists := congrArg (fun raw => raw.data.toList) hother
    simpa only [List.toList_data_toByteArray] using hlists
  · have hdigest : textCrypto.sha256Hex other.toByteArray =
        String.ofList (List.replicate 64 '0') := by
      rw [textCrypto]
      dsimp only
      rw [if_neg hother]
    rw [hdigest] at h
    exact absurd h (by decide +kernel)

theorem orderly_sample : Orderly strictMachine where
  not_busy _ := rfl
  not_failing _ := rfl
  verifier _ _ := raisesOnly_error (by decide +kernel)
  decoder _ _ := raisesOnly_error (by decide +kernel)
  length_eq _ _ _ := nofun

/-- The two letters, with a compressor whose output is refused. -/
theorem mediaRoundTrip_sample :
    (∃ raw w, canonical (sourceRecord textCrypto sampleText sampleText "text/plain" "identity") =
        .ok raw ∧ parseDescriptor raw = .ok w ∧ payload w = .ok sampleText) ∧
    ∃ v encoded outcome, produce textCrypto
        (workersOf textCrypto strictMachine fun _ => some [1]) sampleText "text/plain" =
          .ok (some v, outcome) ∧
      validateDescriptor v = .ok encoded ∧ outcome.original = some sampleText := by
  obtain ⟨hread, hproduced⟩ := mediaRoundTrip textCrypto
  have hadmits : Admits sampleText "text/plain" :=
    ⟨by decide, by decide, fun _ => by decide +kernel⟩
  have hdescribes : Describes textCrypto sampleText sampleText "text/plain" "identity" :=
    describes_of_sizes hadmits.mime_mem hadmits.range (by decide) (by decide) fun _ => rfl
  constructor
  · obtain ⟨raw, w, hraw, hparse, -, hpayload⟩ := hread _ sampleText
      (by
        refine ⟨?_, trivial, trivial, trivial, trivial, trivial, trivial, trivial, trivial, trivial⟩
        exact (by decide +kernel : descriptorFields.Nodup))
      (validateDescriptor_record hdescribes.described)
    exact ⟨raw, w, hraw, hparse, hpayload⟩
  · obtain ⟨v, encoded, outcome, hproduce, hvalid, -, -, horiginal⟩ :=
      hproduced strictMachine (fun _ => some [1]) sampleText "text/plain" hadmits
        noCollision_sample (noLocalFailure_of_orderly orderly_sample)
    exact ⟨v, encoded, outcome, hproduce, hvalid, horiginal⟩

end CanonicalV3

end ZoidbergChain
