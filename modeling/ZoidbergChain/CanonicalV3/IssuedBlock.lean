import ZoidbergChain.CanonicalV3.IssuedCertificate
import ZoidbergChain.Python.Sha256

/-!
# Blocks of issued certificates

The payload of a block for an issued certificate, without native transactions.

- `validatePayload_issued`: such a payload passes `validate_payload`.
-/

namespace ZoidbergChain

open Python

namespace CanonicalV3

/-- The transaction that pays a creator, as `reward` builds it. -/
def rewardRecord (creator : String) : Value :=
  .dict [("amount", .str "5"), ("payload_size_kb", .str "0"), ("recipient", .str creator),
    ("sender", .str "REWARD_POOL"), ("tip", .str "0")]

theorem writes_rewardRecord {creator : String} (h : wallet (.str creator) = .ok creator) :
    Writes 1 126 (rewardRecord creator) := by
  have hfields : FieldsWrite 0 [("amount", .str "5"), ("payload_size_kb", .str "0"),
      ("recipient", .str creator), ("sender", .str "REWARD_POOL"), ("tip", .str "0")]
      [("amount", 3), ("payload_size_kb", 3), ("recipient", 44), ("sender", 13), ("tip", 3)] := by
    simp only [FieldsWrite, List.forall₂_cons, List.forall₂_nil_left_iff, true_and, and_true]
    exact ⟨writes_plain (n := 1) (by decide) (by decide) (by decide),
      writes_plain (n := 1) (by decide) (by decide) (by decide), writes_wallet h,
      writes_plain (n := 11) (by decide) (by decide) (by decide),
      writes_plain (n := 1) (by decide) (by decide) (by decide)⟩
  exact (writes_dict hfields (by decide +kernel) (by decide)).mono (le_refl _)
    (by decide +kernel)

/-- An issued certificate with the header and the media of its block. -/
structure IssuedBlock (crypto : Crypto) (ctx : Context) where
  issue : Issue crypto ctx
  index : Int
  previousHash : String
  timestamp : String
  mintedAt : String
  miner : String
  contentType : String
  original : List UInt8
  encoded : List UInt8
  codec : String
  media : Value
  index_valid : 1 ≤ index ∧ index ≤ maxUint
  previousHash_valid : h64 (.str previousHash) = .ok previousHash
  timestamp_valid : ∃ n, seconds (.str timestamp) = .ok n
  mintedAt_valid : ∃ n, seconds (.str mintedAt) = .ok n
  miner_valid : pattern (.str miner) (isHexAfter "" 66) = .ok miner ∧
    crypto.isPublicKey ((readHex miner.toList).getD []) = true
  contentType_valid : Value.str contentType ∈
    if issue.technical.mime = "text/plain" then [.str "text"] else [.str "image", .str "mixed"]
  media_valid : descriptor crypto original encoded issue.technical.mime codec = .ok media
  contentHash_bound : issue.technical.contentHash = crypto.sha256Hex original.toByteArray
  length_bound : issue.technical.length = original.length

variable {crypto : Crypto} {ctx : Context}

namespace IssuedBlock

/-- `transactions_hash` of no transactions. -/
def transactionsHash (crypto : Crypto) : String := crypto.sha256Hex (encodeUtf8 "[]")

/-- The positive and the decisive votes on originality. -/
def counts (b : IssuedBlock crypto ctx) : Int × Int :=
  ((b.issue.tally "originality").intAt "positive_votes",
    (b.issue.tally "originality").intAt "approval_denominator")

/-- The reduced ratio of positive votes. -/
def ratio (b : IssuedBlock crypto ctx) : Value :=
  let divisor : Int := Int.gcd b.counts.1 b.counts.2
  .dict [("numerator", .int (b.counts.1 / divisor)), ("denominator", .int (b.counts.2 / divisor))]

/-- The fields of the payload. -/
def fields (b : IssuedBlock crypto ctx) : Dict :=
  [("block_version", .int 3), ("index", .int b.index), ("previous_hash", .str b.previousHash),
    ("timestamp", .str b.timestamp), ("minted_at", .str b.mintedAt),
    ("transactions", .list [rewardRecord b.issue.attestation.creator]),
    ("native_transactions", .list []), ("transactions_hash", .str (transactionsHash crypto)),
    ("miner", .str b.miner), ("submission_id", .str b.issue.attestation.submission),
    ("certificate_id", .str b.issue.certificateDigest),
    ("vote_hash", (b.issue.tally "originality").field "vote_set_digest"),
    ("creator_wallet", .str b.issue.attestation.creator), ("content_type", .str b.contentType),
    ("approval_percentage", b.ratio), ("originality_score", b.ratio),
    ("decisive_vote_total", .int b.counts.2), ("minimum_votes_required", .int 5),
    ("approved_at", .int 0), ("reward_type", .str "meme_mining_reward"),
    ("reward_source", .str "reward_pool"),
    ("reward_recipient", .str b.issue.attestation.creator), ("reward_amount", .str "5"),
    ("voter_rewards", .list []), ("admission_certificate", b.issue.certificate),
    ("media", b.media)]

/-- The payload. -/
def payload (b : IssuedBlock crypto ctx) : Value := .dict b.fields

/-- The tally counts at most sixteen votes, some of them decisive. -/
theorem counts_spec (b : IssuedBlock crypto ctx) :
    ∃ p d : Nat, b.counts = ((p : Int), (d : Int)) ∧ p ≤ d ∧ 0 < d ∧ d ≤ 16 ∧
      (b.issue.tally "originality").field "positive_votes" = .int p ∧
      (b.issue.tally "originality").field "approval_denominator" = .int d := by
  obtain ⟨-, -, -, -, ⟨p, d, hp, hd, hle, hpos, hmax⟩, -⟩ :=
    @Issue.tally_spec crypto ctx b.issue "originality" (by decide)
  refine ⟨p, d, ?_, hle, hpos, hmax, hp, hd⟩
  rw [counts, Value.intAt, hp, Value.intAt, hd]

theorem ratio_spec (b : IssuedBlock crypto ctx) :
    Writes 1 37 b.ratio ∧ validateRational b.ratio = .ok () ∧
      rational b.counts.1 b.counts.2 = .ok b.ratio := by
  obtain ⟨p, d, hcounts, hle, hpos, hmax, -⟩ := b.counts_spec
  -- the reduced ratios of at most sixteen votes
  have hreduced : ∀ d ≤ (16 : Nat), ∀ p ≤ d, 0 < d →
      0 ≤ (p : Int) / (Int.gcd p d : Int) ∧ (p : Int) / (Int.gcd p d : Int) ≤ 15 ∧
      1 ≤ (d : Int) / (Int.gcd p d : Int) ∧ (d : Int) / (Int.gcd p d : Int) ≤ 16 ∧
      (p : Int) / (Int.gcd p d : Int) ≤ (d : Int) / (Int.gcd p d : Int) ∧
      Int.gcd ((p : Int) / (Int.gcd p d : Int)) ((d : Int) / (Int.gcd p d : Int)) = 1 := by
    decide +kernel
  obtain ⟨hn, hn', hm, hm', hnm, hgcd⟩ := hreduced d hmax p hle hpos
  have hratio : b.ratio = .dict [("numerator", .int ((p : Int) / (Int.gcd p d : Int))),
      ("denominator", .int ((d : Int) / (Int.gcd p d : Int)))] := by
    rw [ratio, hcounts]
  refine ⟨?_, ?_, ?_⟩
  · rw [hratio]
    have hfields : FieldsWrite 0 [("numerator", .int ((p : Int) / (Int.gcd p d : Int))),
        ("denominator", .int ((d : Int) / (Int.gcd p d : Int)))]
        [("numerator", 2), ("denominator", 2)] := by
      simp only [FieldsWrite, List.forall₂_cons, List.forall₂_nil_left_iff, true_and, and_true]
      exact ⟨writes_uint (uint_eq_ok.mpr ⟨rfl, hn, hn'⟩) (by decide) (le_refl 0) (by decide)
          (by decide),
        writes_uint (uint_eq_ok.mpr ⟨rfl, hm, hm'⟩) (by decide) (by decide) (by decide)
          (by decide)⟩
    exact (writes_dict hfields (by decide +kernel) (by decide)).mono (le_refl _)
      (by decide +kernel)
  · rw [hratio]
    simp only [validateRational, bind_eq_ok, require_eq_ok]
    exact ⟨_, closed_of_keys (l := ["numerator", "denominator"]) rfl (by decide), _,
      uint_eq_ok.mpr ⟨rfl, hn, hn'⟩, _, uint_eq_ok.mpr ⟨rfl, hm, hm'⟩, hnm, hgcd⟩
  · rw [ratio, hcounts]
    simp only [rational, bind_eq_ok, require_eq_ok]
    exact ⟨_, uint_eq_ok.mpr ⟨rfl, by omega, by omega⟩, _,
      uint_eq_ok.mpr ⟨rfl, by omega, by omega⟩, (), by omega, (), by omega, trivial⟩

/-- The stored descriptor. -/
theorem media_spec (b : IssuedBlock crypto ctx) :
    Writes 1 2796500 b.media ∧ (∃ bytes, validateDescriptor b.media = .ok bytes) ∧
      b.media.field "mime_type" = .str b.issue.technical.mime ∧
      b.media.field "original_sha256" = .str b.issue.technical.contentHash ∧
      b.media.field "original_size" = .int b.issue.technical.length := by
  obtain ⟨bytes, hvalid, hout⟩ := bind_eq_ok.mp b.media_valid
  have hmedia := (Except.ok.inj hout).symm
  rw [b.contentHash_bound, b.length_bound, hmedia]
  refine ⟨?_, ⟨bytes, hvalid⟩, rfl, rfl, rfl⟩
  obtain ⟨-, -, hlength, hstored⟩ := descriptor_payload hvalid
  have himage : maxImage = 2097152 := rfl
  simp only [validateDescriptor, bind_eq_ok] at hvalid
  obtain ⟨-, -, codec, hcodec, -, -, -, -, mime, hmime, size, horiginal, stored, hstoredSize, -⟩ :=
    hvalid
  have hcodec : oneOf (.str b.codec) ["identity", "zstd"] "codec_profile" = .ok codec := hcodec
  have hmime : oneOf (.str b.issue.technical.mime) mimes "mime_type" = .ok mime := hmime
  have horiginal : uint (.int b.original.length) 1 (maxOriginal mime) = .ok size := horiginal
  have hstoredSize : uint (.int b.encoded.length) 1 maxImage = .ok stored := hstoredSize
  have hmax : ((maxOriginal mime : Nat) : Int) ≤ 2097152 := by
    have hle := maxOriginal_le mime
    omega
  have htext : Writes 0 2796206 (.str (String.ofList (Base64.encode b.encoded))) := by
    refine writes_plain (n := 2796204) ?_ ?_ (by decide)
    · rw [String.toList_ofList]
      exact Base64.isPlain_encode b.encoded
    · rw [String.length_ofList, Base64.length_encode]
      have hle := (uint_eq_ok.mp hstoredSize).2.2
      have heq := Value.int.inj (uint_eq_ok.mp hstoredSize).1
      omega
  have hfields : FieldsWrite 0 [("codec_id", .str b.codec), ("codec_version", .int 1),
      ("encoding_version", .int 1), ("mime_type", .str b.issue.technical.mime),
      ("original_sha256", .str (crypto.sha256Hex b.original.toByteArray)),
      ("original_size", .int b.original.length),
      ("payload", .str (String.ofList (Base64.encode b.encoded))),
      ("stored_size", .int b.encoded.length)]
      [("codec_id", 10), ("codec_version", 1), ("encoding_version", 1), ("mime_type", 12),
        ("original_sha256", 66), ("original_size", 7), ("payload", 2796206),
        ("stored_size", 7)] := by
    simp only [FieldsWrite, List.forall₂_cons, List.forall₂_nil_left_iff, true_and, and_true]
    obtain ⟨hcodec, hmem⟩ := oneOf_eq_ok.mp hcodec
    exact ⟨writes_member (Value.str.inj hcodec ▸ hmem) (n := 8) (by decide) (by decide),
      writes_small (by decide) (by decide) (by decide),
      writes_small (by decide) (by decide) (by decide),
      writes_member b.issue.technical.mime_valid (n := 10) (by decide) (by decide),
      writes_sha256 crypto _,
      writes_uint horiginal (by decide) (by decide) (hmax.trans_lt (by decide))
        (hmax.trans (by decide)),
      htext, writes_uint hstoredSize (by decide) (by decide) (by decide) (by decide)⟩
  exact (writes_dict hfields (by decide +kernel) (by decide)).mono (le_refl _)
    (by decide +kernel)

/-- The fields of the payload with their widths. -/
theorem fieldsWrite (b : IssuedBlock crypto ctx) : FieldsWrite 3 b.fields
    [("block_version", 1), ("index", 16), ("previous_hash", 66), ("timestamp", 34),
      ("minted_at", 34), ("transactions", 128), ("native_transactions", 2),
      ("transactions_hash", 66), ("miner", 68), ("submission_id", 34), ("certificate_id", 66),
      ("vote_hash", 66), ("creator_wallet", 44), ("content_type", 7),
      ("approval_percentage", 37), ("originality_score", 37), ("decisive_vote_total", 2),
      ("minimum_votes_required", 1), ("approved_at", 1), ("reward_type", 20),
      ("reward_source", 13), ("reward_recipient", 44), ("reward_amount", 3),
      ("voter_rewards", 2), ("admission_certificate", 117000), ("media", 2796500)] := by
  have hflat : ∀ {n : Nat} {w : Value}, Writes 0 n w → Writes 3 n w := fun hw =>
    hw.mono (by decide) (le_refl _)
  have hconst : ∀ (s : String) (n : Nat), s.toList.all Json.isPlain = true → s.length ≤ n →
      n ≤ maxRecord → Writes 3 (n + 2) (.str s) := fun s n hs hlength hn =>
    hflat (writes_plain (List.all_eq_true.mp hs) hlength hn)
  have hsmall : ∀ n : Int, 0 ≤ n ∧ n < 10 ^ 1 → Writes 3 1 (.int n) := fun n hn =>
    hflat (writes_small hn (by decide) (hn.2.le.trans (by decide)))
  obtain ⟨_, htimestamp⟩ := b.timestamp_valid
  obtain ⟨_, hmintedAt⟩ := b.mintedAt_valid
  obtain ⟨p, d, hcounts, -, -, hmax, -⟩ := b.counts_spec
  obtain ⟨-, -, -, -, -, raw, hvoteHash⟩ :=
    @Issue.tally_spec crypto ctx b.issue "originality" (by decide)
  have htotal : uint (.int b.counts.2) 0 16 = .ok b.counts.2 := by
    rw [hcounts]
    exact uint_eq_ok.mpr ⟨rfl, Int.natCast_nonneg d, Int.ofNat_le.mpr hmax⟩
  have hcreator := writes_wallet b.issue.attestation.creator_valid
  have htransactions : Writes 2 128 (.list [rewardRecord b.issue.attestation.creator]) := by
    refine (writes_list 1 (n := 126) (by decide) (le_refl _) (by decide) ?_).mono (le_refl _)
      (by decide)
    rw [List.forall_mem_singleton]
    exact writes_rewardRecord b.issue.attestation.creator_valid
  have hempty : Writes 3 2 (.list []) := ⟨⟨by decide, by decide⟩, rfl, trivial, by decide⟩
  have hcontent : Writes 0 7 (.str b.contentType) := by
    refine writes_member (l := ["text", "image", "mixed"]) (n := 5) ?_ (by decide)
      (by decide)
    have hvalid := b.contentType_valid
    split at hvalid <;> simp at hvalid ⊢ <;> tauto
  simp only [fields, FieldsWrite, List.forall₂_cons, List.forall₂_nil_left_iff, true_and, and_true]
  exact ⟨hsmall 3 (by decide),
    hflat (writes_uint (uint_eq_ok.mpr ⟨rfl, b.index_valid⟩) (by decide) (by decide) (by decide)
      (le_refl _)),
    hflat (writes_h64 b.previousHash_valid), hflat (writes_seconds htimestamp),
    hflat (writes_seconds hmintedAt), htransactions.mono (by decide) (le_refl _), hempty,
    hflat (writes_sha256 crypto _), hflat (writes_hex b.miner_valid.1 (by decide) (by decide)),
    hflat (writes_submissionId b.issue.attestation.submission_valid),
    hflat (writes_sha256 crypto _), hvoteHash ▸ hflat (writes_sha256 crypto raw),
    hflat hcreator, hflat hcontent, b.ratio_spec.1.mono (by decide) (le_refl _),
    b.ratio_spec.1.mono (by decide) (le_refl _),
    hflat (writes_uint htotal (by decide) (le_refl 0) (by decide) (by decide)),
    hsmall 5 (by decide), hsmall 0 (by decide),
    hconst "meme_mining_reward" 18 (by decide) (by decide) (by decide),
    hconst "reward_pool" 11 (by decide) (by decide) (by decide), hflat hcreator,
    hconst "5" 1 (by decide) (by decide) (by decide), hempty, b.issue.writes_certificate,
    b.media_spec.1.mono (by decide) (le_refl _)⟩

theorem writes_payload (b : IssuedBlock crypto ctx) : Writes 4 2920000 b.payload :=
  (writes_dict b.fieldsWrite (by decide +kernel) (by decide)).mono (le_refl _)
    (by decide +kernel)

/-- The header passes `validate_header`. -/
theorem validateHeader_issued (b : IssuedBlock crypto ctx) :
    validateHeader crypto b.payload = .ok () := by
  obtain ⟨_, htimestamp⟩ := b.timestamp_valid
  obtain ⟨_, hmintedAt⟩ := b.mintedAt_valid
  obtain ⟨p, d, hcounts, -, hpos, hmax, -⟩ := b.counts_spec
  obtain ⟨-, -, -, -, -, raw, hvoteHash⟩ :=
    @Issue.tally_spec crypto ctx b.issue "originality" (by decide)
  have hsha : ∀ raw, h64 (.str (crypto.sha256Hex raw)) = .ok (crypto.sha256Hex raw) := fun raw =>
    h64_isHex64 (crypto.sha256Hex_isHex64 raw)
  have htotal : uint (.int b.counts.2) 1 16 = .ok b.counts.2 := by
    rw [hcounts]
    refine uint_eq_ok.mpr ⟨rfl, ?_, Int.ofNat_le.mpr hmax⟩
    show (1 : Int) ≤ (d : Int)
    omega
  have hversion : fixed (b.payload.field "block_version") (.int 3) = .ok () := fixed_self rfl
  have hhashes : ∀ name ∈ ["certificate_id", "vote_hash", "transactions_hash"],
      (do let _ ← h64 (b.payload.field name) : Py Unit) = .ok () := by
    have hvote : b.payload.field "vote_hash" = .str (crypto.sha256Hex raw) := hvoteHash
    simp only [List.forall_mem_cons, bind_eq_ok]
    rw [hvote]
    exact ⟨⟨_, hsha _, rfl⟩, ⟨_, hsha raw, rfl⟩, ⟨_, hsha _, rfl⟩, List.forall_mem_nil _⟩
  have hfixed : fieldsEqual b.payload [("minimum_votes_required", .int 5), ("approved_at", .int 0),
      ("reward_type", .str "meme_mining_reward"), ("reward_source", .str "reward_pool"),
      ("reward_recipient", .str b.issue.attestation.creator), ("reward_amount", .str "5"),
      ("voter_rewards", .list [])] = .ok () :=
    fieldsEqual_of_subset b.writes_payload (by decide) (by simp [fields])
  simp only [validateHeader, bind_eq_ok, forM_eq_ok, require_eq_ok]
  exact ⟨(), hversion, _, uint_eq_ok.mpr ⟨rfl, b.index_valid⟩, _, b.previousHash_valid, _,
    htimestamp, _, hmintedAt, _, b.miner_valid.1, (), b.miner_valid.2, _,
    b.issue.attestation.submission_valid, (), fun name hname => bind_eq_ok.mp (hhashes name hname),
    _, b.issue.attestation.creator_valid, _, b.issue.attestation.creator_valid, (),
    b.ratio_spec.2.1, (), b.ratio_spec.2.1, _, htotal, hfixed⟩

end IssuedBlock

/-- The payload of a block for an issued certificate passes `validate_payload`. -/
theorem validatePayload_issued (b : IssuedBlock crypto ctx) :
    validatePayload crypto ctx b.payload = .ok () := by
  obtain ⟨-, ⟨bytes, hmedia⟩, hmime, hsha, hsize⟩ := b.media_spec
  obtain ⟨p, d, hcounts, -, -, -, hp, hd⟩ := b.counts_spec
  obtain ⟨-, -, -, -, -, raw, hvoteHash⟩ :=
    @Issue.tally_spec crypto ctx b.issue "originality" (by decide)
  have hclosed : closed b.payload payloadFields ["meme_text"] = .ok _ :=
    closed_of_keys (l := payloadFields) rfl (by decide +kernel)
  have hcreator := b.issue.attestation.creator_valid
  have hrewards : validateRewards (b.payload.field "transactions")
      (b.payload.field "creator_wallet") = .ok () := by
    have hraw := (writes_rewardRecord hcreator).canonical
    have hexpected : reward (.str b.issue.attestation.creator) =
        .ok (rewardRecord b.issue.attestation.creator) := by
      rw [reward, hcreator]
      rfl
    show validateRewards (.list [rewardRecord b.issue.attestation.creator])
      (.str b.issue.attestation.creator) = _
    simp only [validateRewards, bind_eq_ok, require_eq_ok]
    exact ⟨_, closed_of_keys (l := ["amount", "payload_size_kb", "recipient", "sender", "tip"])
      rfl (by decide), _, hraw, _, hexpected, _, hraw, rfl⟩
  have haggregate : aggregateHash crypto ctx (b.payload.field "native_transactions") =
      .ok (IssuedBlock.transactionsHash crypto) := by
    have hvalid : validateTransactions crypto ctx (.list []) = .ok () := by
      simp only [validateTransactions, bind_eq_ok, require_eq_ok]
      exact ⟨[], rfl, (), bounded_eq_ok.mpr ⟨rfl, by decide⟩, (), rfl, (), rfl, (),
        by decide, trivial⟩
    have hraw : canonicalAscii (.list []) = .ok (encodeUtf8 "[]") := rfl
    show aggregateHash crypto ctx (.list []) = _
    rw [aggregateHash, hvalid, ok_bind, hraw, ok_bind]
    rfl
  have hcertificate : fieldsEqual b.issue.certificate
      [("submission_id", .str b.issue.attestation.submission),
        ("content_hash", .str b.issue.technical.contentHash),
        ("creator_wallet", .str b.issue.attestation.creator),
        ("certificate_digest", .str b.issue.certificateDigest)] = .ok () :=
    fieldsEqual_of_subset b.issue.writes_certificate (by decide)
      (by simp [Issue.body, certificateBody])
  have htechnical : fieldsEqual (b.issue.technical.record crypto ctx)
      [("detected_mime_type", .str b.issue.technical.mime),
        ("raw_media_byte_length", .int b.issue.technical.length)] = .ok () :=
    fieldsEqual_of_subset (b.issue.technical.writes_record crypto ctx) (by decide)
      (by simp [Technical.fields])
  have hsummary : fieldsEqual b.payload [("approval_percentage", b.ratio),
      ("originality_score", b.ratio), ("decisive_vote_total", .int b.counts.2),
      ("vote_hash", (b.issue.tally "originality").field "vote_set_digest")] = .ok () :=
    fieldsEqual_of_subset b.writes_payload (by decide) (by simp [IssuedBlock.fields])
  have hmimeText : b.media.textAt "mime_type" = b.issue.technical.mime := by
    rw [Value.textAt, hmime]
  have hshaText : b.media.textAt "original_sha256" = b.issue.technical.contentHash := by
    rw [Value.textAt, hsha]
  have hsizeInt : b.media.intAt "original_size" = b.issue.technical.length := by
    rw [Value.intAt, hsize]
  have hvoteText : Value.str ((b.issue.tally "originality").textAt "vote_set_digest") =
      (b.issue.tally "originality").field "vote_set_digest" := by
    rw [Value.textAt, hvoteHash]
  have hmediaField : b.payload.field "media" = b.media := rfl
  have hcertificateField : b.payload.field "admission_certificate" = b.issue.certificate := rfl
  have htally : b.issue.certificate.field "originality" = b.issue.tally "originality" := rfl
  have hcaption : b.payload.has "meme_text" = false := rfl
  have hcontent := b.contentType_valid
  have hdecisive : (b.issue.tally "originality").intAt "approval_denominator" = b.counts.2 := rfl
  have htransactionsHash : fixed (b.payload.field "transactions_hash")
      (.str (IssuedBlock.transactionsHash crypto)) = .ok () := (writes_sha256 crypto _).fixed
  simp only [validatePayload, bind_eq_ok, require_eq_ok, hmediaField, hcertificateField, htally,
    hmimeText, hshaText, hsizeInt, hcaption, hdecisive, hvoteText]
  exact ⟨_, hclosed, (), b.writes_payload.bounded (by decide), (), b.validateHeader_issued,
    bytes, hmedia, (), hcontent, (), rfl, (), hrewards, _, haggregate, (), htransactionsHash, (),
    validateCertificate_issued b.issue, (), hcertificate, (), htechnical, _, b.ratio_spec.2.2,
    hsummary⟩

/-! ## A block of five reviewers -/

/-- The accounts of a submitter and of five reviewers, as recovery writes them and as the records
do. -/
def sampleAccounts : List (String × String) :=
  [("0xd41c057fd1c78805AAC12B0A94a405c0461A6FBb",
      "0xd41c057fd1c78805aac12b0a94a405c0461a6fbb"),
    ("0x1efF47bc3a10a45D4B230B5d10E37751FE6AA718",
      "0x1eff47bc3a10a45d4b230b5d10e37751fe6aa718"),
    ("0x2B5AD5c4795c026514f8317c7a215E218DcCD6cF",
      "0x2b5ad5c4795c026514f8317c7a215e218dccd6cf"),
    ("0x6813Eb9362372EEF6200f3b1dbC3f819671cBA69",
      "0x6813eb9362372eef6200f3b1dbc3f819671cba69"),
    ("0x7E5F4552091A69125d5DfCb7b8C2659029395Bdf",
      "0x7e5f4552091a69125d5dfcb7b8c2659029395bdf"),
    ("0xe1AB8145F7E55DC933d51a18c793F901A3A0b276",
      "0xe1ab8145f7e55dc933d51a18c793f901a3a0b276")]

/-- The wallet of an account. -/
def sampleWallet (i : Nat) : String := (sampleAccounts.getD i ("", "")).2

/-- The signatures of the submitter, of the reviewers on admissibility, and of the reviewers on
originality. -/
def sampleSignatures : List String :=
  ["0xe93078fa1eac7153fb443401757a773c004377d899bd5525da29cc9d64367ad16838487eb0571f675d8a558aa9dcfe62f905fee87e3d626f2233054715eada511b",
    "0x277f1d7bf5a6d2654f4924da4d3235d33af36ee468d441fa223fa7d7bebd694226032adba33ca4c0fc06b9a3cb9239166a562cbe3fe3df04f51fd69f6ce1beed1b",
    "0x52a0ad26d3f3a6f90c70caf6bf711bb4d74a7f2257f27ab072c20053600a89e04d6175ec41871bca41401db909e7fc52ae7ea69d70dff58b5c55deaf86cae2161b",
    "0xe61bc325a7b956e1d709953c02b5013dd3f9fe06ed755c3d092d68c9653ce5190929427b2edaf61314cf0250430373d53f7830027d490783a80dc5f4194a78491c",
    "0xe968dbe9e9b08de6d279ad2faa82363b8ea9cddf25f0f471c1312fe22aaebeca64d0d44f49a5f1ab74fd709245b3f29d5c11125b192e3eb09b399e242fafcdd91b",
    "0x367f0dd54ddad05191df83a2737a3cdc168cb827a0e894c2ca5ff92a1410c7454bbde95fdb055435c23aa9b28d4f0c933dc91c429313301959a3f688964848d41c",
    "0x36e94a2c46384d3a5b529ba96788d83019e37806b3643ba877c9ffec6544eb045d4e7c9ddf86fe9797f259ddb6d0f3d5fd37a834f3ed81e426fd057b535d4b611b",
    "0x4c903675f5b2e575651634b2531c3705515a6f4e8c771210f08ade0652d828be05a28797538e30161f42565e08242b9404e78cadbe8fde07bef89fe3870a2d091c",
    "0xb5e65b39917f9e5e20da4328365ff724cc63d60127b3f9e02f48d0b7bd96f6c04b757112c7273a45191c40574c833114378894b6c122b69f0ce278da946fa5d01b",
    "0x0f9a98be4195b9587e35503328414034b9f91b3a400014583c2afed5f134d3e67490b734beaaa43ff3023b7647690eecf18b7b9d45b64f4dff94aa1c4e0578d21c",
    "0x95ea449c524f20a5e21c27487f962baca892e9f2b848eb6aa319aa9745ae7e0a25c615d3eeeb83c71e60961e98723657c55cc0d62540d9f75dcf0e8f1d7538991b"]

/-- A signature. -/
def sampleSignature (k : Nat) : String := sampleSignatures.getD k ""

/-- The account that has signed. -/
def sampleSigner (k : Nat) : Nat := if k ≤ 5 then k else k - 5

/-- The account that has made a signature. -/
def sampleRecover (sig : String) : Option String :=
  sampleAccounts[sampleSigner (sampleSignatures.idxOf sig)]?.map Prod.fst

def sampleMiner : String := "025cbdf0646e5db4eaa398f365f2ea7a0e3d419b7e0330e39ce92bddedcac4f9bc"

/-- SHA-256, and the recovery of the signers of the sample. -/
def sampleCrypto : Crypto where
  sha256Hex := Sha256.hexdigest
  sha256Hex_isHex64 := Sha256.hexdigest_chars
  recoverMessage _ := sampleRecover
  isPublicKey bytes := decide (bytes = (readHex sampleMiner.toList).getD [])

def sampleContext : Context where
  networkId := "zoidberg-testnet"
  application := "ZoidbergChain"
  genesisHash := String.ofList (List.replicate 64 '3')
  mediaPolicyDigest := String.ofList (List.replicate 64 '1')
  reviewPolicyDigest := String.ofList (List.replicate 64 '2')
  networkId_valid := by decide
  application_valid := by decide
  hashes_valid := by decide +kernel

theorem toLower_sampleAccounts : ∀ e ∈ sampleAccounts, e.1.toLower = e.2 := by decide +kernel

theorem wallet_sampleAccounts : ∀ e ∈ sampleAccounts, wallet (.str e.2) = .ok e.2 := by
  decide +kernel

theorem sampleAccounts_get {i : Nat} (hi : i < 6) :
    ∃ e ∈ sampleAccounts, sampleAccounts[i]? = some e ∧ sampleWallet i = e.2 := by
  have hlength : sampleAccounts.length = 6 := rfl
  have hget : sampleAccounts[i]? = some sampleAccounts[i] := List.getElem?_eq_getElem (by omega)
  refine ⟨sampleAccounts[i], List.getElem_mem _, hget, ?_⟩
  rw [sampleWallet, List.getD_eq_getElem?_getD, hget]
  rfl

theorem wallet_sample {i : Nat} (hi : i < 6) :
    wallet (.str (sampleWallet i)) = .ok (sampleWallet i) := by
  obtain ⟨e, he, -, hwallet⟩ := sampleAccounts_get hi
  rw [hwallet]
  exact wallet_sampleAccounts e he

/-- The text of a signature. -/
def isSignatureText (cs : List Char) : Bool :=
  cs.take 2 == ['0', 'x'] && decide ((cs.drop 2).length = 130) && (cs.drop 2).all isLowerHex &&
    decide (1 ≤ hexNumber ((cs.drop 2).take 64) ∧ hexNumber ((cs.drop 2).take 64) < curveOrder ∧
      1 ≤ hexNumber ((cs.drop 66).take 64) ∧ hexNumber ((cs.drop 66).take 64) < curveOrder ∧
      (hexNumber (cs.drop 130) = 27 ∨ hexNumber (cs.drop 130) = 28))

theorem signature_ofList {cs : List Char} (h : isSignatureText cs = true) :
    signature (.str (String.ofList cs)) = .ok (String.ofList cs) := by
  simp only [isSignatureText, Bool.and_eq_true, beq_iff_eq, decide_eq_true_eq] at h
  obtain ⟨⟨⟨hhead, hlength⟩, hhex⟩, hscalars⟩ := h
  have hpre : "0x".toList = ['0', 'x'] ∧ "0x".length = 2 := by decide
  simp only [signature, bind_eq_ok, pattern_eq_ok, require_eq_ok]
  refine ⟨_, ⟨rfl, ?_⟩, (), ?_, rfl⟩
  · simp only [isHexAfter, String.toList_ofList, hpre, Bool.and_eq_true, decide_eq_true_eq,
      List.isPrefixOf_iff_prefix]
    exact ⟨⟨hhead ▸ List.take_prefix 2 cs, hlength⟩, hhex⟩
  · rw [String.toList_ofList]
    exact hscalars

set_option maxRecDepth 4000 in
theorem signature_sampleSignatures : ∀ s ∈ sampleSignatures, signature (.str s) = .ok s := by
  simp only [sampleSignatures, List.forall_mem_cons]
  refine ⟨?_, ?_, ?_, ?_, ?_, ?_, ?_, ?_, ?_, ?_, ?_, nofun⟩
  all_goals exact signature_ofList (by decide +kernel)

set_option maxRecDepth 4000 in
theorem nodup_sampleSignatures : sampleSignatures.Nodup := by
  have hlists : sampleSignatures = List.map String.ofList [_, _, _, _, _, _, _, _, _, _, _] := rfl
  rw [hlists]
  exact List.Nodup.map (fun _ _ => String.ofList_injective) (by decide +kernel)

theorem signature_sample {k : Nat} (hk : k < 11) :
    signature (.str (sampleSignature k)) = .ok (sampleSignature k) ∧
      sampleSignatures.idxOf (sampleSignature k) = k := by
  have hlength : sampleSignatures.length = 11 := rfl
  have hget : sampleSignature k = sampleSignatures[k] := by
    rw [sampleSignature, List.getD_eq_getElem?_getD, List.getElem?_eq_getElem (by omega)]
    rfl
  rw [hget]
  exact ⟨signature_sampleSignatures _ (List.getElem_mem _),
    nodup_sampleSignatures.idxOf_getElem k (by omega)⟩

/-- Accounts have signed what they are recovered from. -/
theorem verifySignature_sample {k i : Nat} (hk : k < 11) (hi : sampleSigner k = i)
    (message : ByteArray) : verifySignature sampleCrypto message (.str (sampleSignature k))
      (.str (sampleWallet i)) = .ok () := by
  obtain ⟨hsig, hindex⟩ := signature_sample hk
  have hlt : i < 6 := by
    rw [← hi, sampleSigner]
    split <;> omega
  obtain ⟨e, he, hget, hwallet⟩ := sampleAccounts_get hlt
  have hrecover : sampleRecover (sampleSignature k) = some e.1 := by
    rw [sampleRecover, hindex, hi, hget]
    rfl
  have hcrypto : sampleCrypto.recoverMessage message (sampleSignature k) =
      sampleRecover (sampleSignature k) := by
    simp only [sampleCrypto]
  rw [verifySignature, hsig, ok_bind, wallet_sample hlt, ok_bind, hcrypto, hrecover, orRaise,
    ok_bind,
    toLower_sampleAccounts e he, hwallet]
  exact require_pos rfl

def sampleOriginal : List UInt8 := [103, 109]

/-- The observations of a text of two letters. -/
def sampleTechnical : Technical where
  mime := "text/plain"
  contentHash := sampleCrypto.sha256Hex sampleOriginal.toByteArray
  length := 2
  pixels _ := .null
  mime_valid := by decide
  contentHash_valid := h64_isHex64 (sampleCrypto.sha256Hex_isHex64 _)
  length_valid := by decide
  pixels_valid := fun _ _ => by rw [if_pos rfl]

def sampleSubmission : String := "0123456789abcdef0123456789abcdef"

def sampleAttestation : Attestation sampleCrypto sampleContext where
  creator := sampleWallet 0
  submission := sampleSubmission
  contentHash := sampleTechnical.contentHash
  technicalDigest := sampleTechnical.evidenceDigest sampleCrypto sampleContext
  nonce := "attestation-1"
  issuedAt := "2026-01-01T00:00:00+00:00"
  expiresAt := "2026-01-02T00:00:00+00:00"
  sig := sampleSignature 0
  creator_valid := wallet_sample (by decide)
  submission_valid := by decide +kernel
  contentHash_valid := sampleTechnical.contentHash_valid
  technicalDigest_valid := h64_isHex64 (sampleCrypto.sha256Hex_isHex64 _)
  nonce_valid := by decide +kernel
  expiry_valid := by decide +kernel
  sig_valid := verifySignature_sample (by decide) rfl _

def sampleDimension (dimension : Fin 2) : String :=
  if dimension = 0 then "admissibility" else "originality"

/-- The votes on admissibility, and the ones on originality. -/
def sampleBallot (dimension : Fin 2) (i : Fin 5) : Ballot sampleCrypto sampleContext where
  submission := sampleSubmission
  contentHash := sampleTechnical.contentHash
  voter := sampleWallet (i + 1)
  dimension := sampleDimension dimension
  choice := if dimension = 0 then "admissible" else "original"
  nonce := "vote-1"
  issuedAt := "2026-01-01T00:00:00+00:00"
  expiresAt := "2026-01-02T00:00:00+00:00"
  sig := sampleSignature (1 + 5 * dimension + i)
  status := "ESTABLISHED_REVIEWER"
  height := 0
  reference := sampleContext.genesisHash
  submission_valid := sampleAttestation.submission_valid
  contentHash_valid := sampleTechnical.contentHash_valid
  voter_valid := wallet_sample (by omega)
  dimension_valid := by revert dimension; decide
  choice_valid := by revert dimension; decide
  nonce_valid := by decide +kernel
  expiry_valid := sampleAttestation.expiry_valid
  status_valid := by decide
  height_valid := by decide
  reference_valid := by decide +kernel
  sig_valid :=
    verifySignature_sample (by omega) (by unfold sampleSigner; revert dimension i; decide) _

def sampleBallots : List (Ballot sampleCrypto sampleContext) :=
  (List.finRange 5).map (sampleBallot 0) ++ (List.finRange 5).map (sampleBallot 1)

theorem pairwise_sampleBallots {r : Ballot sampleCrypto sampleContext →
    Ballot sampleCrypto sampleContext → Prop}
    (hsame : ∀ dimension, ∀ i j : Fin 5, i < j →
      r (sampleBallot dimension i) (sampleBallot dimension j))
    (hcross : ∀ i j : Fin 5, r (sampleBallot 0 i) (sampleBallot 1 j)) :
    sampleBallots.Pairwise r := by
  have hfin : (List.finRange 5).Pairwise (· < ·) := by decide
  rw [sampleBallots, List.pairwise_append, List.pairwise_map, List.pairwise_map]
  refine ⟨hfin.imp fun hij => hsame 0 _ _ hij, hfin.imp fun hij => hsame 1 _ _ hij, ?_⟩
  intro a ha b hb
  obtain ⟨i, -, rfl⟩ := List.mem_map.mp ha
  obtain ⟨j, -, rfl⟩ := List.mem_map.mp hb
  exact hcross i j

theorem sampleWallet_lt : ∀ i j : Fin 5, i < j → sampleWallet (i + 1) < sampleWallet (j + 1) := by
  decide +kernel

theorem selectedVotes_sample (dimension : Fin 2) :
    selectedVotes (sampleBallots.map Ballot.record) (sampleDimension dimension) =
      (List.finRange 5).map fun i => (sampleBallot dimension i).record := by
  have htext : ∀ d i, (sampleBallot d i).record.textAt "dimension" = sampleDimension d :=
    fun _ _ => rfl
  have hvoter : ∀ d i, (sampleBallot d i).record.textAt "voter_wallet_address" =
      sampleWallet (i + 1) := fun _ _ => rfl
  have hne : ∀ d, sampleDimension d = sampleDimension dimension ↔ d = dimension := by
    revert dimension
    decide
  have hfilter : ((sampleBallots.map Ballot.record).filter
      fun v => v.textAt "dimension" = sampleDimension dimension) =
      (List.finRange 5).map fun i => (sampleBallot dimension i).record := by
    simp only [sampleBallots, List.map_append, List.map_map, List.filter_append, List.filter_map,
      Function.comp_def, htext, hne]
    obtain rfl | rfl : dimension = 0 ∨ dimension = 1 := by omega
    · simp
    · simp
  rw [selectedVotes, hfilter]
  refine List.Pairwise.insertionSort_eq ?_
  rw [List.pairwise_map]
  have hfin : (List.finRange 5).Pairwise (· < ·) := by decide
  refine hfin.imp fun {i j} hij => ?_
  rw [hvoter, hvoter]
  exact (sampleWallet_lt i j hij).le

theorem approved_sample : ∀ dimension ∈ dimensions,
    Approved (sampleBallots.map Ballot.record) dimension := by
  intro dimension hdimension
  obtain ⟨d, rfl⟩ : ∃ d, dimension = sampleDimension d := by
    revert dimension
    decide
  have hchoice : ∀ d i, (sampleBallot d i).record.textAt "vote_type" =
      positiveChoice (sampleDimension d) := by
    intro d i
    show (if d = 0 then "admissible" else "original") = _
    revert d
    decide
  have hstatus : ∀ d i, (sampleBallot d i).record.textAt "reviewer_status" =
    "ESTABLISHED_REVIEWER" := fun _ _ => rfl
  have hnegative : positiveChoice (sampleDimension d) ≠ negativeChoice (sampleDimension d) := by
    revert d
    decide
  have hcounts : choiceCount (selectedVotes (sampleBallots.map Ballot.record) (sampleDimension d))
      (positiveChoice (sampleDimension d)) = 5 ∧
      choiceCount (selectedVotes (sampleBallots.map Ballot.record) (sampleDimension d))
      (negativeChoice (sampleDimension d)) = 0 := by
    rw [selectedVotes_sample, choiceCount, choiceCount, List.countP_map, List.countP_map]
    simp [Function.comp_def, hchoice, hnegative]
  refine ⟨?_, ?_, ?_, ?_⟩
  · rw [selectedVotes_sample]
    simp
  · rw [selectedVotes_sample, List.countP_map]
    simp [Function.comp_def, hstatus]
  · rw [hcounts.1]
    omega
  · rw [hcounts.1, hcounts.2]
    decide

/-- The stored text. -/
def sampleMedia : Value :=
  .dict [("codec_id", .str "identity"), ("codec_version", .int 1), ("encoding_version", .int 1),
    ("mime_type", .str "text/plain"),
    ("original_sha256", .str (sampleCrypto.sha256Hex sampleOriginal.toByteArray)),
    ("original_size", .int sampleOriginal.length),
    ("payload", .str (String.ofList (Base64.encode sampleOriginal))),
    ("stored_size", .int sampleOriginal.length)]


theorem voteOrder_sample (d : Fin 2) (i : Fin 5) : voteOrder (sampleBallot d i).record =
    toLex (sampleDimension d, toLex (sampleWallet (i + 1), (sampleBallot d i).identity)) := rfl

theorem ordered_sample : (sampleBallots.map fun b => voteOrder b.record) =
    (sampleBallots.map fun b => voteOrder b.record).insertionSort (· ≤ ·) := by
  refine (List.Pairwise.insertionSort_eq ?_).symm
  rw [List.pairwise_map]
  refine pairwise_sampleBallots (fun dimension i j hij => ?_) (fun i j => ?_)
  · rw [voteOrder_sample, voteOrder_sample]
    refine Prod.Lex.toLex_le_toLex.mpr (Or.inr ⟨rfl, ?_⟩)
    exact Prod.Lex.toLex_le_toLex.mpr (Or.inl (sampleWallet_lt i j hij))
  · rw [voteOrder_sample, voteOrder_sample]
    exact Prod.Lex.toLex_le_toLex.mpr
      (Or.inl (by decide : ("admissibility" : String) < "originality"))

theorem distinct_sample : (sampleBallots.map fun b => (b.dimension, b.voter)).Nodup := by
  rw [List.Nodup, List.pairwise_map]
  refine pairwise_sampleBallots (fun dimension i j hij heq => ?_) (fun i j heq => ?_)
  · exact absurd (Prod.mk.inj heq).2 (sampleWallet_lt i j hij).ne
  · exact absurd (Prod.mk.inj heq).1 (by decide : ¬ ("admissibility" : String) = "originality")

theorem bound_sample : ∀ b ∈ sampleBallots, b.submission = sampleAttestation.submission ∧
    b.contentHash = sampleTechnical.contentHash ∧ b.voter ≠ sampleAttestation.creator := by
  have hvoter : ∀ i : Fin 5, sampleWallet (i + 1) ≠ sampleWallet 0 := by decide +kernel
  intro b hb
  obtain hb | hb := List.mem_append.mp hb
  · obtain ⟨i, -, rfl⟩ := List.mem_map.mp hb
    exact ⟨rfl, rfl, hvoter i⟩
  · obtain ⟨i, -, rfl⟩ := List.mem_map.mp hb
    exact ⟨rfl, rfl, hvoter i⟩

theorem length_sample : sampleBallots.length = 10 := by
  rw [sampleBallots, List.length_append, List.length_map, List.length_map, List.length_finRange]

theorem count_sample : ∀ dimension ∈ dimensions,
    (sampleBallots.countP fun b => b.dimension = dimension) ≤ 16 := by
  intro dimension _
  refine List.countP_le_length.trans ?_
  rw [length_sample]
  decide

def sampleIssue : Issue sampleCrypto sampleContext where
  technical := sampleTechnical
  attestation := sampleAttestation
  ballots := sampleBallots
  contentHash_bound := rfl
  technicalDigest_bound := rfl
  ballots_bound := bound_sample
  count := by
    rw [length_sample]
    decide
  ordered := ordered_sample
  distinct := distinct_sample
  dimension_count := count_sample
  approved := approved_sample

theorem media_sample : descriptor sampleCrypto sampleOriginal sampleOriginal "text/plain"
    "identity" = .ok sampleMedia := by
  have hvalid : validateDescriptor sampleMedia = .ok sampleOriginal := by
    simp only [validateDescriptor, bind_eq_ok, require_eq_ok, orRaise_eq_ok]
    exact ⟨_, closed_of_keys (l := descriptorFields) rfl (by decide), "identity",
      oneOf_eq_ok.mpr ⟨rfl, by decide⟩, 1, uint_eq_ok.mpr ⟨rfl, by decide⟩, 1,
      uint_eq_ok.mpr ⟨rfl, by decide⟩, "text/plain", oneOf_eq_ok.mpr ⟨rfl, by decide⟩, 2,
      uint_eq_ok.mpr ⟨rfl, by decide⟩, 2, uint_eq_ok.mpr ⟨rfl, by decide⟩, _,
      h64_isHex64 (sampleCrypto.sha256Hex_isHex64 _), "Z20=",
      textOfLength_eq_ok.mpr ⟨by decide +kernel, by decide⟩, sampleOriginal, by decide +kernel, (),
      by decide +kernel, (), fun _ => rfl, rfl⟩
  rw [descriptor]
  exact bind_eq_ok.mpr ⟨_, hvalid, rfl⟩

def sampleBlock : IssuedBlock sampleCrypto sampleContext where
  issue := sampleIssue
  index := 1
  previousHash := sampleContext.genesisHash
  timestamp := "1767312000"
  mintedAt := "1767312000.5"
  miner := sampleMiner
  contentType := "text"
  original := sampleOriginal
  encoded := sampleOriginal
  codec := "identity"
  media := sampleMedia
  index_valid := by decide
  previousHash_valid := by decide +kernel
  timestamp_valid := ⟨1767312000000000, by decide +kernel⟩
  mintedAt_valid := ⟨1767312000500000, by decide +kernel⟩
  miner_valid := ⟨by decide +kernel, by simp [sampleCrypto]⟩
  contentType_valid := by
    rw [if_pos (by rfl)]
    exact List.mem_singleton_self _
  media_valid := media_sample
  contentHash_bound := rfl
  length_bound := rfl

end CanonicalV3

end ZoidbergChain
