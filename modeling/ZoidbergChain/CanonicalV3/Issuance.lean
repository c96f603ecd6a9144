import ZoidbergChain.CanonicalV3.Writing

/-!
# Issued evidence

canonical_v3/issuance.py: the technical evidence, the attestation, the votes and the certificate
that the issuer assembles from signed parts.

- `validateTechnical_issued`, `validateAttestation_issued`, `validateVote_issued` and
  `validateCertificate_issued`: what the issuer assembles from checked parts passes the checks of
  evidence.py, so that no size limit rejects it.
-/

namespace ZoidbergChain

open Python

namespace CanonicalV3

variable {crypto : Crypto} {ctx : Context}

/-! ## Votes -/

/-- `record` of `vote_from_signature`. -/
def voteRecord (ctx : Context) (payload : Value) (message : ByteArray)
    (sig status height reference : Value) (hash identity : String) : Value :=
  .dict [("submission_id", payload.field "submission_id"),
    ("content_hash", payload.field "content_hash"), ("voter", payload.field "wallet_address"),
    ("voter_wallet_address", payload.field "wallet_address"),
    ("vote_type", payload.field "choice"), ("dimension", payload.field "dimension"),
    ("vote_version", .int 3), ("protocol_version", .int 2), ("network_id", .str ctx.networkId),
    ("signature_scheme", .str "personal_sign"), ("vote_signature", sig),
    ("vote_message", decodedText message), ("vote_nonce", payload.field "nonce"),
    ("signed_message_hash", .str hash), ("vote_issued_at", payload.field "issued_at"),
    ("vote_expires_at", payload.field "expires_at"), ("vote_identity", .str identity),
    ("reviewer_policy_version", .int 1), ("reputation_rule_version", .int 2),
    ("reviewer_status", status), ("reviewer_eligible", .bool true),
    ("reviewer_status_effective_height", height),
    ("reviewer_status_reference_block_hash", reference)]

/-- `vote_from_signature`, up to its bindings to the admission and the reviewer's history. -/
def voteFromSignature (crypto : Crypto) (ctx : Context) (message : ByteArray)
    (sig status height reference : Value) : Py Value := do
  let payload ← parse message 2048
  let hash ← digest crypto payload
  let identity ← digest crypto (.dict [("payload", payload), ("signature", sig)])
  let record := voteRecord ctx payload message sig status height reference hash identity
  validateVote crypto ctx record
  .ok record

/-- What a reviewer signs. -/
structure BallotText where
  submission : String
  contentHash : String
  voter : String
  dimension : String
  choice : String
  nonce : String
  issuedAt : String
  expiresAt : String

/-- The payload that a reviewer signs. -/
def BallotText.payload (ctx : Context) (b : BallotText) : Value :=
  .dict [("domain", .str "zoidbergchain/community-review/v3"),
    ("network_id", .str ctx.networkId), ("vote_version", .int 3), ("policy_version", .int 2),
    ("policy_digest", .str ctx.reviewPolicyDigest), ("reviewer_policy_version", .int 1),
    ("reputation_rule_version", .int 2), ("wallet_address", .str b.voter),
    ("submission_id", .str b.submission), ("content_hash", .str b.contentHash),
    ("dimension", .str b.dimension), ("choice", .str b.choice), ("nonce", .str b.nonce),
    ("issued_at", .str b.issuedAt), ("expires_at", .str b.expiresAt)]

/-- The message that a reviewer signs. -/
def BallotText.message (ctx : Context) (b : BallotText) : ByteArray :=
  encodeUtf8 (canonicalText (b.payload ctx))

/-- A signed vote whose parts have passed their checks. -/
structure Ballot (crypto : Crypto) (ctx : Context) extends BallotText where
  sig : String
  status : String
  height : Int
  reference : String
  submission_valid : submissionId (.str submission) = .ok submission
  contentHash_valid : h64 (.str contentHash) = .ok contentHash
  voter_valid : wallet (.str voter) = .ok voter
  dimension_valid : dimension ∈ dimensions
  choice_valid : choice ∈ [positiveChoice dimension, negativeChoice dimension, "unsure"]
  nonce_valid : opaqueText (.str nonce) = .ok nonce
  expiry_valid : expiry (.str issuedAt) (.str expiresAt) = .ok ()
  status_valid : status ∈ ["PROBATIONARY_REVIEWER", "ESTABLISHED_REVIEWER"]
  height_valid : 0 ≤ height ∧ height ≤ maxUint
  reference_valid : h64 (.str reference) = .ok reference
  sig_valid : verifySignature crypto (toBallotText.message ctx) (.str sig) (.str voter) = .ok ()

namespace Ballot

/-- The preimage of the identity of a vote. -/
def identityPreimage (b : Ballot crypto ctx) : Value :=
  .dict [("payload", b.payload ctx), ("signature", .str b.sig)]

/-- `vote_identity`. -/
def identity (b : Ballot crypto ctx) : String :=
  crypto.sha256Hex (encodeUtf8 (canonicalText b.identityPreimage))

/-- The closed vote. -/
def record (b : Ballot crypto ctx) : Value :=
  voteRecord ctx (b.payload ctx) (b.message ctx) (.str b.sig) (.str b.status) (.int b.height)
    (.str b.reference) (crypto.sha256Hex (b.message ctx)) b.identity

/-- Every choice there is. -/
theorem choice_mem (b : Ballot crypto ctx) :
    b.choice ∈ ["original", "not_original", "admissible", "not_admissible", "unsure"] := by
  have hchoice := b.choice_valid
  have hall : ∀ d ∈ dimensions, ∀ c ∈ [positiveChoice d, negativeChoice d, "unsure"],
      c ∈ ["original", "not_original", "admissible", "not_admissible", "unsure"] := by decide
  exact hall _ b.dimension_valid _ hchoice

theorem writes_payload (b : Ballot crypto ctx) : Writes 1 912 (b.payload ctx) := by
  obtain ⟨hissued, hexpires⟩ := writes_expiry b.expiry_valid
  have hsmall : ∀ n : Int, 0 ≤ n ∧ n < 10 ^ 1 → Writes 0 1 (.int n) := fun n hn =>
    writes_small hn (by decide) (hn.2.le.trans (by decide))
  have hfields : FieldsWrite 0 [("domain", .str "zoidbergchain/community-review/v3"),
      ("network_id", .str ctx.networkId), ("vote_version", .int 3), ("policy_version", .int 2),
      ("policy_digest", .str ctx.reviewPolicyDigest), ("reviewer_policy_version", .int 1),
      ("reputation_rule_version", .int 2), ("wallet_address", .str b.voter),
      ("submission_id", .str b.submission), ("content_hash", .str b.contentHash),
      ("dimension", .str b.dimension), ("choice", .str b.choice), ("nonce", .str b.nonce),
      ("issued_at", .str b.issuedAt), ("expires_at", .str b.expiresAt)]
      [("domain", 35), ("network_id", 66), ("vote_version", 1), ("policy_version", 1),
        ("policy_digest", 66), ("reviewer_policy_version", 1), ("reputation_rule_version", 1),
        ("wallet_address", 44), ("submission_id", 34), ("content_hash", 66), ("dimension", 15),
        ("choice", 16), ("nonce", 258), ("issued_at", 34), ("expires_at", 34)] := by
    simp only [FieldsWrite, List.forall₂_cons, List.forall₂_nil_left_iff, true_and, and_true]
    exact ⟨writes_plain (n := 33) (by decide) (by decide) (by decide), writes_networkId ctx,
      hsmall 3 (by decide), hsmall 2 (by decide), writes_contextHash ctx (by simp),
      hsmall 1 (by decide), hsmall 2 (by decide), writes_wallet b.voter_valid,
      writes_submissionId b.submission_valid, writes_h64 b.contentHash_valid,
      writes_member b.dimension_valid (n := 13) (by decide) (by decide),
      writes_member b.choice_mem (n := 14) (by decide +kernel) (by decide),
      writes_opaqueText b.nonce_valid, hissued, hexpires⟩
  exact (writes_dict hfields (by decide +kernel) (by decide)).mono (le_refl _)
    (by decide +kernel)

theorem canonical_payload (b : Ballot crypto ctx) :
    canonical (b.payload ctx) = .ok (b.message ctx) := b.writes_payload.canonical

theorem size_message (b : Ballot crypto ctx) : (b.message ctx).size ≤ 2048 := by
  rw [size_canonical b.canonical_payload]
  exact b.writes_payload.width.trans (by decide)

theorem writes_identityPreimage (b : Ballot crypto ctx) : Writes 2 1100 b.identityPreimage := by
  obtain ⟨sig, hsig, -⟩ := bind_eq_ok.mp b.sig_valid
  have hfields : FieldsWrite 1 [("payload", b.payload ctx), ("signature", .str b.sig)]
      [("payload", 912), ("signature", 134)] := by
    simp only [FieldsWrite, List.forall₂_cons, List.forall₂_nil_left_iff, true_and, and_true]
    exact ⟨b.writes_payload, (writes_signature hsig).mono (by decide) (le_refl _)⟩
  exact (writes_dict hfields (by decide +kernel) (by decide)).mono (le_refl _)
    (by decide +kernel)

theorem digest_identityPreimage (b : Ballot crypto ctx) :
    digest crypto b.identityPreimage = .ok b.identity := by
  rw [digest, b.writes_identityPreimage.canonical]
  rfl

/-- The fields of the closed vote with their widths. -/
theorem fields_record (b : Ballot crypto ctx) :
    ∃ d, b.record = .dict d ∧ FieldsWrite 0 d
      [("submission_id", 34), ("content_hash", 66), ("voter", 44), ("voter_wallet_address", 44),
        ("vote_type", 16), ("dimension", 15), ("vote_version", 1), ("protocol_version", 1),
        ("network_id", 66), ("signature_scheme", 15), ("vote_signature", 134),
        ("vote_message", 1826), ("vote_nonce", 258), ("signed_message_hash", 66),
        ("vote_issued_at", 34), ("vote_expires_at", 34), ("vote_identity", 66),
        ("reviewer_policy_version", 1), ("reputation_rule_version", 1), ("reviewer_status", 23),
        ("reviewer_eligible", 5), ("reviewer_status_effective_height", 16),
        ("reviewer_status_reference_block_hash", 66)] := by
  obtain ⟨hissued, hexpires⟩ := writes_expiry b.expiry_valid
  obtain ⟨sig, hsig, -⟩ := bind_eq_ok.mp b.sig_valid
  have hsmall : ∀ n : Int, 0 ≤ n ∧ n < 10 ^ 1 → Writes 0 1 (.int n) := fun n hn =>
    writes_small hn (by decide) (hn.2.le.trans (by decide))
  refine ⟨_, rfl, ?_⟩
  simp only [FieldsWrite, List.forall₂_cons, List.forall₂_nil_left_iff, true_and, and_true]
  exact ⟨writes_submissionId b.submission_valid, writes_h64 b.contentHash_valid,
    writes_wallet b.voter_valid, writes_wallet b.voter_valid,
    writes_member b.choice_mem (n := 14) (by decide +kernel) (by decide),
    writes_member b.dimension_valid (n := 13) (by decide) (by decide), hsmall 3 (by decide),
    hsmall 2 (by decide), writes_networkId ctx,
    writes_plain (n := 13) (by decide) (by decide) (by decide), writes_signature hsig,
    writes_message b.writes_payload (by decide), writes_opaqueText b.nonce_valid,
    writes_sha256 crypto _, hissued, hexpires, writes_sha256 crypto _, hsmall 1 (by decide),
    hsmall 2 (by decide),
    writes_member b.status_valid (n := 21) (by decide +kernel) (by decide), writes_bool true,
    writes_uint (uint_eq_ok.mpr ⟨rfl, b.height_valid⟩) (by decide) (le_refl 0) (by decide)
      (le_refl _),
    writes_h64 b.reference_valid⟩

theorem writes_record (b : Ballot crypto ctx) : Writes 1 3300 b.record := by
  obtain ⟨d, hd, hfields⟩ := b.fields_record
  rw [hd]
  exact (writes_dict hfields (by decide +kernel) (by decide)).mono (le_refl _)
    (by decide +kernel)

end Ballot

/-- A vote of checked parts passes `validate_vote`. -/
theorem validateVote_issued (b : Ballot crypto ctx) :
    validateVote crypto ctx b.record = .ok () := by
  have hclosed : closed b.record voteFields [] = .ok _ :=
    closed_of_keys (l := voteFields) rfl (by decide +kernel)
  have hsmall : ∀ n : Int, 0 ≤ n ∧ n < 10 ^ 1 → Writes 0 1 (.int n) := fun n hn =>
    writes_small hn (by decide) (hn.2.le.trans (by decide))
  have hscheme : Writes 0 15 (.str "personal_sign") :=
    writes_plain (n := 13) (by decide) (by decide) (by decide)
  have hfixed : fieldsEqual b.record [("voter", .str b.voter), ("vote_version", .int 3),
      ("protocol_version", .int 2), ("network_id", .str ctx.networkId),
      ("signature_scheme", .str "personal_sign"), ("reviewer_policy_version", .int 1),
      ("reputation_rule_version", .int 2), ("reviewer_eligible", .bool true)] = .ok () := by
    rw [fieldsEqual_eq_ok]
    simp only [List.forall_mem_cons]
    exact ⟨(writes_wallet b.voter_valid).fixed, (hsmall 3 (by decide)).fixed,
      (hsmall 2 (by decide)).fixed, (writes_networkId ctx).fixed, hscheme.fixed,
      (hsmall 1 (by decide)).fixed, (hsmall 2 (by decide)).fixed, (writes_bool true).fixed, nofun⟩
  have hcommitments : fieldsEqual b.record [("vote_message", decodedText (b.message ctx)),
      ("signed_message_hash", .str (crypto.sha256Hex (b.message ctx))),
      ("vote_identity", .str b.identity)] = .ok () := by
    rw [fieldsEqual_eq_ok]
    simp only [List.forall_mem_cons]
    exact ⟨(writes_message b.writes_payload (by decide)).fixed, (writes_sha256 crypto _).fixed,
      (writes_sha256 crypto _).fixed, nofun⟩
  simp only [validateVote, bind_eq_ok, require_eq_ok]
  exact ⟨_, hclosed, (), b.writes_record.bounded (by decide), b.submission, b.submission_valid,
    b.contentHash, b.contentHash_valid, b.voter, b.voter_valid, (), hfixed, b.dimension,
    oneOf_eq_ok.mpr ⟨rfl, b.dimension_valid⟩, b.choice, oneOf_eq_ok.mpr ⟨rfl, b.choice_valid⟩,
    b.status, oneOf_eq_ok.mpr ⟨rfl, b.status_valid⟩, b.height,
    uint_eq_ok.mpr ⟨rfl, b.height_valid⟩, b.reference, b.reference_valid, b.nonce, b.nonce_valid,
    (), b.expiry_valid, b.message ctx, b.canonical_payload, (), b.size_message, b.identity,
    b.digest_identityPreimage, (), hcommitments, b.sig_valid⟩

/-- The issuer makes the record of a signed message with checked parts. -/
theorem voteFromSignature_ballot (b : Ballot crypto ctx) :
    voteFromSignature crypto ctx (b.message ctx) (.str b.sig) (.str b.status) (.int b.height)
      (.str b.reference) = .ok b.record := by
  have hparse : parse (b.message ctx) 2048 = .ok (Json.sortKeys (b.payload ctx)) :=
    parse_canonical b.writes_payload.unique b.canonical_payload b.size_message
  have hhash : digest crypto (Json.sortKeys (b.payload ctx)) =
      .ok (crypto.sha256Hex (b.message ctx)) := by
    rw [digest, canonical_sortKeys.mpr b.canonical_payload, ok_bind]
  have hsame : SameValue (.dict [("payload", Json.sortKeys (b.payload ctx)),
      ("signature", .str b.sig)]) b.identityPreimage := by
    simp only [SameValue, Ballot.identityPreimage, Json.sortKeys, Json.sortChildren,
      sortKeys_sortKeys]
  have hidentity : digest crypto (.dict [("payload", Json.sortKeys (b.payload ctx)),
      ("signature", .str b.sig)]) = .ok b.identity := by
    rw [digest, (canonical_congr hsame).mpr b.writes_identityPreimage.canonical, ok_bind]
    rfl
  have hrecord : voteRecord ctx (Json.sortKeys (b.payload ctx)) (b.message ctx) (.str b.sig)
      (.str b.status) (.int b.height) (.str b.reference) (crypto.sha256Hex (b.message ctx))
      b.identity = b.record := by
    simp only [voteRecord, field_sortKeys, sortKeys_field b.writes_payload.nesting]
    rfl
  rw [voteFromSignature, hparse, ok_bind, hhash, ok_bind, hidentity, ok_bind]
  simp only [hrecord, validateVote_issued, ok_bind]

/-! ## Technical evidence -/

/-- The observations of an original that a technical validator accepts. -/
structure Technical where
  mime : String
  contentHash : String
  length : Int
  pixels : String → Value
  mime_valid : mime ∈ mimes
  contentHash_valid : h64 (.str contentHash) = .ok contentHash
  length_valid : 1 ≤ length ∧ length ≤ maxOriginal mime
  pixels_valid : ∀ e ∈ imageFields,
    if mime = "text/plain" then pixels e.1 = .null
    else ∃ n, uint (pixels e.1) 1 e.2 = .ok n

namespace Technical

/-- `raw_media_semantics`. -/
def semantics (t : Technical) : String :=
  if t.mime = "text/plain" then "policy_canonical_utf8_text" else "exact_input_bytes"

/-- The technical evidence without its digest. -/
def fields (ctx : Context) (t : Technical) : Dict :=
  [("evidence_version", .int 1), ("validator_id", .str "zoidberg-media-technical-validator/1"),
    ("policy_id", .str ctx.mediaPolicyId), ("policy_version", .int 2),
    ("policy_digest", .str ctx.mediaPolicyDigest), ("outcome", .str "ACCEPT"),
    ("reason_codes", .list [.str "ACCEPTED_POLICY_METADATA"]),
    ("detected_media_type", .str (detectedMediaType t.mime)),
    ("detected_mime_type", .str t.mime), ("raw_media_byte_length", .int t.length),
    ("raw_media_sha256", .str t.contentHash), ("raw_media_semantics", .str t.semantics),
    ("width_pixels", t.pixels "width_pixels"), ("height_pixels", t.pixels "height_pixels"),
    ("frame_count", t.pixels "frame_count"),
    ("aggregate_decoded_pixels", t.pixels "aggregate_decoded_pixels")]

/-- `evidence_digest`. -/
def evidenceDigest (crypto : Crypto) (ctx : Context) (t : Technical) : String :=
  crypto.sha256Hex (encodeUtf8 (canonicalText (.dict (t.fields ctx))))

/-- The technical evidence that `technical_for` derives. -/
def record (crypto : Crypto) (ctx : Context) (t : Technical) : Value :=
  .dict (t.fields ctx ++ [("evidence_digest", .str (t.evidenceDigest crypto ctx))])

theorem writes_pixels (t : Technical) {e : String × Int} (he : e ∈ imageFields) :
    Writes 0 8 (t.pixels e.1) := by
  have hmax : ∀ e ∈ imageFields, e.2 < (10 : Int) ^ 8 ∧ e.2 ≤ maxUint := by decide
  have hpixels := t.pixels_valid e he
  by_cases htext : t.mime = "text/plain"
  · rw [if_pos htext] at hpixels
    rw [hpixels]
    exact ⟨⟨by decide, by decide⟩, rfl, trivial, by decide⟩
  · rw [if_neg htext] at hpixels
    obtain ⟨n, hn⟩ := hpixels
    exact writes_uint hn (by decide) (by decide) (hmax e he).1 (hmax e he).2

/-- The widths of the technical evidence without its digest. -/
def widths : List (String × Nat) :=
  [("evidence_version", 1), ("validator_id", 38), ("policy_id", 84), ("policy_version", 1),
    ("policy_digest", 66), ("outcome", 8), ("reason_codes", 28), ("detected_media_type", 17),
    ("detected_mime_type", 12), ("raw_media_byte_length", 7), ("raw_media_sha256", 66),
    ("raw_media_semantics", 28), ("width_pixels", 8), ("height_pixels", 8), ("frame_count", 8),
    ("aggregate_decoded_pixels", 8)]

theorem fieldsWrite (ctx : Context) (t : Technical) : FieldsWrite 1 (t.fields ctx) widths := by
  have hflat : ∀ {n : Nat} {w : Value}, Writes 0 n w → Writes 1 n w := fun hw =>
    hw.mono (by decide) (le_refl _)
  have hsmall : ∀ n : Int, 0 ≤ n ∧ n < 10 ^ 1 → Writes 0 1 (.int n) := fun n hn =>
    writes_small hn (by decide) (hn.2.le.trans (by decide))
  have hpixels := fun e he => hflat (t.writes_pixels (e := e) he)
  simp only [imageFields, List.forall_mem_cons] at hpixels
  obtain ⟨hwidth, hheight, hframes, haggregate, -⟩ := hpixels
  have htype : detectedMediaType t.mime ∈ ["plain_utf8_text", "jpeg", "png", "gif", "webp"] :=
    (by decide : ∀ m ∈ mimes, detectedMediaType m ∈
      ["plain_utf8_text", "jpeg", "png", "gif", "webp"]) _ t.mime_valid
  have hsemantics : t.semantics ∈ ["policy_canonical_utf8_text", "exact_input_bytes"] := by
    unfold semantics
    split
    · exact List.mem_cons_self
    · exact List.mem_cons_of_mem _ List.mem_cons_self
  have hmax : (maxOriginal t.mime : Int) ≤ 2097152 := by
    have hle := maxOriginal_le t.mime
    have himage : maxImage = 2097152 := rfl
    omega
  have hreasons : Writes 1 28 (.list [.str "ACCEPTED_POLICY_METADATA"]) := by
    refine (writes_list 1 (n := 26) (by decide) (le_refl _) (by decide) ?_).mono (le_refl _)
      (by decide)
    rw [List.forall_mem_singleton]
    exact writes_plain (by decide) (by decide) (by decide)
  simp only [fields, widths, FieldsWrite, List.forall₂_cons, List.forall₂_nil_left_iff, true_and,
    and_true]
  exact ⟨hflat (hsmall 1 (by decide)),
    hflat (writes_plain (n := 36) (by decide) (by decide) (by decide)),
    hflat (writes_mediaPolicyId ctx),
    hflat (hsmall 2 (by decide)), hflat (writes_contextHash ctx (by simp)),
    hflat (writes_plain (n := 6) (by decide) (by decide) (by decide)), hreasons,
    hflat (writes_member htype (n := 15) (by decide) (by decide)),
    hflat (writes_member t.mime_valid (n := 10) (by decide) (by decide)),
    hflat (writes_uint (uint_eq_ok.mpr ⟨rfl, t.length_valid⟩) (by decide) (by decide)
      (hmax.trans_lt (by decide)) (hmax.trans (by decide))),
    hflat (writes_h64 t.contentHash_valid),
    hflat (writes_member hsemantics (n := 26) (by decide) (by decide)), hwidth, hheight, hframes,
    haggregate⟩

theorem writes_fields (ctx : Context) (t : Technical) : Writes 2 1000 (.dict (t.fields ctx)) :=
  (writes_dict (t.fieldsWrite ctx) (by decide +kernel) (by decide)).mono (le_refl _)
    (by decide +kernel)

theorem writes_record (crypto : Crypto) (ctx : Context) (t : Technical) :
    Writes 2 1100 (t.record crypto ctx) := by
  have hdigest : FieldsWrite 1 [("evidence_digest", .str (t.evidenceDigest crypto ctx))]
      [("evidence_digest", 66)] :=
    .cons ⟨rfl, (writes_sha256 crypto _).mono (by decide) (le_refl _)⟩ .nil
  exact (writes_dict (List.rel_append (t.fieldsWrite ctx) hdigest) (by decide +kernel)
    (by decide)).mono (le_refl _) (by decide +kernel)

end Technical

/-- Technical evidence of accepted observations passes `validate_technical`. -/
theorem validateTechnical_issued (t : Technical) :
    validateTechnical crypto ctx (t.record crypto ctx) = .ok () := by
  have hrecord := t.writes_record crypto ctx
  have hclosed : closed (t.record crypto ctx) technicalFields [] = .ok _ :=
    closed_of_keys (l := Technical.widths.map Prod.fst ++ ["evidence_digest"]) rfl
      (by decide +kernel)
  have hfixed : fieldsEqual (t.record crypto ctx) ([("evidence_version", .int 1),
      ("validator_id", .str "zoidberg-media-technical-validator/1"), ("outcome", .str "ACCEPT"),
      ("reason_codes", .list [.str "ACCEPTED_POLICY_METADATA"])] ++ policyFields ctx) = .ok () :=
    fieldsEqual_of_subset hrecord (by decide) (by simp [Technical.fields, policyFields])
  have htype : fixed ((t.record crypto ctx).field "detected_media_type")
      (.str (detectedMediaType t.mime)) = .ok () :=
    (fixed_of_mem hrecord (by decide)
      (e := ("detected_media_type", .str (detectedMediaType t.mime)))
      (by simp [Technical.fields])).2
  have hsemantics : fixed ((t.record crypto ctx).field "raw_media_semantics")
      (.str t.semantics) = .ok () :=
    (fixed_of_mem hrecord (by decide) (e := ("raw_media_semantics", .str t.semantics))
      (by simp [Technical.fields])).2
  have hpixels : ∀ e ∈ imageFields, (t.record crypto ctx).field e.1 = t.pixels e.1 := by
    simp only [imageFields, List.forall_mem_cons]
    exact ⟨rfl, rfl, rfl, rfl, List.forall_mem_nil _⟩
  have hdigest : withoutDigest crypto (t.record crypto ctx) "evidence_digest" = .ok () := by
    refine withoutDigest_append (t.writes_fields ctx) ?_
    show "evidence_digest" ∉ Technical.widths.map Prod.fst
    decide +kernel
  simp only [validateTechnical, bind_eq_ok]
  refine ⟨_, hclosed, (), hrecord.bounded (by decide), (), hfixed, t.mime,
    oneOf_eq_ok.mpr ⟨rfl, t.mime_valid⟩, (), htype, t.contentHash, t.contentHash_valid, t.length,
    uint_eq_ok.mpr ⟨rfl, t.length_valid⟩, (), ?_, hdigest⟩
  have hvalid := t.pixels_valid
  by_cases htext : t.mime = "text/plain"
  · simp only [htext, if_true] at hvalid ⊢
    rw [Technical.semantics, if_pos htext] at hsemantics
    refine bind_eq_ok.mpr ⟨(), hsemantics, forM_eq_ok.mpr fun e he => ?_⟩
    rw [hpixels e he, hvalid e he]
    exact fixed_self rfl
  · simp only [htext, if_false] at hvalid ⊢
    rw [Technical.semantics, if_neg htext] at hsemantics
    refine bind_eq_ok.mpr ⟨(), hsemantics, forM_eq_ok.mpr fun e he => ?_⟩
    obtain ⟨n, hn⟩ := hvalid e he
    rw [hpixels e he]
    exact bind_eq_ok.mpr ⟨n, hn, rfl⟩

/-! ## Attestations -/

/-- What a submitter signs. -/
structure AttestationText where
  creator : String
  submission : String
  contentHash : String
  technicalDigest : String
  nonce : String
  issuedAt : String
  expiresAt : String

/-- The payload that a submitter signs. -/
def AttestationText.fields (ctx : Context) (a : AttestationText) : Dict :=
  [("attestation_version", .int 1), ("statement_id", .str statementId),
    ("statement_version", .int 1), ("statement", .str statement),
    ("wallet_address", .str a.creator), ("submission_id", .str a.submission),
    ("raw_media_sha256", .str a.contentHash), ("policy_id", .str ctx.mediaPolicyId),
    ("policy_version", .int 2), ("policy_digest", .str ctx.mediaPolicyDigest),
    ("technical_evidence_version", .int 1),
    ("technical_evidence_digest", .str a.technicalDigest), ("nonce", .str a.nonce),
    ("issued_at", .str a.issuedAt), ("expires_at", .str a.expiresAt),
    ("network_id", .str ctx.networkId)]

/-- What is signed, in its envelope. -/
def AttestationText.envelope (ctx : Context) (a : AttestationText) : Value :=
  CanonicalV3.envelope (.dict (a.fields ctx)) "submitter-attestation" ctx

/-- The message that a submitter signs. -/
def AttestationText.message (ctx : Context) (a : AttestationText) : ByteArray :=
  encodeUtf8 (canonicalText (a.envelope ctx))

/-- `record` of `attestation_from_signature`. -/
def attestationRecord (ctx : Context) (payload : Value) (message : ByteArray) (sig : Value)
    (identity : String) : Value :=
  .dict [("attestation_version", .int 1), ("statement_id", .str statementId),
    ("statement_version", .int 1), ("domain", .str "zoidbergchain/submitter-attestation/v2"),
    ("protocol_version", .int 2), ("network_id", .str ctx.networkId),
    ("signature_scheme", .str "personal_sign"), ("signer_wallet", payload.field "wallet_address"),
    ("signature", sig), ("nonce", payload.field "nonce"), ("canonical_payload", payload),
    ("canonical_payload_digest", .str identity), ("canonical_message", decodedText message),
    ("canonical_message_hash", .str identity)]

/-- A signed attestation whose parts have passed their checks. -/
structure Attestation (crypto : Crypto) (ctx : Context) extends AttestationText where
  sig : String
  creator_valid : wallet (.str creator) = .ok creator
  submission_valid : submissionId (.str submission) = .ok submission
  contentHash_valid : h64 (.str contentHash) = .ok contentHash
  technicalDigest_valid : h64 (.str technicalDigest) = .ok technicalDigest
  nonce_valid : opaqueText (.str nonce) = .ok nonce
  expiry_valid : expiry (.str issuedAt) (.str expiresAt) = .ok ()
  sig_valid : verifySignature crypto (toAttestationText.message ctx) (.str sig) (.str creator) =
    .ok ()

theorem writes_statement : Writes 0 542 (.str statement) := by
  have hlist : statement.toList.all Json.isPlain = true ∧ statement.toList.length ≤ 540 := by
    unfold statement
    -- literals as lists: decoding them in the kernel is slow
    rw [String.toList_append, String.toList_append, String.toList_append, String.toList_append,
      String.toList_append, String.toList_append, String.toList_ofList, String.toList_ofList,
      String.toList_ofList, String.toList_ofList, String.toList_ofList, String.toList_ofList,
      String.toList_ofList]
    decide +kernel
  rw [String.length_toList] at hlist
  exact writes_plain (List.all_eq_true.mp hlist.1) hlist.2 (by decide)

namespace Attestation

theorem fieldsWrite (a : Attestation crypto ctx) : FieldsWrite 0 (a.fields ctx)
    [("attestation_version", 1), ("statement_id", 62), ("statement_version", 1),
      ("statement", 542), ("wallet_address", 44), ("submission_id", 34),
      ("raw_media_sha256", 66), ("policy_id", 84), ("policy_version", 1), ("policy_digest", 66),
      ("technical_evidence_version", 1), ("technical_evidence_digest", 66), ("nonce", 258),
      ("issued_at", 34), ("expires_at", 34), ("network_id", 66)] := by
  obtain ⟨hissued, hexpires⟩ := writes_expiry a.expiry_valid
  have hsmall : ∀ n : Int, 0 ≤ n ∧ n < 10 ^ 1 → Writes 0 1 (.int n) := fun n hn =>
    writes_small hn (by decide) (hn.2.le.trans (by decide))
  have hstatementId : Writes 0 62 (.str statementId) :=
    writes_plain (n := 60) (by decide +kernel) (by decide +kernel) (by decide)
  simp only [AttestationText.fields, FieldsWrite, List.forall₂_cons, List.forall₂_nil_left_iff,
    true_and, and_true]
  exact ⟨hsmall 1 (by decide), hstatementId, hsmall 1 (by decide), writes_statement,
    writes_wallet a.creator_valid, writes_submissionId a.submission_valid,
    writes_h64 a.contentHash_valid, writes_mediaPolicyId ctx, hsmall 2 (by decide),
    writes_contextHash ctx (by simp), hsmall 1 (by decide), writes_h64 a.technicalDigest_valid,
    writes_opaqueText a.nonce_valid, hissued, hexpires, writes_networkId ctx⟩

theorem writes_payload (a : Attestation crypto ctx) : Writes 1 1800 (.dict (a.fields ctx)) :=
  (writes_dict a.fieldsWrite (by decide +kernel) (by decide)).mono (le_refl _)
    (by decide +kernel)

theorem writes_message (a : Attestation crypto ctx) : Writes 2 2052 (a.envelope ctx) :=
  writes_envelope (k := 21) a.writes_payload (by decide) (by decide) (by decide) (by decide)

/-- `canonical_payload_digest`. -/
def identity (a : Attestation crypto ctx) : String := crypto.sha256Hex (a.message ctx)

/-- The closed attestation. -/
def record (a : Attestation crypto ctx) : Value :=
  attestationRecord ctx (.dict (a.fields ctx)) (a.message ctx) (.str a.sig) a.identity

theorem writes_record (a : Attestation crypto ctx) : Writes 2 7000 a.record := by
  have hflat : ∀ {n : Nat} {w : Value}, Writes 0 n w → Writes 1 n w := fun hw =>
    hw.mono (by decide) (le_refl _)
  have hsmall : ∀ n : Int, 0 ≤ n ∧ n < 10 ^ 1 → Writes 0 1 (.int n) := fun n hn =>
    writes_small hn (by decide) (hn.2.le.trans (by decide))
  obtain ⟨sig, hsig, -⟩ := bind_eq_ok.mp a.sig_valid
  obtain ⟨d, hd, hfields⟩ : ∃ d, a.record = .dict d ∧ FieldsWrite 1 d
      [("attestation_version", 1), ("statement_id", 62), ("statement_version", 1),
        ("domain", 40), ("protocol_version", 1), ("network_id", 66), ("signature_scheme", 15),
        ("signer_wallet", 44), ("signature", 134), ("nonce", 258), ("canonical_payload", 1800),
        ("canonical_payload_digest", 66), ("canonical_message", 2 * 2052 + 2),
        ("canonical_message_hash", 66)] := by
    refine ⟨_, rfl, ?_⟩
    simp only [FieldsWrite, List.forall₂_cons, List.forall₂_nil_left_iff, true_and, and_true]
    exact ⟨hflat (hsmall 1 (by decide)),
      hflat (writes_plain (n := 60) (by decide +kernel) (by decide +kernel) (by decide)),
      hflat (hsmall 1 (by decide)),
      hflat (writes_plain (n := 38) (by decide) (by decide) (by decide)),
      hflat (hsmall 2 (by decide)), hflat (writes_networkId ctx),
      hflat (writes_plain (n := 13) (by decide) (by decide) (by decide)),
      hflat (writes_wallet a.creator_valid), hflat (writes_signature hsig),
      hflat (writes_opaqueText a.nonce_valid), a.writes_payload, hflat (writes_sha256 crypto _),
      hflat (CanonicalV3.writes_message a.writes_message (by decide)),
      hflat (writes_sha256 crypto _)⟩
  rw [hd]
  exact (writes_dict hfields (by decide +kernel) (by decide)).mono (le_refl _)
    (by decide +kernel)

theorem attestationBytes_message (a : Attestation crypto ctx) :
    attestationBytes ctx (.dict (a.fields ctx)) = .ok (a.message ctx) := by
  have hclosed : closed (.dict (a.fields ctx)) attestationPayloadFields [] = .ok _ :=
    closed_of_keys (l := attestationPayloadFields) rfl (by decide +kernel)
  have hfixed : fieldsEqual (.dict (a.fields ctx)) ([("attestation_version", .int 1),
      ("statement_id", .str statementId), ("statement_version", .int 1),
      ("statement", .str statement), ("technical_evidence_version", .int 1),
      ("network_id", .str ctx.networkId)] ++ policyFields ctx) = .ok () :=
    fieldsEqual_of_subset a.writes_payload (by decide)
      (by simp [AttestationText.fields, policyFields])
  have hmessage : canonical (envelope (.dict (a.fields ctx)) "submitter-attestation" ctx) =
      .ok (a.message ctx) := a.writes_message.canonical
  have hsize : (a.message ctx).size ≤ 8192 := by
    rw [size_canonical hmessage]
    exact a.writes_message.width.trans (by decide)
  simp only [attestationBytes, bind_eq_ok, require_eq_ok]
  exact ⟨_, hclosed, (), hfixed, _, a.creator_valid, _, a.submission_valid, _,
    a.contentHash_valid, _, a.technicalDigest_valid, _, a.nonce_valid, (), a.expiry_valid, _,
    hmessage, (), hsize, rfl⟩

end Attestation

/-- An attestation of checked parts passes `validate_attestation`. -/
theorem validateAttestation_issued (a : Attestation crypto ctx) :
    validateAttestation crypto ctx a.record = .ok () := by
  have hclosed : closed a.record attestationFields [] = .ok _ :=
    closed_of_keys (l := attestationFields) rfl (by decide +kernel)
  have hdigest : digest crypto (envelope (.dict (a.fields ctx)) "submitter-attestation" ctx) =
      .ok a.identity := by
    rw [digest]
    exact bind_eq_ok.mpr ⟨_, a.writes_message.canonical, rfl⟩
  have hfixed : fieldsEqual a.record [("attestation_version", .int 1),
      ("statement_id", .str statementId), ("statement_version", .int 1),
      ("domain", .str "zoidbergchain/submitter-attestation/v2"), ("protocol_version", .int 2),
      ("network_id", .str ctx.networkId), ("signature_scheme", .str "personal_sign"),
      ("signer_wallet", .str a.creator), ("nonce", .str a.nonce),
      ("canonical_message", decodedText (a.message ctx)),
      ("canonical_payload_digest", .str a.identity),
      ("canonical_message_hash", .str a.identity)] = .ok () := by
    have hsigner : (Value.dict (a.fields ctx)).field "wallet_address" = .str a.creator := rfl
    have hnonce : (Value.dict (a.fields ctx)).field "nonce" = .str a.nonce := rfl
    have hrecord := a.writes_record
    rw [Attestation.record, attestationRecord, hsigner, hnonce] at hrecord ⊢
    exact fieldsEqual_of_subset hrecord (by decide) (by simp)
  simp only [validateAttestation, bind_eq_ok]
  exact ⟨_, hclosed, (), a.writes_record.bounded (by decide), a.message ctx,
    a.attestationBytes_message, a.identity, hdigest, (), hfixed, a.sig_valid⟩

end CanonicalV3

end ZoidbergChain
