import ZoidbergChain.CanonicalV3.Media
import ZoidbergChain.CanonicalV3.Transactions

/-!
# Admission evidence

canonical_v3/evidence.py: technical evidence, the submitter's attestation, the reviewers' votes,
the tallies, and the certificate that holds them.
-/

namespace ZoidbergChain

open Python

namespace CanonicalV3

/-! ## Constants -/

/-- `STATEMENT_ID`. -/
def statementId : String := "zoidberg-public-testnet-v1/submitter-rights-permanence/1"

/-- `STATEMENT`. -/
def statement : String :=
  "I assert that I have the right or authorization to submit this exact content " ++
  "under the identified ZoidbergChain Public Testnet media-admission policy. " ++
  "I understand that, if accepted and finalized, the accepted media bytes become " ++
  "permanently replicated in immutable ZoidbergChain history and cannot be removed " ++
  "through ordinary moderation. This testnet attestation is my signed assertion; " ++
  "it is not proof of ownership, a legal determination, a waiver, or a license " ++
  "beyond this explicit assertion."

def technicalFields : List String :=
  ["evidence_version", "validator_id", "policy_id", "policy_version", "policy_digest", "outcome",
    "reason_codes", "detected_media_type", "detected_mime_type", "raw_media_byte_length",
    "raw_media_sha256", "raw_media_semantics", "width_pixels", "height_pixels", "frame_count",
    "aggregate_decoded_pixels", "evidence_digest"]

def attestationFields : List String :=
  ["attestation_version", "statement_id", "statement_version", "domain", "protocol_version",
    "network_id", "signature_scheme", "signer_wallet", "signature", "nonce", "canonical_payload",
    "canonical_payload_digest", "canonical_message", "canonical_message_hash"]

def attestationPayloadFields : List String :=
  ["attestation_version", "statement_id", "statement_version", "statement", "wallet_address",
    "submission_id", "raw_media_sha256", "policy_id", "policy_version", "policy_digest",
    "technical_evidence_version", "technical_evidence_digest", "nonce", "issued_at", "expires_at",
    "network_id"]

def voteFields : List String :=
  ["submission_id", "content_hash", "voter", "voter_wallet_address", "vote_type", "dimension",
    "vote_version", "protocol_version", "network_id", "signature_scheme", "vote_signature",
    "vote_message", "vote_nonce", "signed_message_hash", "vote_issued_at", "vote_expires_at",
    "vote_identity", "reviewer_policy_version", "reputation_rule_version", "reviewer_status",
    "reviewer_eligible", "reviewer_status_effective_height",
    "reviewer_status_reference_block_hash"]

def tallyFields : List String :=
  ["dimension", "policy_version", "policy_digest", "eligible_valid_votes",
    "established_reviewer_votes", "positive_votes", "negative_votes", "unsure_votes",
    "approval_denominator", "approval_threshold_bps", "quorum_reached", "resolved", "outcome",
    "vote_set_digest"]

def certificateFields : List String :=
  ["certificate_version", "network_id", "submission_id", "content_hash", "creator_wallet",
    "policy_id", "policy_version", "policy_digest", "technical_evidence_version",
    "technical_evidence", "attestation_version", "attestation", "review_policy_version",
    "review_policy_digest", "votes", "originality", "admissibility", "certificate_digest"]

/-- The keys of `POSITIVE`. -/
def dimensions : List String := ["originality", "admissibility"]

/-- `POSITIVE[dimension]`. -/
def positiveChoice (dimension : String) : String :=
  if dimension = "originality" then "original" else "admissible"

/-- `NEGATIVE[dimension]`. -/
def negativeChoice (dimension : String) : String :=
  if dimension = "originality" then "not_original" else "not_admissible"

/-- `[0-9a-f]{32}`. -/
def submissionId (v : Value) : Py String := pattern v (isHexAfter "" 32)

/-! ## Technical evidence -/

/-- `policy_fields`. -/
def policyFields (ctx : Context) : Dict :=
  [("policy_id", .str ctx.mediaPolicyId), ("policy_version", .int 2),
    ("policy_digest", .str ctx.mediaPolicyDigest)]

/-- `detected`, by the position of the type in `MIMES`. -/
def detectedMediaType (mime : String) : String :=
  ["plain_utf8_text", "jpeg", "png", "gif", "webp"].getD (mimes.idxOf mime) ""

/-- `zip(image_fields, (4096, 4096, 60, 16777216))`. -/
def imageFields : List (String × Int) :=
  [("width_pixels", 4096), ("height_pixels", 4096), ("frame_count", 60),
    ("aggregate_decoded_pixels", 16777216)]

/-- `validate_technical`. -/
def validateTechnical (crypto : Crypto) (ctx : Context) (v : Value) : Py Unit := do
  let _ ← closed v technicalFields []
  bounded v 8192
  fieldsEqual v ([("evidence_version", .int 1),
    ("validator_id", .str "zoidberg-media-technical-validator/1"), ("outcome", .str "ACCEPT"),
    ("reason_codes", .list [.str "ACCEPTED_POLICY_METADATA"])] ++ policyFields ctx)
  let mime ← oneOf (v.field "detected_mime_type") mimes "technical_mime"
  fixed (v.field "detected_media_type") (.str (detectedMediaType mime))
  let _ ← h64 (v.field "raw_media_sha256")
  let _ ← uint (v.field "raw_media_byte_length") 1 (maxOriginal mime)
  (if mime = "text/plain" then do
    fixed (v.field "raw_media_semantics") (.str "policy_canonical_utf8_text")
    imageFields.forM fun e => fixed (v.field e.1) .null
  else do
    fixed (v.field "raw_media_semantics") (.str "exact_input_bytes")
    imageFields.forM fun e => do
      let _ ← uint (v.field e.1) 1 e.2)
  withoutDigest crypto v "evidence_digest"

/-! ## Attestations -/

/-- `attestation_bytes`. -/
def attestationBytes (ctx : Context) (payload : Value) : Py ByteArray := do
  let _ ← closed payload attestationPayloadFields []
  fieldsEqual payload ([("attestation_version", .int 1), ("statement_id", .str statementId),
    ("statement_version", .int 1), ("statement", .str statement),
    ("technical_evidence_version", .int 1), ("network_id", .str ctx.networkId)] ++
    policyFields ctx)
  let _ ← wallet (payload.field "wallet_address")
  let _ ← submissionId (payload.field "submission_id")
  let _ ← h64 (payload.field "raw_media_sha256")
  let _ ← h64 (payload.field "technical_evidence_digest")
  let _ ← opaqueText (payload.field "nonce")
  expiry (payload.field "issued_at") (payload.field "expires_at")
  let message ← canonical (envelope payload "submitter-attestation" ctx)
  require (message.size ≤ 8192) (v3Error "attestation_message_size")
  .ok message

/-- `message.decode('utf-8')`, for the bytes of a text. -/
def decodedText (message : ByteArray) : Value := .str ((String.fromUTF8? message).getD "")

/-- `validate_attestation`. -/
def validateAttestation (crypto : Crypto) (ctx : Context) (v : Value) : Py Unit := do
  let _ ← closed v attestationFields []
  bounded v 16384
  let payload := v.field "canonical_payload"
  let message ← attestationBytes ctx payload
  let payloadDigest ← digest crypto (envelope payload "submitter-attestation" ctx)
  fieldsEqual v [("attestation_version", .int 1), ("statement_id", .str statementId),
    ("statement_version", .int 1), ("domain", .str "zoidbergchain/submitter-attestation/v2"),
    ("protocol_version", .int 2), ("network_id", .str ctx.networkId),
    ("signature_scheme", .str "personal_sign"),
    ("signer_wallet", .str (payload.textAt "wallet_address")),
    ("nonce", .str (payload.textAt "nonce")), ("canonical_message", decodedText message),
    ("canonical_payload_digest", .str payloadDigest),
    ("canonical_message_hash", .str payloadDigest)]
  verifySignature crypto message (v.field "signature") (v.field "signer_wallet")

/-! ## Votes -/

/-- `vote_payload`, for a vote whose fields have been checked to be strings. -/
def votePayload (ctx : Context) (v : Value) : Value :=
  .dict [("domain", .str "zoidbergchain/community-review/v3"),
    ("network_id", .str ctx.networkId), ("vote_version", .int 3), ("policy_version", .int 2),
    ("policy_digest", .str ctx.reviewPolicyDigest), ("reviewer_policy_version", .int 1),
    ("reputation_rule_version", .int 2),
    ("wallet_address", .str (v.textAt "voter_wallet_address")),
    ("submission_id", .str (v.textAt "submission_id")),
    ("content_hash", .str (v.textAt "content_hash")), ("dimension", .str (v.textAt "dimension")),
    ("choice", .str (v.textAt "vote_type")), ("nonce", .str (v.textAt "vote_nonce")),
    ("issued_at", .str (v.textAt "vote_issued_at")),
    ("expires_at", .str (v.textAt "vote_expires_at"))]

/-- `validate_vote`. -/
def validateVote (crypto : Crypto) (ctx : Context) (v : Value) : Py Unit := do
  let _ ← closed v voteFields []
  bounded v 4096
  let _ ← submissionId (v.field "submission_id")
  let _ ← h64 (v.field "content_hash")
  let voter ← wallet (v.field "voter_wallet_address")
  fieldsEqual v [("voter", .str voter), ("vote_version", .int 3), ("protocol_version", .int 2),
    ("network_id", .str ctx.networkId), ("signature_scheme", .str "personal_sign"),
    ("reviewer_policy_version", .int 1), ("reputation_rule_version", .int 2),
    ("reviewer_eligible", .bool true)]
  let dimension ← oneOf (v.field "dimension") dimensions "review_dimension"
  let _ ← oneOf (v.field "vote_type")
    [positiveChoice dimension, negativeChoice dimension, "unsure"] "review_choice"
  let _ ← oneOf (v.field "reviewer_status") ["PROBATIONARY_REVIEWER", "ESTABLISHED_REVIEWER"]
    "reviewer_status"
  let _ ← uint (v.field "reviewer_status_effective_height") 0 maxUint
  let _ ← h64 (v.field "reviewer_status_reference_block_hash")
  let _ ← opaqueText (v.field "vote_nonce")
  expiry (v.field "vote_issued_at") (v.field "vote_expires_at")
  let message ← canonical (votePayload ctx v)
  require (message.size ≤ 2048) (v3Error "vote_message_size")
  let identity ← digest crypto
    (.dict [("payload", votePayload ctx v), ("signature", v.field "vote_signature")])
  fieldsEqual v [("vote_message", decodedText message),
    ("signed_message_hash", .str (crypto.sha256Hex message)), ("vote_identity", .str identity)]
  verifySignature crypto message (v.field "vote_signature") (v.field "voter_wallet_address")

/-- `(v['dimension'], v['voter_wallet_address'], v['vote_identity'])`. -/
def voteOrder (v : Value) : String ×ₗ String ×ₗ String :=
  toLex (v.textAt "dimension",
    toLex (v.textAt "voter_wallet_address", v.textAt "vote_identity"))

/-- `validate_votes`. -/
def validateVotes (crypto : Crypto) (ctx : Context) (v : Value) : Py Unit := do
  let votes ← listUpTo v 32 "vote_count"
  votes.forM (validateVote crypto ctx)
  let order := votes.map voteOrder
  require (order = order.insertionSort (· ≤ ·)) (v3Error "vote_order")
  require (votes.map fun v => (v.textAt "dimension", v.textAt "voter_wallet_address")).Nodup
    (v3Error "vote_duplicate")
  dimensions.forM fun dimension =>
    require ((votes.countP fun v => v.textAt "dimension" = dimension) ≤ 16)
      (v3Error "dimension_count")

/-! ## Tallies -/

/-- The votes of a dimension, by the voter. -/
def selectedVotes (votes : List Value) (dimension : String) : List Value :=
  (votes.filter fun v => v.textAt "dimension" = dimension).insertionSort
    fun v w => v.textAt "voter_wallet_address" ≤ w.textAt "voter_wallet_address"

/-- The votes with a choice. -/
def choiceCount (selected : List Value) (choice : String) : Nat :=
  selected.countP fun v => v.textAt "vote_type" = choice

/-- `projection`. -/
def voteProjection (selected : List Value) : Value :=
  .list (selected.map fun v => .dict [("wallet", .str (v.textAt "voter_wallet_address")),
    ("choice", .str (v.textAt "vote_type")), ("identity", .str (v.textAt "vote_identity")),
    ("status", .str (v.textAt "reviewer_status"))])

/-- `_derive_tally`, for votes that `validate_votes` passes. -/
def deriveTally (crypto : Crypto) (ctx : Context) (votes : List Value) (dimension : String) :
    Py Value := do
  let selected := selectedVotes votes dimension
  let p := choiceCount selected (positiveChoice dimension)
  let n := choiceCount selected (negativeChoice dimension)
  let u := selected.length - p - n
  let e := selected.countP fun v => v.textAt "reviewer_status" = "ESTABLISHED_REVIEWER"
  let d := p + n
  let quorum := decide (5 ≤ selected.length ∧ 1 ≤ e)
  let resolved := quorum && decide (0 < d)
  let outcome := if resolved = true then
      if d * 7000 ≤ p * 10000 then positiveChoice dimension else negativeChoice dimension
    else "unresolved"
  let voteSet ← digest crypto (voteProjection selected)
  .ok (.dict [("dimension", .str dimension), ("policy_version", .int 2),
    ("policy_digest", .str ctx.reviewPolicyDigest),
    ("eligible_valid_votes", .int selected.length), ("established_reviewer_votes", .int e),
    ("positive_votes", .int p), ("negative_votes", .int n), ("unsure_votes", .int u),
    ("approval_denominator", .int d), ("approval_threshold_bps", .int 7000),
    ("quorum_reached", .bool quorum), ("resolved", .bool resolved), ("outcome", .str outcome),
    ("vote_set_digest", .str voteSet)])

/-- `_validate_derived_tally`. -/
def validateDerivedTally (crypto : Crypto) (ctx : Context) (v : Value) (votes : List Value)
    (dimension : String) : Py Unit := do
  let _ ← closed v tallyFields []
  bounded v 8192
  let derived ← deriveTally crypto ctx votes dimension
  fixed v derived

/-! ## Certificates -/

/-- `validate_certificate`. -/
def validateCertificate (crypto : Crypto) (ctx : Context) (v : Value) : Py Unit := do
  let _ ← closed v certificateFields []
  bounded v 196608
  fieldsEqual v ([("certificate_version", .int 2), ("network_id", .str ctx.networkId),
    ("technical_evidence_version", .int 1), ("attestation_version", .int 1),
    ("review_policy_version", .int 2), ("review_policy_digest", .str ctx.reviewPolicyDigest)] ++
    policyFields ctx)
  let submission ← submissionId (v.field "submission_id")
  let contentHash ← h64 (v.field "content_hash")
  let creator ← wallet (v.field "creator_wallet")
  let technical := v.field "technical_evidence"
  let attestation := v.field "attestation"
  validateTechnical crypto ctx technical
  validateAttestation crypto ctx attestation
  fieldsEqual technical [("raw_media_sha256", .str contentHash)]
  fieldsEqual (attestation.field "canonical_payload") [("submission_id", .str submission),
    ("wallet_address", .str creator), ("raw_media_sha256", .str contentHash),
    ("technical_evidence_digest", .str (technical.textAt "evidence_digest"))]
  let votes := (v.field "votes").items
  validateVotes crypto ctx (v.field "votes")
  votes.forM fun vote => do
    fieldsEqual vote [("submission_id", .str submission), ("content_hash", .str contentHash)]
    require (vote.textAt "voter_wallet_address" ≠ creator) (v3Error "self_vote")
  dimensions.forM fun dimension => do
    validateDerivedTally crypto ctx (v.field dimension) votes dimension
    require ((v.field dimension).field "outcome" = .str (positiveChoice dimension))
      (v3Error "certificate_not_qualified")
  withoutDigest crypto v "certificate_digest"

/-- The widths of `certificate_size_bound`. -/
def certificateWidths : List (String × Nat) :=
  [("certificate_version", 1), ("network_id", 66), ("submission_id", 34), ("content_hash", 66),
    ("creator_wallet", 44), ("policy_id", 84), ("policy_version", 1), ("policy_digest", 66),
    ("technical_evidence_version", 1), ("technical_evidence", 8192), ("attestation_version", 1),
    ("attestation", 16384), ("review_policy_version", 1), ("review_policy_digest", 66),
    ("votes", 32 * 4096 + 33), ("originality", 8192), ("admissibility", 8192),
    ("certificate_digest", 66)]

/-- `certificate_size_bound`. -/
def certificateSizeBound : Nat := objectWidth certificateWidths

end CanonicalV3

end ZoidbergChain
