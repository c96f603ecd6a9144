import ZoidbergChain.CanonicalV3.Evidence
import ZoidbergChain.Protocol

/-!
# Canonical blocks

canonical_v3/block.py: the checks of a block payload, its record with the hash, the size budgets,
and the reader of records.
-/

namespace ZoidbergChain

open Python

namespace CanonicalV3

/-! ## Payloads -/

/-- `PAYLOAD_FIELDS`. -/
def payloadFields : List String :=
  ["block_version", "index", "previous_hash", "timestamp", "minted_at", "transactions",
    "native_transactions", "transactions_hash", "miner", "submission_id", "certificate_id",
    "vote_hash", "creator_wallet", "content_type", "approval_percentage", "originality_score",
    "decisive_vote_total", "minimum_votes_required", "approved_at", "reward_type",
    "reward_source", "reward_recipient", "reward_amount", "voter_rewards",
    "admission_certificate", "media"]

variable (crypto : Crypto) (ctx : Context)

/-- `validate_header`. -/
def validateHeader (payload : Value) : Py Unit := do
  fixed (payload.field "block_version") (.int 3)
  let _ ← uint (payload.field "index") 1 maxUint
  let _ ← h64 (payload.field "previous_hash")
  let _ ← seconds (payload.field "timestamp")
  let _ ← seconds (payload.field "minted_at")
  let miner ← pattern (payload.field "miner") (isHexAfter "" 66)
  require (crypto.isPublicKey ((readHex miner.toList).getD []) = true)
    (v3Error "miner_public_key")
  let _ ← submissionId (payload.field "submission_id")
  ["certificate_id", "vote_hash", "transactions_hash"].forM fun name => do
    let _ ← h64 (payload.field name)
  let creator ← wallet (payload.field "creator_wallet")
  let _ ← wallet (payload.field "reward_recipient")
  validateRational (payload.field "approval_percentage")
  validateRational (payload.field "originality_score")
  let _ ← uint (payload.field "decisive_vote_total") 1 16
  fieldsEqual payload [("minimum_votes_required", .int 5), ("approved_at", .int 0),
    ("reward_type", .str "meme_mining_reward"), ("reward_source", .str "reward_pool"),
    ("reward_recipient", .str creator), ("reward_amount", .str "5"), ("voter_rewards", .list [])]

/-- `validate_payload`. -/
def validatePayload (payload : Value) : Py Unit := do
  let _ ← closed payload payloadFields ["meme_text"]
  bounded payload maxRecord
  validateHeader crypto payload
  let media := payload.field "media"
  let _ ← validateDescriptor media
  let mime := media.textAt "mime_type"
  require (payload.field "content_type" ∈
    if mime = "text/plain" then [.str "text"] else [.str "image", .str "mixed"])
    (v3Error "content_type")
  (if payload.has "meme_text" then do
    require (mime ≠ "text/plain") (v3Error "text_caption")
    let _ ← nonemptyText (payload.field "meme_text") 1000 4096
  else .ok ())
  validateRewards (payload.field "transactions") (payload.field "creator_wallet")
  let aggregate ← aggregateHash crypto ctx (payload.field "native_transactions")
  fixed (payload.field "transactions_hash") (.str aggregate)
  let certificate := payload.field "admission_certificate"
  validateCertificate crypto ctx certificate
  fieldsEqual certificate [("submission_id", .str (payload.textAt "submission_id")),
    ("content_hash", .str (media.textAt "original_sha256")),
    ("creator_wallet", .str (payload.textAt "creator_wallet")),
    ("certificate_digest", .str (payload.textAt "certificate_id"))]
  fieldsEqual (certificate.field "technical_evidence") [("detected_mime_type", .str mime),
    ("raw_media_byte_length", .int (media.intAt "original_size"))]
  let tally := certificate.field "originality"
  let summary ← rational (tally.intAt "positive_votes") (tally.intAt "approval_denominator")
  fieldsEqual payload [("approval_percentage", summary), ("originality_score", summary),
    ("decisive_vote_total", .int (tally.intAt "approval_denominator")),
    ("vote_hash", .str (tally.textAt "vote_set_digest"))]

/-! ## Budgets -/

/-- `Sizes`. -/
structure Sizes where
  complete : Nat
  base64 : Nat
  certificate : Nat
  native : Nat
  rest : Int
  deriving DecidableEq

/-- `check_complete_size`. -/
def checkCompleteSize (raw : ByteArray) : Py Unit :=
  require (raw.size ≤ maxRecord) (v3Error "block_size")

/-- `check_budgets`. -/
def checkBudgets (record : Value) (raw : ByteArray) : Py Sizes := do
  checkCompleteSize raw
  let payload := (record.field "envelope").field "payload"
  let certificate ← canonical (payload.field "admission_certificate")
  let native ← canonical (payload.field "native_transactions")
  let content := ((payload.field "media").textAt "payload").length
  let rest : Int := raw.size - certificate.size - native.size - content
  require (certificate.size ≤ 196608 ∧ native.size ≤ 98304 ∧ 0 ≤ rest ∧ rest ≤ 32768)
    (v3Error "block_component_budget")
  .ok ⟨raw.size, content, certificate.size, native.size, rest⟩

/-! ## Records -/

/-- `dict(envelope=value, hash=sha256(preimage))`. -/
def blockRecord (value : Value) (preimage : ByteArray) : Value :=
  .dict [("envelope", value), ("hash", .str (crypto.sha256Hex preimage))]

/-- `encode_record`. -/
def encodeRecord (payload : Value) : Py ByteArray := do
  validatePayload crypto ctx payload
  let value := envelope payload "block" ctx
  let preimage ← canonical value
  let record := blockRecord crypto value preimage
  let raw ← canonical record
  let _ ← checkBudgets record raw
  .ok raw

def envelopeFields : List String :=
  ["domain", "network_id", "object_type", "payload", "protocol", "protocol_version"]

/-- `parse_record`. -/
def parseRecord (raw : ByteArray) : Py Value := do
  checkCompleteSize raw
  let record ← parse raw maxRecord
  let _ ← closed record ["envelope", "hash"] []
  let value := record.field "envelope"
  let _ ← closed value envelopeFields []
  fieldsEqual value [("domain", .str "zoidbergchain/block/v2"),
    ("network_id", .str ctx.networkId), ("object_type", .str "block"),
    ("protocol", .str "zoidbergchain"), ("protocol_version", .int 2)]
  let stated ← h64 (record.field "hash")
  let preimage ← canonical value
  require (stated = crypto.sha256Hex preimage) (v3Error "block_hash")
  require ((value.field "payload").isObject = true) (v3Error "payload_type")
  let _ ← closed (value.field "payload") payloadFields ["meme_text"]
  let _ ← validateDescriptor ((value.field "payload").field "media")
  let _ ← checkBudgets record raw
  validatePayload crypto ctx (value.field "payload")
  .ok record

/-- `reconstruct_record_media`. -/
def reconstructRecordMedia (workers : Workers) (raw : ByteArray) : Py Outcome := do
  let record ← parseRecord crypto ctx raw
  .ok (reconstruct crypto workers (((record.field "envelope").field "payload").field "media"))

/-! ## The analytic size bound -/

/-- The widths of `conservative_size_bound` inside the payload. -/
def payloadWidths : List (String × Nat) :=
  [("block_version", 1), ("index", 16), ("previous_hash", 66), ("timestamp", 34),
    ("minted_at", 34), ("transactions", 128), ("native_transactions", 10 * 8192 + 11),
    ("transactions_hash", 66), ("miner", 68), ("submission_id", 34), ("certificate_id", 66),
    ("vote_hash", 66), ("creator_wallet", 44), ("content_type", 7), ("approval_percentage", 33),
    ("originality_score", 33), ("decisive_vote_total", 2), ("minimum_votes_required", 2),
    ("approved_at", 1), ("reward_type", 20), ("reward_source", 13), ("reward_recipient", 44),
    ("reward_amount", 3), ("voter_rewards", 2),
    ("admission_certificate", certificateSizeBound), ("media", 2796204 + 231),
    ("meme_text", 6002)]

/-- The widths of `conservative_size_bound` around it. -/
def envelopeWidths (payload : Nat) : List (String × Nat) :=
  [("domain", 24), ("network_id", 66), ("object_type", 7), ("payload", payload),
    ("protocol", 15), ("protocol_version", 1)]

/-- `conservative_size_bound`. -/
def conservativeSizeBound : Nat :=
  objectWidth (envelopeWidths (objectWidth payloadWidths)) + 87

end CanonicalV3

end ZoidbergChain
