import ZoidbergChain.CanonicalV3.Fields

/-!
# Native transactions of a canonical block

canonical_v3/transactions.py: the signing bytes of a transfer, the aggregate of a block, and the
mining reward. `canonical(..., ascii_only=True)` writes the aggregate.
-/

namespace ZoidbergChain

open Python

namespace CanonicalV3

/-! ## Transfers -/

def transferFields : List String :=
  ["amount", "fee", "from_address", "genesis_hash", "memo", "nonce", "timestamp", "to_address",
    "transaction_type", "transaction_version"]

def transferRecordFields : List String :=
  transferFields ++ ["network", "network_id", "protocol_version", "signature",
    "signature_scheme", "signed_message", "signed_message_hash", "tx_id"]

/-- `signing_bytes`: `EDGE_SPACE` are the characters of `str.isspace`. -/
def signingBytes (ctx : Context) (payload : Value) : Py ByteArray := do
  let _ ← closed payload transferFields []
  require (payload.field "transaction_version" = .int 2) (v3Error "transaction_version")
  require (payload.field "transaction_type" = .str "native_transfer")
    (v3Error "transaction_type")
  let genesis ← h64 (payload.field "genesis_hash")
  require (genesis = ctx.genesisHash) (v3Error "genesis_context")
  let sender ← wallet (payload.field "from_address")
  let recipient ← wallet (payload.field "to_address")
  require (sender ≠ recipient) (v3Error "self_transfer")
  let _ ← decimalUnits (payload.field "amount") true (some (1000000000 * 1000000))
  require (payload.field "fee" = .str "0") (v3Error "fee")
  nonce (payload.field "nonce")
  let _ ← timeUtc (payload.field "timestamp")
  (if payload.field "memo" = .null then .ok () else do
    let memo ← nonemptyText (payload.field "memo") 280 1120
    require (stripChars memo.toList = memo.toList) (v3Error "memo_edges"))
  let raw ← canonical (envelope payload "native-transfer" ctx)
  require (raw.size ≤ 4096) (v3Error "signing_message_size")
  .ok raw

/-- `{key: record[key] for key in PAYLOAD_FIELDS}`. -/
def transferPayload (record : Value) : Value :=
  .dict (transferFields.map fun key => (key, record.field key))

/-- `validate_transaction`. -/
def validateTransaction (crypto : Crypto) (ctx : Context) (record : Value) : Py Unit := do
  let _ ← closed record transferRecordFields []
  bounded record 8192
  require (record.field "protocol_version" = .int 2) (v3Error "protocol_version")
  require (record.field "network_id" = .str ctx.networkId ∧
    record.field "network" = .str ctx.application) (v3Error "network_context")
  require (record.field "signature_scheme" = .str "personal_sign") (v3Error "signature_scheme")
  let message ← signingBytes ctx (transferPayload record)
  let signedMessage ← nonemptyText (record.field "signed_message") 4096 4096
  let stated ← h64 (record.field "tx_id")
  let statedHash ← h64 (record.field "signed_message_hash")
  let txId := crypto.sha256Hex message
  require (encodeUtf8 signedMessage = message ∧ stated = statedHash ∧ statedHash = txId)
    (v3Error "transaction_commitment")
  verifySignature crypto message (record.field "signature") (record.field "from_address")

/-! ## The transactions of a block -/

/-- `(r['from_address'], int(r['nonce']), r['tx_id'])`. -/
def transactionOrder (record : Value) : String ×ₗ Nat ×ₗ String :=
  toLex (record.textAt "from_address",
    toLex (nonceNumber (record.textAt "nonce"), record.textAt "tx_id"))

/-- A sender's nonces have no gap. -/
def nonceGapFree : List Value → Prop
  | left :: right :: rest =>
    (left.textAt "from_address" = right.textAt "from_address" →
      nonceNumber (right.textAt "nonce") = nonceNumber (left.textAt "nonce") + 1) ∧
    nonceGapFree (right :: rest)
  | _ => True

instance nonceGapFreeDecidable : (records : List Value) → Decidable (nonceGapFree records)
  | [] => inferInstanceAs (Decidable True)
  | [_] => inferInstanceAs (Decidable True)
  | _ :: right :: rest =>
    have := nonceGapFreeDecidable (right :: rest)
    inferInstanceAs (Decidable (_ ∧ nonceGapFree (right :: rest)))

/-- `type(value) is list and len(value) <= high`. -/
def listUpTo (v : Value) (high : Nat) (code : String) : Py (List Value) :=
  match v with
  | .list xs => if xs.length ≤ high then .ok xs else .error (v3Error code)
  | _ => .error (v3Error code)

/-- `validate_transactions`. -/
def validateTransactions (crypto : Crypto) (ctx : Context) (v : Value) : Py Unit := do
  let records ← listUpTo v 10 "native_count"
  bounded v 98304
  records.forM (validateTransaction crypto ctx)
  let order := records.map transactionOrder
  require (order = order.insertionSort (· ≤ ·)) (v3Error "native_order")
  require ((records.map fun r => r.textAt "tx_id").Nodup ∧
    (records.map fun r => (r.textAt "from_address", r.textAt "nonce")).Nodup)
    (v3Error "native_duplicate")
  require (nonceGapFree records) (v3Error "native_nonce_gap")

/-- `canonical(value, ascii_only=True)`. -/
def canonicalAscii (v : Value) : Py ByteArray := do
  jsonValue 0 v
  .ok (encodeUtf8 (String.ofList (Json.render true (Json.sortKeys v))))

/-- `aggregate_hash`. -/
def aggregateHash (crypto : Crypto) (ctx : Context) (v : Value) : Py String := do
  validateTransactions crypto ctx v
  let raw ← canonicalAscii v
  .ok (crypto.sha256Hex raw)

/-! ## Rewards -/

/-- `reward`. -/
def reward (creator : Value) : Py Value := do
  let creator ← wallet creator
  .ok (.dict [("amount", .str "5"), ("payload_size_kb", .str "0"), ("recipient", .str creator),
    ("sender", .str "REWARD_POOL"), ("tip", .str "0")])

/-- `validate_rewards`. -/
def validateRewards (v creator : Value) : Py Unit :=
  match v with
  | .list [record] => do
    let _ ← closed record ["amount", "payload_size_kb", "recipient", "sender", "tip"] []
    let raw ← canonical record
    let expected ← reward creator
    let wanted ← canonical expected
    require (raw = wanted) (v3Error "reward_rule")
  | _ => .error (v3Error "reward_count")

end CanonicalV3

end ZoidbergChain
